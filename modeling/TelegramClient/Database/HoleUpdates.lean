import TelegramClient.Database.ChannelHoles
import TelegramClient.Lib.Intervals

/-!
# What the updates of the hole table do to the missing messages

The holes of a channel are an `IntervalFamily` over the integers (`holeIntervals`), and a good table is one whose holes
are separated (`holesValid_iff`).

* `addChannelHole_covers_iff` : when finding a hole adds exactly its ids.
-/

namespace TelegramClient.Database
open List hiding Disjoint

open IntervalFamily

/-- The message ids of a hole as an interval of integers. -/
def holeIntervals : IntervalFamily MessageHole Int := ⟨fun hole => hole.minId.toInt, fun hole => hole.maxId.toInt⟩

@[simp] theorem lo_holeIntervals (hole : MessageHole) : holeIntervals.lo hole = hole.minId.toInt := rfl

@[simp] theorem hi_holeIntervals (hole : MessageHole) : holeIntervals.hi hole = hole.maxId.toInt := rfl

def coveredIds (holes : List MessageHole) : Set Int32 := {id | ∃ hole ∈ holes, id ∈ hole.ids}

/-- The holes of a channel are intervals without a common id. -/
structure HolesValid (table : HoleTable) (peerId : Int64) : Prop where
  nonempty : ∀ hole ∈ table.holes peerId, hole.minId ≤ hole.maxId
  disjoint : (table.holes peerId).Pairwise fun hole other => Disjoint hole.ids other.ids

/-! ## Ids and integers -/

variable {hole : MessageHole}

variable {id : Int32}

theorem mem_ids : id ∈ hole.ids ↔ id.toInt ∈ holeIntervals.interval hole := by
  rw [mem_interval, lo_holeIntervals, hi_holeIntervals, ← Int32.le_iff_toInt_le, ← Int32.le_iff_toInt_le]
  rfl

variable {holes : List MessageHole}

theorem mem_coveredIds : id ∈ coveredIds holes ↔ id.toInt ∈ holeIntervals.covered holes := by
  simp only [coveredIds, Set.mem_ofPred_eq, mem_ids, mem_covered]

variable {other : MessageHole}

theorem disjoint_ids_iff (h : hole.minId ≤ hole.maxId) (h' : other.minId ≤ other.maxId) :
    Disjoint hole.ids other.ids ↔ holeIntervals.Apart hole other := by
  rw [Int32.le_iff_toInt_le] at h h'
  constructor
  · intro hdisj
    rw [apart_iff_not_meets]
    intro hmeets
    obtain ⟨hm, hmem'⟩ := hmeets.max_lo_mem h h'
    rcases le_total (holeIntervals.lo hole) (holeIntervals.lo other) with hle | hle
    · rw [max_eq_right hle, lo_holeIntervals, ← mem_ids] at hm hmem'
      exact Set.disjoint_left.mp hdisj hm hmem'
    · rw [max_eq_left hle, lo_holeIntervals, ← mem_ids] at hm hmem'
      exact Set.disjoint_left.mp hdisj hm hmem'
  · intro hapart
    rw [Set.disjoint_left]
    intro id hid hid'
    exact Set.disjoint_left.mp hapart.disjoint (mem_ids.mp hid) (mem_ids.mp hid')

theorem pairwise_disjoint_iff (h : ∀ hole ∈ holes, hole.minId ≤ hole.maxId) :
    holes.Pairwise (fun hole other => Disjoint hole.ids other.ids) ↔ holes.Pairwise holeIntervals.Apart :=
  List.Pairwise.iff_of_mem fun hm hmem' => disjoint_ids_iff (h _ hm) (h _ hmem')

variable {table : HoleTable} {peerId : Int64}

theorem holesValid_iff : HolesValid table peerId ↔ holeIntervals.Separated (table.holes peerId) := by
  constructor
  · rintro ⟨hne, hdisj⟩
    exact ⟨fun hole hm => Int32.le_iff_toInt_le.mp (hne hole hm), (pairwise_disjoint_iff hne).mp hdisj⟩
  · rintro ⟨hne, hapart⟩
    have hne' : ∀ hole ∈ table.holes peerId, hole.minId ≤ hole.maxId := fun hole hm =>
      Int32.le_iff_toInt_le.mpr (hne hole hm)
    exact ⟨hne', (pairwise_disjoint_iff hne').mpr hapart⟩

theorem intersects_iff : hole.intersects other = true ↔ holeIntervals.Meets hole other := by
  simp [MessageHole.intersects, Meets, Int32.le_iff_toInt_le]

/-! ## The statements -/

theorem HoleTable.mem_holes : hole ∈ table.holes peerId ↔ ∃ row ∈ table.rows, row.cid = peerId ∧ row.hole = hole := by
  simp [HoleTable.holes, and_assoc]

theorem HoleTable.holes_delete (table : HoleTable) (peerId : Int64) (maxId : Int32) :
    (table.delete peerId maxId).holes peerId = (table.holes peerId).filter fun hole => hole.maxId ≠ maxId := by
  unfold HoleTable.holes HoleTable.delete
  rw [filter_map, filter_filter, filter_filter]
  congr 1
  apply filter_congr
  intro row _
  by_cases hcid : row.cid = peerId
  · simp [HoleRow.key, hcid]
  · simp [beq_false_of_ne hcid]

theorem HoleTable.key_mem_iff {maxId : Int32} :
    (peerId, maxId) ∈ table.rows.map HoleRow.key ↔ maxId ∈ (table.holes peerId).map (·.maxId) := by
  simp only [mem_map, HoleTable.mem_holes, HoleRow.key, Prod.mk.injEq]
  constructor
  · rintro ⟨row, hrow, hcid, hmax⟩
    exact ⟨row.hole, ⟨row, hrow, hcid, rfl⟩, hmax⟩
  · rintro ⟨hole, ⟨row, hrow, hcid, rfl⟩, hmax⟩
    exact ⟨row, hrow, hcid, hmax⟩

theorem HoleTable.holes_insert (row : HoleRow) (hfresh : row.hole.maxId ∉ (table.holes row.cid).map (·.maxId)) :
    (table.insert row).rows = table.rows ++ [row] ∧
      (table.insert row).holes row.cid = table.holes row.cid ++ [row.hole] := by
  have hkey : row.key ∉ table.rows.map HoleRow.key := fun h => hfresh (HoleTable.key_mem_iff.mp h)
  have hrows : (table.insert row).rows = table.rows ++ [row] := by
    unfold HoleTable.insert
    rw [dif_neg hkey]
  refine ⟨hrows, ?_⟩
  unfold HoleTable.holes
  rw [hrows, filter_append, map_append]
  simp

/-! ## The holes that are found -/

theorem mem_sortByMaxId : hole ∈ sortByMaxId holes ↔ hole ∈ holes :=
  mem_insertionSort _

theorem head_sortByMaxId_le {first : MessageHole} (hfirst : (sortByMaxId holes).head? = some first) :
    first ∈ holes ∧ ∀ hole ∈ holes, first.maxId.toInt ≤ hole.maxId.toInt := by
  have htotal : Std.Total fun lhs rhs : MessageHole => lhs.maxId ≤ rhs.maxId := ⟨fun _ _ => Int32.le_total _ _⟩
  have htrans : IsTrans MessageHole fun lhs rhs => lhs.maxId ≤ rhs.maxId := ⟨fun _ _ _ => Int32.le_trans⟩
  have hsorted : (sortByMaxId holes).Pairwise fun lhs rhs => lhs.maxId ≤ rhs.maxId :=
    pairwise_insertionSort _ holes
  obtain ⟨rest, hrest⟩ := head?_eq_some_iff.mp hfirst
  rw [hrest, pairwise_cons] at hsorted
  refine ⟨mem_sortByMaxId.mp (hrest ▸ mem_cons_self), fun hole hm => ?_⟩
  rw [← mem_sortByMaxId, hrest, mem_cons] at hm
  rcases hm with rfl | hm
  · exact le_rfl
  · exact Int32.le_iff_toInt_le.mp (hsorted.1 hole hm)

variable {current : MessageHole}

section
variable (hs : holeIntervals.Separated (table.holes peerId))
include hs

theorem mem_intersectingHoles : current ∈ intersectingHoles table peerId hole ↔
      current ∈ table.holes peerId ∧ holeIntervals.Meets hole current := by
  simp only [intersectingHoles, mem_sortByMaxId, mem_append, mem_filter, Bool.and_eq_true, decide_eq_true_eq,
    Option.mem_toList, Option.filter_eq_some_iff, intersects_iff, ge_iff_le, Int32.le_iff_toInt_le]
  constructor
  · rintro (⟨hm, hmin, hmax⟩ | ⟨hnext, hmeets⟩)
    · exact ⟨hm, hmin, (hs.nonempty current hm).trans hmax⟩
    · exact ⟨(mem_filter.mp (head_sortByMaxId_le hnext).1).1, hmeets⟩
  · rintro ⟨hm, hmeets⟩
    by_cases hmax : current.maxId.toInt ≤ hole.maxId.toInt
    · exact .inl ⟨hm, hmeets.1, hmax⟩
    · -- it ends after the given hole, and of those only the next one can reach back to it
      have hafter : current ∈ (table.holes peerId).filter fun row => row.maxId > hole.maxId :=
        mem_filter.mpr ⟨hm, decide_eq_true (Int32.lt_iff_toInt_lt.mpr (not_le.mp hmax))⟩
      obtain ⟨next, hnext⟩ : ∃ next, (sortByMaxId ((table.holes peerId).filter fun row =>
          row.maxId > hole.maxId)).head? = some next :=
        Option.ne_none_iff_exists'.mp fun hnone =>
          not_mem_nil (head?_eq_none_iff.mp hnone ▸ mem_sortByMaxId.mpr hafter)
      obtain ⟨hnextMem, hnextFirst⟩ := head_sortByMaxId_le hnext
      obtain ⟨hnextHole, hnextAfter⟩ := mem_filter.mp hnextMem
      have heq : current = next := hs.eq_of_reaches hm hnextHole hmeets.2
        (Int32.lt_iff_toInt_lt.mp (of_decide_eq_true hnextAfter)) (hnextFirst current hafter)
      exact .inr ⟨heq ▸ hnext, hmeets⟩

theorem nodup_intersectingHoles : (intersectingHoles table peerId hole).Nodup := by
  unfold intersectingHoles
  refine (perm_insertionSort _ _).nodup_iff.mpr (nodup_append.mpr ⟨hs.nodup.filter _, ?_, ?_⟩)
  · generalize Option.filter _ _ = next
    cases next with
    | none => exact nodup_nil
    | some next => exact nodup_singleton next
  · -- the neighbour ends after the given hole, the others do not
    intro current hcur next hnext heq
    rw [Option.mem_toList, Option.filter_eq_some_iff] at hnext
    have hafter := of_decide_eq_true (mem_filter.mp (head_sortByMaxId_le hnext.1).1).2
    have hwithin := (mem_filter.mp hcur).2
    rw [Bool.and_eq_true, decide_eq_true_eq, decide_eq_true_eq, heq] at hwithin
    exact Int32.not_lt.mpr hwithin.2 hafter

theorem separated_intersectingHoles : holeIntervals.Separated (intersectingHoles table peerId hole) :=
  hs.of_nodup (nodup_intersectingHoles hs) fun _ hm => ((mem_intersectingHoles hs).mp hm).1

end

/-! ## What is left of a hole -/

theorem exclude_of_covers (h : hole.covers current = true) : current.exclude hole = [] := by
  simp only [MessageHole.covers, Bool.and_eq_true, decide_eq_true_eq, ge_iff_le] at h
  unfold MessageHole.exclude
  rw [if_pos h.1, if_neg (Int32.not_lt.mpr h.2)]

/-- The parts of a hole outside another one that it meets. -/
structure IsRest (current hole : MessageHole) (rest : List MessageHole) : Prop where
  separated : holeIntervals.Separated rest
  within : ∀ part ∈ rest,
    holeIntervals.lo current ≤ holeIntervals.lo part ∧ holeIntervals.hi part ≤ holeIntervals.hi current
  covered : ∀ x, x ∈ holeIntervals.covered rest ↔
    x ∈ holeIntervals.interval current ∧ x ∉ holeIntervals.interval hole

theorem isRest_exclude (hle : hole.minId ≤ hole.maxId) (hmeets : holeIntervals.Meets hole current) :
    IsRest current hole (current.exclude hole) := by
  obtain ⟨hmin, hmax⟩ := hmeets
  rw [Int32.le_iff_toInt_le] at hle
  simp only [lo_holeIntervals, hi_holeIntervals] at hmin hmax
  unfold MessageHole.exclude
  split
  case isTrue hleft =>
    have hleft' : hole.minId.toInt ≤ current.minId.toInt := Int32.le_iff_toInt_le.mp hleft
    split
    case isTrue hright =>
      have hright' : hole.maxId.toInt < current.maxId.toInt := Int32.lt_iff_toInt_lt.mp hright
      have hlo := toInt_add_one hright
      refine ⟨⟨?_, pairwise_singleton _ _⟩, ?_, fun x => ?_⟩
      · simp only [mem_singleton, forall_eq, lo_holeIntervals, hi_holeIntervals, hlo]
        omega
      · simp only [mem_singleton, forall_eq, lo_holeIntervals, hi_holeIntervals, hlo]
        omega
      · simp only [mem_covered, mem_singleton, exists_eq_left, mem_interval, lo_holeIntervals, hi_holeIntervals,
          hlo]
        omega
    case isFalse hright =>
      have hright' : current.maxId.toInt ≤ hole.maxId.toInt := Int32.le_iff_toInt_le.mp (Int32.not_lt.mp hright)
      refine ⟨⟨by simp, List.Pairwise.nil⟩, by simp, fun x => ?_⟩
      simp only [mem_covered, not_mem_nil, false_and, exists_false, false_iff, mem_interval, lo_holeIntervals,
        hi_holeIntervals]
      omega
  case isFalse hleft =>
    have hleft' : current.minId.toInt < hole.minId.toInt := Int32.lt_iff_toInt_lt.mp (Int32.not_le.mp hleft)
    have hhi := toInt_sub_one (Int32.not_le.mp hleft)
    split
    case isTrue hright =>
      have hright' : hole.maxId.toInt < current.maxId.toInt := Int32.lt_iff_toInt_lt.mp hright
      have hlo := toInt_add_one hright
      refine ⟨⟨?_, ?_⟩, ?_, fun x => ?_⟩
      · simp only [mem_cons, not_mem_nil, or_false, forall_eq_or_imp, forall_eq, lo_holeIntervals,
          hi_holeIntervals, hlo, hhi]
        omega
      · rw [pairwise_pair]
        simp only [Apart, lo_holeIntervals, hi_holeIntervals, hlo, hhi]
        omega
      · simp only [mem_cons, not_mem_nil, or_false, forall_eq_or_imp, forall_eq, lo_holeIntervals,
          hi_holeIntervals, hlo, hhi]
        omega
      · simp only [mem_covered, mem_cons, not_mem_nil, or_false, exists_eq_or_imp, exists_eq_left,
          mem_interval, lo_holeIntervals, hi_holeIntervals, hlo, hhi]
        omega
    case isFalse hright =>
      have hright' : current.maxId.toInt ≤ hole.maxId.toInt := Int32.le_iff_toInt_le.mp (Int32.not_lt.mp hright)
      refine ⟨⟨?_, pairwise_singleton _ _⟩, ?_, fun x => ?_⟩
      · simp only [mem_singleton, forall_eq, lo_holeIntervals, hi_holeIntervals, hhi]
        omega
      · simp only [mem_singleton, forall_eq, lo_holeIntervals, hi_holeIntervals, hhi]
        omega
      · simp only [mem_covered, mem_singleton, exists_eq_left, mem_interval, lo_holeIntervals, hi_holeIntervals,
          hhi]
        omega

/-! ## Runs of statements -/

@[simp] theorem HoleUpdate.table_delete (update : HoleUpdate) (peerId : Int64) (maxId : Int32) :
    (update.delete peerId maxId).table = update.table.delete peerId maxId := rfl

@[simp] theorem HoleUpdate.table_addMessages (update : HoleUpdate) (messages : List HoleMessage) :
    (update.addMessages messages).table = update.table := rfl

theorem holes_foldl_delete (holes : List MessageHole) (peerId : Int64) (update : HoleUpdate) :
    (holes.foldl (fun update current => update.delete peerId current.maxId) update).table.holes peerId =
      (update.table.holes peerId).filter fun hole => hole.maxId ∉ holes.map (·.maxId) := by
  induction holes generalizing update with
  | nil => simp
  | cons current holes ih =>
    rw [foldl_cons, ih, HoleUpdate.table_delete, HoleTable.holes_delete, filter_filter]
    apply filter_congr
    intro hole _
    by_cases h : hole.maxId = current.maxId
    · simp [h]
    · simp [h]

variable {update : HoleUpdate}

theorem holes_insert_of_separated (hs : holeIntervals.Separated (update.table.holes peerId ++ [hole])) :
    (update.insert peerId hole).table.holes peerId = update.table.holes peerId ++ [hole] ∧
      (update.insert peerId hole).insertedRows = update.insertedRows ++ [HoleUpdate.rowOf peerId hole] := by
  obtain ⟨hstor, hnew, hapart⟩ := separated_append.mp hs
  have hfresh : hole.maxId ∉ (update.table.holes peerId).map (·.maxId) := by
    intro hm
    obtain ⟨stored, hm, heq⟩ := mem_map.mp hm
    have hmax : holeIntervals.hi stored = holeIntervals.hi hole := congrArg Int32.toInt heq
    have hne := hstor.nonempty stored hm
    have hne' := hnew.nonempty hole (mem_singleton_self hole)
    rcases hapart stored hm hole (mem_singleton_self hole) with h | h
    · exact absurd (hmax ▸ h) (not_lt.mpr hne')
    · exact absurd (hmax ▸ h) (not_lt.mpr hne)
  refine ⟨(HoleTable.holes_insert (HoleUpdate.rowOf peerId hole) hfresh).2, ?_⟩
  have hkey : (HoleUpdate.rowOf peerId hole).key ∉ update.table.rows.map HoleRow.key := fun h =>
    hfresh (HoleTable.key_mem_iff.mp h)
  unfold HoleUpdate.insert
  rw [if_neg hkey]

theorem holes_foldl_insert (hs : holeIntervals.Separated (update.table.holes peerId ++ holes)) :
    (holes.foldl (fun update hole => update.insert peerId hole) update).table.holes peerId =
      update.table.holes peerId ++ holes := by
  induction holes generalizing update with
  | nil => simp
  | cons hole holes ih =>
    have hfirst : holeIntervals.Separated (update.table.holes peerId ++ [hole]) :=
      hs.sublist (List.Sublist.append_left (singleton_sublist.mpr mem_cons_self) _)
    obtain ⟨htable, -⟩ := holes_insert_of_separated hfirst
    have happend :
        update.table.holes peerId ++ hole :: holes = (update.insert peerId hole).table.holes peerId ++ holes := by
      rw [htable, append_assoc, singleton_append]
    rw [foldl_cons, ih (happend ▸ hs), htable, append_assoc, singleton_append]

/-! ## Filling a hole -/

/-- The holes that stay as they are when a hole is filled. -/
def untouchedHoles (table : HoleTable) (peerId : Int64) (hole : MessageHole) : List MessageHole :=
  (table.holes peerId).filter fun stored => stored.maxId ∉ (intersectingHoles table peerId hole).map (·.maxId)

def cutHoles (table : HoleTable) (peerId : Int64) (hole : MessageHole) : List MessageHole :=
  (intersectingHoles table peerId hole).flatMap fun current => current.exclude hole

theorem mem_untouchedHoles {stored : MessageHole} (hs : holeIntervals.Separated (table.holes peerId)) :
    stored ∈ untouchedHoles table peerId hole ↔ stored ∈ table.holes peerId ∧ holeIntervals.Apart hole stored := by
  rw [untouchedHoles, mem_filter, decide_eq_true_eq, apart_iff_not_meets, and_congr_right_iff]
  intro hm
  rw [not_iff_not, mem_map]
  constructor
  · rintro ⟨current, hcur, hmax⟩
    obtain ⟨hmem', hmeets⟩ := (mem_intersectingHoles hs).mp hcur
    have hhi : holeIntervals.hi current = holeIntervals.hi stored := congrArg Int32.toInt hmax
    have heq : current = stored := hs.eq_of_mem hmem' hm ⟨hs.nonempty current hmem', le_rfl⟩
      ⟨hhi ▸ hs.nonempty stored hm, hhi.le⟩
    exact heq ▸ hmeets
  · exact fun hmeets => ⟨stored, (mem_intersectingHoles hs).mpr ⟨hm, hmeets⟩, rfl⟩

section
variable {table : HoleTable} {peerId : Int64} {hole : MessageHole}

section
variable (hs : holeIntervals.Separated (table.holes peerId)) (hle : hole.minId ≤ hole.maxId)
include hs hle

theorem isRest_cut : ∀ current ∈ intersectingHoles table peerId hole, IsRest current hole (current.exclude hole) :=
  fun _ hm => isRest_exclude hle ((mem_intersectingHoles hs).mp hm).2

theorem separated_untouched_cut :
    holeIntervals.Separated (untouchedHoles table peerId hole ++ cutHoles table peerId hole) := by
  refine separated_append.mpr ⟨hs.sublist filter_sublist, ?_, fun stored hstor part hpart => ?_⟩
  · exact (separated_intersectingHoles hs).flatMap (fun current hm => (isRest_cut hs hle current hm).separated)
      fun current hm => (isRest_cut hs hle current hm).within
  · obtain ⟨hm, hapart⟩ := (mem_untouchedHoles hs).mp hstor
    obtain ⟨current, hcur, hpart⟩ := mem_flatMap.mp hpart
    obtain ⟨hmem', hmeets⟩ := (mem_intersectingHoles hs).mp hcur
    have hne : current ≠ stored := fun heq => apart_iff_not_meets.mp hapart (heq ▸ hmeets)
    obtain ⟨hlo, hhi⟩ := (isRest_cut hs hle current hcur).within part hpart
    exact ((hs.apart_of_ne hmem' hm hne).mono hlo hhi).symm

theorem covered_untouched_cut : holeIntervals.covered (untouchedHoles table peerId hole ++ cutHoles table peerId hole) =
      holeIntervals.covered (table.holes peerId) \ holeIntervals.interval hole := by
  ext x
  rw [covered_append, Set.mem_union, Set.mem_sdiff, mem_covered, mem_covered, mem_covered]
  constructor
  · rintro (⟨stored, hstor, hx⟩ | ⟨part, hpart, hx⟩)
    · obtain ⟨hm, hapart⟩ := (mem_untouchedHoles hs).mp hstor
      exact ⟨⟨stored, hm, hx⟩, Set.disjoint_right.mp hapart.disjoint hx⟩
    · obtain ⟨current, hcur, hpart⟩ := mem_flatMap.mp hpart
      obtain ⟨hx, hout⟩ := ((isRest_cut hs hle current hcur).covered x).mp ⟨part, hpart, hx⟩
      exact ⟨⟨current, ((mem_intersectingHoles hs).mp hcur).1, hx⟩, hout⟩
  · rintro ⟨⟨stored, hm, hx⟩, hout⟩
    by_cases hmeets : holeIntervals.Meets hole stored
    · have hcur := (mem_intersectingHoles hs).mpr ⟨hm, hmeets⟩
      obtain ⟨part, hpart, hx⟩ := ((isRest_cut hs hle stored hcur).covered x).mpr ⟨hx, hout⟩
      exact .inr ⟨part, mem_flatMap.mpr ⟨stored, hcur, hpart⟩, hx⟩
    · exact .inl ⟨stored, (mem_untouchedHoles hs).mpr ⟨hm, apart_iff_not_meets.mpr hmeets⟩, hx⟩

theorem holes_removeChannelHole : (removeChannelHole peerId hole (HoleUpdate.start table)).table.holes peerId =
      untouchedHoles table peerId hole ++ cutHoles table peerId hole := by
  have hcut : ((intersectingHoles table peerId hole).flatMap fun current =>
      if !hole.covers current then current.exclude hole else []) = cutHoles table peerId hole := by
    refine flatMap_congr fun current _ => ?_
    split
    · rfl
    case isFalse h => exact (exclude_of_covers (by simpa using h)).symm
  have huntouched : ((intersectingHoles table peerId hole).foldl (fun update current =>
      update.delete peerId current.maxId) (HoleUpdate.start table)).table.holes peerId =
        untouchedHoles table peerId hole := holes_foldl_delete _ _ _
  by_cases hnone : (intersectingHoles table peerId hole).length ≠ 0
  · have hrun : (removeChannelHole peerId hole (HoleUpdate.start table)).table =
        ((cutHoles table peerId hole).foldl (fun update addedHole => update.insert peerId addedHole)
          ((intersectingHoles table peerId hole).foldl (fun update current => update.delete peerId current.maxId)
            (HoleUpdate.start table))).table := by
      unfold removeChannelHole
      dsimp only [HoleUpdate.start]
      rw [if_pos hnone, hcut]
      rfl
    rw [hrun, holes_foldl_insert (by rw [huntouched]; exact separated_untouched_cut hs hle), huntouched]
  · have hempty : intersectingHoles table peerId hole = [] := length_eq_zero_iff.mp (not_not.mp hnone)
    have hrun : removeChannelHole peerId hole (HoleUpdate.start table) = HoleUpdate.start table := by
      unfold removeChannelHole
      exact if_neg hnone
    rw [hrun, untouchedHoles, cutHoles, hempty]
    simp [HoleUpdate.start]

end

end

/-- Filling a hole: the holes that remain are intervals without a common id, and cover what they covered before but for
the ids that were filled. -/
theorem removeChannelHole_covers (table : HoleTable) (peerId : Int64) (hole : MessageHole)
    (hvalid : HolesValid table peerId) (hle : hole.minId ≤ hole.maxId) :
    HolesValid (removeChannelHole peerId hole (HoleUpdate.start table)).table peerId ∧
      coveredIds ((removeChannelHole peerId hole (HoleUpdate.start table)).table.holes peerId) =
        coveredIds (table.holes peerId) \ hole.ids := by
  have hs := holesValid_iff.mp hvalid
  refine ⟨?_, ?_⟩
  · rw [holesValid_iff, holes_removeChannelHole hs hle]
    exact separated_untouched_cut hs hle
  · ext id
    rw [Set.mem_sdiff, mem_coveredIds, mem_coveredIds, mem_ids, holes_removeChannelHole hs hle,
      covered_untouched_cut hs hle, Set.mem_sdiff]

/-- The middle of one hole and the beginning of another. -/
theorem twoHoles_filled :
    let table : HoleTable :=
      ⟨[HoleUpdate.rowOf 7 ⟨1, 100, 10, 110⟩, HoleUpdate.rowOf 7 ⟨20, 120, 30, 130⟩], by decide⟩
    coveredIds ((removeChannelHole 7 ⟨4, 103, 24, 124⟩ (HoleUpdate.start table)).table.holes 7) =
      coveredIds (table.holes 7) \ MessageHole.ids ⟨4, 103, 24, 124⟩ :=
  (removeChannelHole_covers _ 7 ⟨4, 103, 24, 124⟩ (holesValid_iff.mpr ⟨by decide, by decide⟩) (by decide)).2

/-! ## Finding a hole -/

theorem mergeBounds_minId (bounds current : MessageHole) :
    (mergeBounds bounds current).minId = if current.minId < bounds.minId then current.minId else bounds.minId := by
  by_cases hmax : current.maxId > bounds.maxId <;> by_cases hmin : current.minId < bounds.minId <;>
    simp [mergeBounds, hmax, hmin]

theorem mergeBounds_maxId (bounds current : MessageHole) :
    (mergeBounds bounds current).maxId = if current.maxId > bounds.maxId then current.maxId else bounds.maxId := by
  by_cases hmax : current.maxId > bounds.maxId <;> by_cases hmin : current.minId < bounds.minId <;>
    simp [mergeBounds, hmax, hmin]

theorem ends_foldl_mergeBounds (holes : List MessageHole) (bounds : MessageHole) :
    (holeIntervals.lo (holes.foldl mergeBounds bounds), holeIntervals.hi (holes.foldl mergeBounds bounds)) =
      holeIntervals.hull holes (holeIntervals.lo bounds) (holeIntervals.hi bounds) := by
  induction holes generalizing bounds with
  | nil => rfl
  | cons current holes ih =>
    have hlo : holeIntervals.lo (mergeBounds bounds current) =
        min (holeIntervals.lo bounds) (holeIntervals.lo current) := by
      simp only [lo_holeIntervals, mergeBounds_minId, Int32.lt_iff_toInt_lt]
      split <;> omega
    have hhi : holeIntervals.hi (mergeBounds bounds current) =
        max (holeIntervals.hi bounds) (holeIntervals.hi current) := by
      simp only [hi_holeIntervals, mergeBounds_maxId, gt_iff_lt, Int32.lt_iff_toInt_lt]
      split <;> omega
    rw [foldl_cons, ih, hlo, hhi]
    rfl

def deleteRound (peerId : Int64) (hole : MessageHole) (update : HoleUpdate) : HoleUpdate :=
  (update.delete peerId hole.maxId).removeMessages (messageIdsFromHoles [hole])

theorem foldl_mergeStep (holes : List MessageHole) (peerId : Int64) (hole bounds : MessageHole) (update : HoleUpdate) :
    holes.foldl (mergeStep peerId hole) (bounds, update) =
      (holes.foldl mergeBounds bounds, holes.foldl (fun update _ => deleteRound peerId hole update) update) := by
  induction holes generalizing bounds update with
  | nil => rfl
  | cons current holes ih => exact ih _ _

/-- What the rounds of the loop do to the table and report of it. -/
structure Rounds (peerId : Int64) (hole : MessageHole) (n : Nat) (update update' : HoleUpdate) : Prop where
  rows : update'.table.rows = update.table.rows.filter fun row => row.key ≠ (peerId, hole.maxId)
  deletedRows : update'.deletedRows =
    update.deletedRows ++ update.table.rows.filter fun row => row.key = (peerId, hole.maxId)
  removedMessages : update'.removedMessages = update.removedMessages ++ List.replicate n (-hole.maxId)
  addedMessages : update'.addedMessages = update.addedMessages
  insertedRows : update'.insertedRows = update.insertedRows

theorem rounds_one (peerId : Int64) (hole : MessageHole) (update : HoleUpdate) :
    Rounds peerId hole 1 update (deleteRound peerId hole update) := ⟨rfl, rfl, rfl, rfl, rfl⟩

variable {n : Nat} {update' : HoleUpdate}

/-- Every round deletes the same key, so that only the first one finds something. -/
theorem Rounds.next (h : Rounds peerId hole n update update') :
    Rounds peerId hole (n + 1) update (deleteRound peerId hole update') := by
  obtain ⟨hrows, hdel, hrem, hadded, hins⟩ := h
  refine ⟨?_, ?_, ?_, hadded, hins⟩
  · simp [deleteRound, HoleUpdate.removeMessages, HoleUpdate.delete, HoleTable.delete, hrows]
  · simp [deleteRound, HoleUpdate.removeMessages, HoleUpdate.delete, hrows, hdel]
  · simp [deleteRound, HoleUpdate.removeMessages, HoleUpdate.delete, messageIdsFromHoles, hrem,
      replicate_succ']

theorem Rounds.rounds (h : Rounds peerId hole n update update') (holes : List MessageHole) :
    Rounds peerId hole (n + holes.length) update
      (holes.foldl (fun update _ => deleteRound peerId hole update) update') := by
  induction holes generalizing n update' with
  | nil => exact h
  | cons current holes ih =>
    rw [length_cons, Nat.add_comm holes.length, ← Nat.add_assoc]
    exact ih h.next

theorem rounds_of_ne_nil (hne : holes ≠ []) (peerId : Int64) (hole : MessageHole) (update : HoleUpdate) :
    Rounds peerId hole holes.length update (holes.foldl (fun update _ => deleteRound peerId hole update) update) := by
  cases holes with
  | nil => exact absurd rfl hne
  | cons current holes =>
    rw [length_cons, Nat.add_comm]
    exact (rounds_one peerId hole update).rounds holes

theorem eq_singleton_of_mem {α : Type} {as : List α} {a : α} (hlen : as.length ≤ 1) (hm : a ∈ as) : as = [a] := by
  obtain ⟨b, rfl⟩ := length_eq_one_iff.mp (le_antisymm hlen (length_pos_of_mem hm))
  rw [mem_singleton.mp hm]

theorem HoleTable.length_filter_key_le (table : HoleTable) (key : Int64 × Int32) :
    (table.rows.filter fun row => row.key = key).length ≤ 1 := by
  have hnd : ((table.rows.filter fun row => row.key = key).map HoleRow.key).Nodup :=
    table.primaryKey.sublist (filter_sublist.map _)
  have hall : (table.rows.filter fun row => row.key = key).map HoleRow.key =
      List.replicate (table.rows.filter fun row => row.key = key).length key := by
    rw [eq_replicate_iff, length_map]
    refine ⟨rfl, fun key' hkey' => ?_⟩
    obtain ⟨row, hrow, rfl⟩ := mem_map.mp hkey'
    exact of_decide_eq_true (mem_filter.mp hrow).2
  rw [hall, nodup_replicate] at hnd
  exact hnd

/-- Finding a hole: the holes still have no common id, they cover the new ids too, and the placeholders that are
reported are those of the rows that went and came. -/
structure AddsHole (table : HoleTable) (peerId : Int64) (hole : MessageHole) (after : HoleUpdate) : Prop where
  disjoint : (after.table.holes peerId).Pairwise fun stored other => Disjoint stored.ids other.ids
  covered : coveredIds (after.table.holes peerId) = coveredIds (table.holes peerId) ∪ hole.ids
  removed : after.removedMessages.Perm (messageIdsFromHoles (after.deletedRows.map (·.hole)))
  added : after.addedMessages.Perm (messagesFromHoles (after.insertedRows.map (·.hole)) peerId)

section
variable {table : HoleTable} {peerId : Int64} {hole : MessageHole}

section
variable (hs : holeIntervals.Separated (table.holes peerId)) (hle : hole.minId ≤ hole.maxId)
include hs hle

theorem mem_updatedHole (x : Int) :
    x ∈ holeIntervals.interval ((intersectingHoles table peerId hole).foldl mergeBounds hole) ↔
      x ∈ holeIntervals.interval hole ∨ x ∈ holeIntervals.covered (intersectingHoles table peerId hole) := by
  obtain ⟨hlo, hhi⟩ := Prod.ext_iff.mp (ends_foldl_mergeBounds (intersectingHoles table peerId hole) hole)
  rw [mem_interval, mem_interval]
  dsimp only at hlo hhi
  rw [hlo, hhi]
  exact mem_hull (Int32.le_iff_toInt_le.mp hle) (separated_intersectingHoles hs).nonempty fun current hm =>
    ((mem_intersectingHoles hs).mp hm).2

theorem meets_of_maxId_eq {stored : MessageHole} (hm : stored ∈ table.holes peerId)
    (hmax : stored.maxId = hole.maxId) : holeIntervals.Meets hole stored := by
  have hhi : holeIntervals.hi stored = holeIntervals.hi hole := congrArg Int32.toInt hmax
  exact ⟨hhi ▸ Int32.le_iff_toInt_le.mp hle, hhi ▸ hs.nonempty stored hm⟩

theorem addsHole_of_none (hnone : intersectingHoles table peerId hole = []) :
    AddsHole table peerId hole (addChannelHole peerId hole (HoleUpdate.start table)) := by
  have hrun : addChannelHole peerId hole (HoleUpdate.start table) =
      ((HoleUpdate.start table).insert peerId hole).addMessages (messagesFromHoles [hole] peerId) := by
    unfold addChannelHole
    exact if_pos (by rw [HoleUpdate.start, hnone]; rfl)
  have hnew : holeIntervals.Separated ((HoleUpdate.start table).table.holes peerId ++ [hole]) := by
    refine separated_append.mpr ⟨hs, ⟨?_, pairwise_singleton _ _⟩, fun stored hm other hother => ?_⟩
    · simpa using Int32.le_iff_toInt_le.mp hle
    · rw [mem_singleton.mp hother]
      refine Apart.symm (apart_iff_not_meets.mpr fun hmeets => ?_)
      exact not_mem_nil (hnone ▸ (mem_intersectingHoles hs).mpr ⟨hm, hmeets⟩)
  obtain ⟨hholes, hins⟩ := holes_insert_of_separated hnew
  rw [hrun]
  refine ⟨?_, ?_, List.Perm.nil, ?_⟩
  · rw [HoleUpdate.table_addMessages, hholes]
    exact (pairwise_disjoint_iff fun h hm => Int32.le_iff_toInt_le.mpr (hnew.nonempty h hm)).mpr hnew.apart
  · rw [HoleUpdate.table_addMessages, hholes]
    ext id
    simp only [mem_coveredIds, Set.mem_union, mem_ids, HoleUpdate.start, covered_append]
    simp [mem_covered]
  · show List.Perm _ (messagesFromHoles ((HoleUpdate.insert _ _ _).insertedRows.map (·.hole)) peerId)
    rw [hins]
    exact List.Perm.refl _

theorem separated_untouched_updated : holeIntervals.Separated (untouchedHoles table peerId hole ++
      [(intersectingHoles table peerId hole).foldl mergeBounds hole]) := by
  have hm : ∀ x, x ∈ holeIntervals.interval ((intersectingHoles table peerId hole).foldl mergeBounds hole) ↔ _ :=
    mem_updatedHole hs hle
  generalize (intersectingHoles table peerId hole).foldl mergeBounds hole = updatedHole at hm ⊢
  have hin := (hm (holeIntervals.lo hole)).mpr (.inl ⟨le_rfl, Int32.le_iff_toInt_le.mp hle⟩)
  have hne : holeIntervals.lo updatedHole ≤ holeIntervals.hi updatedHole := hin.1.trans hin.2
  refine separated_append.mpr ⟨hs.sublist filter_sublist, ⟨?_, pairwise_singleton _ _⟩, ?_⟩
  · simpa using hne
  · intro stored hstor other hother
    rw [mem_singleton.mp hother, apart_iff_not_meets]
    intro hmeets
    obtain ⟨hstoredMem, hapart⟩ := (mem_untouchedHoles hs).mp hstor
    obtain ⟨hx, hx'⟩ := hmeets.max_lo_mem (hs.nonempty stored hstoredMem) hne
    rcases (hm _).mp hx' with hx' | ⟨current, hcur, hx'⟩
    · exact Set.disjoint_left.mp hapart.disjoint hx' hx
    · obtain ⟨hcurrentMem, hcurrentMeets⟩ := (mem_intersectingHoles hs).mp hcur
      exact apart_iff_not_meets.mp hapart (hs.eq_of_mem hcurrentMem hstoredMem hx' hx ▸ hcurrentMeets)

theorem covered_untouched_updated : holeIntervals.covered (untouchedHoles table peerId hole ++
      [(intersectingHoles table peerId hole).foldl mergeBounds hole]) =
        holeIntervals.covered (table.holes peerId) ∪ holeIntervals.interval hole := by
  ext x
  have hupd : x ∈ holeIntervals.covered [(intersectingHoles table peerId hole).foldl mergeBounds hole] ↔
      x ∈ holeIntervals.interval hole ∨ x ∈ holeIntervals.covered (intersectingHoles table peerId hole) := by
    rw [← mem_updatedHole hs hle]
    simp [mem_covered]
  rw [covered_append, Set.mem_union, Set.mem_union, hupd]
  constructor
  · rintro (⟨stored, hstor, hx⟩ | hx | ⟨current, hcur, hx⟩)
    · exact .inl ⟨stored, ((mem_untouchedHoles hs).mp hstor).1, hx⟩
    · exact .inr hx
    · exact .inl ⟨current, ((mem_intersectingHoles hs).mp hcur).1, hx⟩
  · rintro (⟨stored, hm, hx⟩ | hx)
    · by_cases hmeets : holeIntervals.Meets hole stored
      · exact .inr (.inr ⟨stored, (mem_intersectingHoles hs).mpr ⟨hm, hmeets⟩, hx⟩)
      · exact .inl ⟨stored, (mem_untouchedHoles hs).mpr ⟨hm, apart_iff_not_meets.mpr hmeets⟩, hx⟩
    · exact .inr (.inl hx)

theorem addsHole_of_single (hone : intersectingHoles table peerId hole = [current])
    (hmax : current.maxId = hole.maxId) :
    AddsHole table peerId hole (addChannelHole peerId hole (HoleUpdate.start table)) := by
  set updatedHole := (intersectingHoles table peerId hole).foldl mergeBounds hole with hupd
  set rounds := (intersectingHoles table peerId hole).foldl (fun update _ => deleteRound peerId hole update)
    (HoleUpdate.start table) with hrounds
  have hrun : addChannelHole peerId hole (HoleUpdate.start table) =
      (rounds.addMessages (messagesFromHoles [updatedHole] peerId)).insert peerId updatedHole := by
    unfold addChannelHole
    dsimp only [HoleUpdate.start] at hrounds ⊢
    rw [if_neg (by rw [hone]; exact one_ne_zero), foldl_mergeStep, hupd, hrounds]
  obtain ⟨hrows, hdel, hrem, hadded, hins⟩ := rounds_of_ne_nil (hone ▸ cons_ne_nil _ _ :
    intersectingHoles table peerId hole ≠ []) peerId hole (HoleUpdate.start table)
  rw [← hrounds] at hrows hdel hrem hadded hins
  have huntouched : rounds.table.holes peerId = untouchedHoles table peerId hole := by
    have hholes : rounds.table.holes peerId = (table.delete peerId hole.maxId).holes peerId := by
      unfold HoleTable.holes
      rw [hrows]
      rfl
    rw [hholes, HoleTable.holes_delete, untouchedHoles, hone]
    simp [hmax]
  have hsep : holeIntervals.Separated
      ((rounds.addMessages (messagesFromHoles [updatedHole] peerId)).table.holes peerId ++ [updatedHole]) := by
    rw [HoleUpdate.table_addMessages, huntouched]
    exact separated_untouched_updated hs hle
  obtain ⟨hholes, hinsertedRow⟩ := holes_insert_of_separated hsep
  rw [HoleUpdate.table_addMessages, huntouched] at hsep hholes
  obtain ⟨hcurrentMem, hmeets⟩ := (mem_intersectingHoles hs).mp (hone ▸ mem_singleton_self current)
  rw [hrun]
  refine ⟨?_, ?_, ?_, ?_⟩
  · rw [hholes]
    exact (pairwise_disjoint_iff fun h hm => Int32.le_iff_toInt_le.mpr (hsep.nonempty h hm)).mpr hsep.apart
  · rw [hholes]
    ext id
    rw [Set.mem_union, mem_coveredIds, mem_coveredIds, mem_ids, hupd, covered_untouched_updated hs hle,
      Set.mem_union]
  · show List.Perm rounds.removedMessages (messageIdsFromHoles (rounds.deletedRows.map (·.hole)))
    obtain ⟨row, hrow, hcid, hrowHole⟩ := HoleTable.mem_holes.mp hcurrentMem
    have hkeyRow : row ∈ table.rows.filter fun row => row.key = (peerId, hole.maxId) :=
      mem_filter.mpr ⟨hrow, decide_eq_true (by rw [HoleRow.key, hcid, hrowHole, hmax])⟩
    have hrowsOne : (table.rows.filter fun row => row.key = (peerId, hole.maxId)) = [row] :=
      eq_singleton_of_mem (table.length_filter_key_le _) hkeyRow
    rw [hrem, hdel]
    simp only [HoleUpdate.start, nil_append, hrowsOne, hone, length_singleton, map_singleton, hrowHole,
      messageIdsFromHoles, hmax]
    exact List.Perm.refl _
  · rw [hinsertedRow]
    show List.Perm (rounds.addedMessages ++ _) (messagesFromHoles ((rounds.insertedRows ++ _).map (·.hole)) peerId)
    rw [hadded, hins]
    exact List.Perm.refl _

end

theorem length_reports (hsome : intersectingHoles table peerId hole ≠ []) :
    (addChannelHole peerId hole (HoleUpdate.start table)).removedMessages.length =
        (intersectingHoles table peerId hole).length ∧
      (addChannelHole peerId hole (HoleUpdate.start table)).deletedRows =
        table.rows.filter fun row => row.key = (peerId, hole.maxId) := by
  obtain ⟨-, hdel, hrem, -, -⟩ := rounds_of_ne_nil hsome peerId hole (HoleUpdate.start table)
  have hlen : ¬(intersectingHoles (HoleUpdate.start table).table peerId hole).length = 0 := fun h =>
    hsome (length_eq_zero_iff.mp h)
  unfold addChannelHole
  rw [if_neg hlen, foldl_mergeStep]
  constructor
  · refine (congrArg List.length hrem).trans ?_
    simp [HoleUpdate.start]
  · exact hdel

end

/-- Finding a hole adds it as it should when, and only when, the stored holes that it meets end where it ends. -/
theorem addChannelHole_addsHole_iff (table : HoleTable) (peerId : Int64) (hole : MessageHole)
    (hvalid : HolesValid table peerId) (hle : hole.minId ≤ hole.maxId) :
    AddsHole table peerId hole (addChannelHole peerId hole (HoleUpdate.start table)) ↔
      ∀ stored ∈ table.holes peerId, hole.intersects stored = true → stored.maxId = hole.maxId := by
  have hs := holesValid_iff.mp hvalid
  constructor
  · intro hadds stored hmem hintersects
    have hstored := (mem_intersectingHoles hs).mpr ⟨hmem, intersects_iff.mp hintersects⟩
    obtain ⟨hreported, hdeleted⟩ := length_reports (ne_nil_of_mem hstored)
    -- as many rows are gone as holes were found, and so one hole was found and it is the one that is gone
    have hcount : (intersectingHoles table peerId hole).length =
        (table.rows.filter fun row => row.key = (peerId, hole.maxId)).length := by
      rw [← hreported, ← hdeleted, hadds.removed.length_eq]
      simp [messageIdsFromHoles]
    have hpos := length_pos_of_mem hstored
    have hle1 := table.length_filter_key_le (peerId, hole.maxId)
    obtain ⟨row, hrow⟩ := exists_mem_of_length_pos (hcount ▸ hpos)
    obtain ⟨hrowMem, hkey⟩ := mem_filter.mp hrow
    obtain ⟨hcid, hmax⟩ := Prod.mk.inj (of_decide_eq_true hkey)
    have hrowHole : row.hole ∈ table.holes peerId := HoleTable.mem_holes.mpr ⟨row, hrowMem, hcid, rfl⟩
    have hfound := (mem_intersectingHoles hs).mpr ⟨hrowHole, meets_of_maxId_eq hs hle hrowHole hmax⟩
    have hone := eq_singleton_of_mem (hcount ▸ hle1) hfound
    have heq : stored = row.hole := mem_singleton.mp (hone ▸ hstored)
    rw [heq, hmax]
  · intro hcondition
    rcases hfound : intersectingHoles table peerId hole with _ | ⟨current, others⟩
    · exact addsHole_of_none hs hle hfound
    · have hsep : holeIntervals.Separated (intersectingHoles table peerId hole) := separated_intersectingHoles hs
      have hends : ∀ other ∈ intersectingHoles table peerId hole, other.maxId = hole.maxId := fun other hother =>
        hcondition other ((mem_intersectingHoles hs).mp hother).1
          (intersects_iff.mpr ((mem_intersectingHoles hs).mp hother).2)
      rw [hfound] at hsep hends
      have hmax := hends current mem_cons_self
      cases others with
      | nil => exact addsHole_of_single hs hle hfound hmax
      | cons other others =>
          -- two holes that end at the same id would be one
          have hmem : other ∈ current :: other :: others := mem_cons_of_mem _ mem_cons_self
          have hhi : holeIntervals.hi current = holeIntervals.hi other :=
            congrArg Int32.toInt (hmax.trans (hends other hmem).symm)
          have heq : current = other := hsep.eq_of_mem mem_cons_self hmem
            ⟨hsep.nonempty current mem_cons_self, le_rfl⟩ ⟨hhi ▸ hsep.nonempty other hmem, hhi.le⟩
          exact absurd (heq ▸ mem_cons_self) (nodup_cons.mp hsep.nodup).1

/-- A new hole above the upper end of a stored one: the stored row stays, and the two overlap. -/
theorem overlappingHoles_stay :
    let table : HoleTable := ⟨[HoleUpdate.rowOf 7 ⟨1, 100, 10, 110⟩], by decide⟩
    HolesValid table 7 ∧
      ((addChannelHole 7 ⟨5, 105, 20, 120⟩ (HoleUpdate.start table)).table.holes 7).map
          (fun stored => (stored.minId, stored.maxId)) = [(1, 10), (1, 20)] ∧
      (addChannelHole 7 ⟨5, 105, 20, 120⟩ (HoleUpdate.start table)).removedMessages = [-20] ∧
      ¬AddsHole table 7 ⟨5, 105, 20, 120⟩ (addChannelHole 7 ⟨5, 105, 20, 120⟩ (HoleUpdate.start table)) := by
  refine ⟨holesValid_iff.mpr ⟨by decide, by decide⟩, by decide, by decide, fun h => ?_⟩
  have hlength := h.removed.length_eq
  revert hlength
  decide

/-- A stored hole that ends with the new one is replaced by the longer of the two. -/
theorem addChannelHole_addsHole_sameEnd :
    let table : HoleTable := ⟨[HoleUpdate.rowOf 7 ⟨8, 108, 20, 120⟩], by decide⟩
    AddsHole table 7 ⟨5, 105, 20, 120⟩ (addChannelHole 7 ⟨5, 105, 20, 120⟩ (HoleUpdate.start table)) :=
  (addChannelHole_addsHole_iff _ 7 ⟨5, 105, 20, 120⟩ (holesValid_iff.mpr ⟨by decide, by decide⟩) (by decide)).mpr
    (by decide)

end TelegramClient.Database
