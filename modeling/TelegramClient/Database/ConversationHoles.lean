import Mathlib.Order.Interval.Finset.Nat
import TelegramClient.Lib.Bytes

/-!
# The history holes of a conversation

The ids of messages of a conversation that are known to be missing are kept in the index set of a row. Between messages that are
loaded and older ones that were stored before, all ids are such holes.

* `indexRange`, `addConversationHistoryHole`, `addConversationHistoryHoleToLoadedLaterMessages`,
  `conversationContainsHole` : the methods, with ranges of a location and a length made of two ids;
* `marksGap_iff` : **this is so when the last id of the gap, and of the interval, is not the only one in question**.
-/

namespace TelegramClient.Database
open Int32 (lt_iff_toInt_lt maxValue ofInt toInt_inj)

/-! ## The methods -/

/-- The indices of `NSMakeRange(location, length)`. A range with a negative bound, as `NSUInteger`, is an exception. -/
def indexRange (location length : Int32) : Option (Finset ℕ) :=
  if length = 0 then some ∅
  else if location < 0 ∨ length < 0 then none
  else some (Finset.Ico location.toInt.toNat (location.toInt + length.toInt).toNat)

/-- With no row, nil is copied to an empty set. -/
def addConversationHistoryHole (holes : Option (Finset ℕ)) (minMessageId maxMessageId : Int32) :
    Option (Option (Finset ℕ)) :=
  (indexRange minMessageId (maxMessageId - minMessageId)).map fun range => some (holes.getD ∅ ∪ range)

/-- `SELECT MIN(mid) ... WHERE mid > maxMessageId`. -/
def nextStored (mids : List Int32) (maxMessageId : Int32) : Option Int :=
  ((mids.filter fun mid => mid > maxMessageId).map Int32.toInt).min?

/-- `addConversationHistoryHoleToLoadedLaterMessages:maxMessageId:`. There is a row in any case, and `NULL` is 0. -/
def addConversationHistoryHoleToLoadedLaterMessages (holes : Option (Finset ℕ)) (mids : List Int32)
    (maxMessageId : Int32) : Option (Option (Finset ℕ)) :=
  let nextMessage := ofInt ((nextStored mids maxMessageId).getD 0)
  if nextMessage - 1 > maxMessageId + 1 then addConversationHistoryHole holes (maxMessageId + 1) (nextMessage - 1)
  else some holes

/-- With no row, nil is asked. -/
def conversationContainsHole (holes : Option (Finset ℕ)) (minMessageId maxMessageId : Int32) : Option Bool :=
  match holes with
  | none => some false
  | some holes =>
    (indexRange minMessageId (maxMessageId - minMessageId)).map fun range => decide (holes ∩ range).Nonempty

/-! ## What they are for -/

def holeIds (holes : Option (Finset ℕ)) : Finset ℤ := (holes.getD ∅).map ⟨fun i : ℕ => (i : ℤ), Int.ofNat_injective⟩

def idsBetween (low high : ℤ) : Finset ℤ :=
  (Finset.range (high - low - 1).toNat).map ⟨fun i : ℕ => low + 1 + (i : ℤ), fun i j h => by dsimp only at h; omega⟩

theorem mem_idsBetween {low high id : ℤ} : id ∈ idsBetween low high ↔ low < id ∧ id < high := by
  unfold idsBetween
  simp only [Finset.mem_map, Finset.mem_range]
  constructor
  · rintro ⟨i, hi, rfl⟩
    show low < low + 1 + (i : ℤ) ∧ low + 1 + (i : ℤ) < high
    omega
  · intro ⟨hlow, hhigh⟩
    exact ⟨(id - low - 1).toNat, by omega, show low + 1 + ((id - low - 1).toNat : ℤ) = id by omega⟩

/-- The ids strictly between a message and the next one that is stored. -/
def gap (mids : List Int32) (maxMessageId : Int32) : Finset ℤ :=
  match nextStored mids maxMessageId with
  | none => ∅
  | some next => idsBetween maxMessageId.toInt next

structure IdInterval where
  minMessageId : Int32
  maxMessageId : Int32
  le : minMessageId ≤ maxMessageId

def IdInterval.Meets (interval : IdInterval) (ids : Finset ℤ) : Prop :=
  ∃ id ∈ ids, interval.minMessageId.toInt ≤ id ∧ id ≤ interval.maxMessageId.toInt

instance (interval : IdInterval) (ids : Finset ℤ) : Decidable (interval.Meets ids) := inferInstanceAs (Decidable (∃ id ∈ ids, _))

/-- The gap is added to the holes, and then `conversationContainsHole` is right about an interval. -/
def MarksGap (holes : Option (Finset ℕ)) (mids : List Int32) (maxMessageId : Int32) (interval : IdInterval) : Prop :=
  ∃ holes', addConversationHistoryHoleToLoadedLaterMessages holes mids maxMessageId = some holes' ∧
    holeIds holes' = holeIds holes ∪ gap mids maxMessageId ∧
    conversationContainsHole holes' interval.minMessageId interval.maxMessageId = some (decide (interval.Meets (holeIds holes')))

/-- There is no gap, or its last id was a hole before. With no later message, the next one seems to be 0. -/
def LastKnown (holes : Option (Finset ℕ)) (mids : List Int32) (maxMessageId : Int32) : Prop :=
  match nextStored mids maxMessageId with
  | none => -2 ≤ maxMessageId.toInt ∧ maxMessageId < maxValue
  | some next => next = maxMessageId.toInt + 1 ∨ -1 ≤ maxMessageId.toInt ∧ next - 1 ∈ holeIds holes

/-- The upper end of an interval is no id, or not the only one. The range of the interval is an exception for a row. -/
def LastNotAlone (hasRow : Bool) (ids : Finset ℤ) (interval : IdInterval) : Prop :=
  (hasRow = true → interval.minMessageId = interval.maxMessageId ∨ 0 ≤ interval.minMessageId) ∧
    (interval.maxMessageId.toInt ∈ ids →
      ∃ id ∈ ids, interval.minMessageId.toInt ≤ id ∧ id < interval.maxMessageId.toInt)

/-! ## Ranges -/

theorem mem_holeIds {holes : Option (Finset ℕ)} {id : ℤ} : id ∈ holeIds holes ↔ 0 ≤ id ∧ id.toNat ∈ holes.getD ∅ := by
  rw [holeIds, Finset.mem_map]
  constructor
  · rintro ⟨n, hn, rfl⟩
    exact ⟨Int.natCast_nonneg n, by simpa using hn⟩
  · intro ⟨hid, hm⟩
    exact ⟨id.toNat, hm, Int.toNat_of_nonneg hid⟩

theorem indexRange_sub {a b : Int32} (h : a < b) :
    indexRange a (b - a) = if 0 ≤ a.toInt then some (Finset.Ico a.toInt.toNat b.toInt.toNat) else none := by
  have hlt : a.toInt < b.toInt := lt_iff_toInt_lt.mp h
  have ha := a.le_toInt
  have hb := b.toInt_lt
  have hne : b - a ≠ 0 := by
    intro heq
    have hba : b = a := by rw [← Int32.sub_add_cancel b a, heq, Int32.zero_add]
    rw [hba] at hlt
    exact lt_irrefl _ hlt
  unfold indexRange
  rw [if_neg hne]
  by_cases hnonneg : 0 ≤ a.toInt
  · have hlen : (b - a).toInt = b.toInt - a.toInt := by
      rw [Int32.toInt_sub, Int.bmod_eq_of_le (by omega) (by omega)]
    have hrange : ¬(a < 0 ∨ b - a < 0) := by
      rw [lt_iff_toInt_lt, lt_iff_toInt_lt, hlen, show (0 : Int32).toInt = 0 from rfl]
      omega
    rw [if_neg hrange, if_pos hnonneg, hlen, add_sub_cancel]
  · have hneg : a < 0 := by
      rw [lt_iff_toInt_lt, show (0 : Int32).toInt = 0 from rfl]
      omega
    rw [if_pos (.inl hneg), if_neg hnonneg]

theorem indexRange_self (a : Int32) : indexRange a (a - a) = some ∅ := by
  rw [Int32.sub_self]
  rfl

/-! ## The gap -/

variable {mids : List Int32} {maxMessageId : Int32}

theorem nextStored_eq_some {next : Int} (h : nextStored mids maxMessageId = some next) :
    ∃ mid ∈ mids, maxMessageId < mid ∧ mid.toInt = next := by
  obtain ⟨mid, hmid, heq⟩ := List.mem_map.mp (List.min?_mem h)
  obtain ⟨hm, hlt⟩ := List.mem_filter.mp hmid
  exact ⟨mid, hm, of_decide_eq_true hlt, heq⟩

variable (holes : Option (Finset ℕ))

theorem addHole_none (h : nextStored mids maxMessageId = none) :
    addConversationHistoryHoleToLoadedLaterMessages holes mids maxMessageId =
      if -2 ≤ maxMessageId.toInt ∧ maxMessageId < maxValue then some holes else none := by
  have hnext : ofInt ((nextStored mids maxMessageId).getD 0) - 1 = -1 := by
    rw [h]
    rfl
  unfold addConversationHistoryHoleToLoadedLaterMessages
  dsimp only
  rw [hnext]
  by_cases hmax : maxMessageId < maxValue
  · have hsucc := toInt_add_one hmax
    have hguard : maxMessageId + 1 < -1 ↔ maxMessageId.toInt + 1 < -1 := by
      rw [lt_iff_toInt_lt, hsucc]
      rfl
    by_cases hlow : -2 ≤ maxMessageId.toInt
    · have hnot : ¬maxMessageId + 1 < -1 := by
        rw [hguard]
        omega
      rw [if_neg hnot, if_pos ⟨hlow, hmax⟩]
    · have hlt : maxMessageId + 1 < -1 := hguard.mpr (by omega)
      rw [if_pos hlt, if_neg fun h => hlow h.1, addConversationHistoryHole, indexRange_sub hlt, if_neg (by omega)]
      rfl
  · have heq : maxMessageId = maxValue := by
      apply toInt_inj.mp
      have hle := maxMessageId.toInt_lt
      rw [lt_iff_toInt_lt, show maxValue.toInt = 2 ^ 31 - 1 from rfl] at hmax
      rw [show maxValue.toInt = 2 ^ 31 - 1 from rfl]
      omega
    rw [heq]
    rfl

theorem addHole_some {next : Int} (h : nextStored mids maxMessageId = some next) :
    addConversationHistoryHoleToLoadedLaterMessages holes mids maxMessageId =
      if next ≤ maxMessageId.toInt + 2 then some holes
      else if -1 ≤ maxMessageId.toInt then
        some (some (holes.getD ∅ ∪ Finset.Ico (maxMessageId.toInt + 1).toNat (next - 1).toNat))
      else none := by
  obtain ⟨mid, -, hlt, rfl⟩ := nextStored_eq_some h
  have hsucc := toInt_add_one hlt
  have hpred := toInt_sub_one hlt
  have hguard : maxMessageId + 1 < mid - 1 ↔ maxMessageId.toInt + 1 < mid.toInt - 1 := by
    rw [lt_iff_toInt_lt, hsucc, hpred]
  unfold addConversationHistoryHoleToLoadedLaterMessages
  dsimp only
  rw [h, Option.getD_some, Int32.ofInt_toInt]
  by_cases hclose : mid.toInt ≤ maxMessageId.toInt + 2
  · have hnot : ¬maxMessageId + 1 < mid - 1 := by
      rw [hguard]
      omega
    rw [if_neg hnot, if_pos hclose]
  · have hlt' : maxMessageId + 1 < mid - 1 := hguard.mpr (by omega)
    rw [if_pos hlt', if_neg hclose, addConversationHistoryHole, indexRange_sub hlt', hsucc, hpred]
    by_cases hlow : -1 ≤ maxMessageId.toInt
    · rw [if_pos (by omega), if_pos hlow]
      rfl
    · rw [if_neg (by omega), if_neg hlow]
      rfl

theorem holeIds_eq_union_iff {holes : Option (Finset ℕ)} {low high : Int} (hlow : low < high) (hhigh : high ≤ low + 2) :
    holeIds holes = holeIds holes ∪ idsBetween low high ↔ high = low + 1 ∨ -1 ≤ low ∧ high - 1 ∈ holeIds holes := by
  rw [eq_comm, Finset.union_eq_left]
  constructor
  · intro hsub
    by_cases hnext : high = low + 1
    · exact .inl hnext
    · have hm := hsub (mem_idsBetween.mpr ⟨by omega, by omega⟩ : high - 1 ∈ idsBetween low high)
      have := (mem_holeIds.mp hm).1
      exact .inr ⟨by omega, hm⟩
  · intro hknown id hid
    rw [mem_idsBetween] at hid
    rcases hknown with hnext | ⟨-, hm⟩
    · omega
    · rwa [show id = high - 1 by omega]

theorem holeIds_union_Ico_iff {holes : Option (Finset ℕ)} {low high : Int} (hlow : -1 ≤ low) (hhigh : low + 2 < high) :
    holeIds (some (holes.getD ∅ ∪ Finset.Ico (low + 1).toNat (high - 1).toNat)) = holeIds holes ∪ idsBetween low high ↔
      high - 1 ∈ holeIds holes := by
  have hadded (id : Int) : id ∈ holeIds (some (holes.getD ∅ ∪ Finset.Ico (low + 1).toNat (high - 1).toNat)) ↔
      id ∈ holeIds holes ∨ low < id ∧ id < high - 1 := by
    rw [mem_holeIds, mem_holeIds, Option.getD_some, Finset.mem_union, Finset.mem_Ico, and_or_left]
    refine or_congr Iff.rfl ?_
    omega
  rw [Finset.ext_iff]
  constructor
  · intro hids
    have hm := (hids (high - 1)).mpr (Finset.mem_union_right _ (mem_idsBetween.mpr ⟨by omega, by omega⟩))
    exact ((hadded _).mp hm).resolve_right fun h => lt_irrefl _ h.2
  · intro hm id
    rw [hadded, Finset.mem_union, mem_idsBetween]
    by_cases hid : id = high - 1
    · rw [hid]
      exact iff_of_true (.inl hm) (.inl hm)
    · refine or_congr Iff.rfl ?_
      omega

/-- **The gap is added** exactly when its last id is known. -/
theorem addsGap_iff (mids : List Int32) (maxMessageId : Int32) :
    (∃ holes', addConversationHistoryHoleToLoadedLaterMessages holes mids maxMessageId = some holes' ∧
        holeIds holes' = holeIds holes ∪ gap mids maxMessageId) ↔ LastKnown holes mids maxMessageId := by
  unfold LastKnown gap
  cases h : nextStored mids maxMessageId with
  | none =>
    rw [addHole_none holes h]
    split_ifs with hin
    · exact iff_of_true ⟨holes, rfl, (Finset.union_empty _).symm⟩ hin
    · exact iff_of_false (by simp) hin
  | some next =>
    obtain ⟨mid, -, hlt, rfl⟩ := nextStored_eq_some h
    rw [lt_iff_toInt_lt] at hlt
    rw [addHole_some holes h]
    dsimp only
    split_ifs with hclose hlow
    · simp only [Option.some.injEq, exists_eq_left']
      exact holeIds_eq_union_iff hlt hclose
    · simp only [Option.some.injEq, exists_eq_left']
      rw [holeIds_union_Ico_iff hlow (by omega)]
      exact ⟨fun hm => .inr ⟨hlow, hm⟩, fun hknown => hknown.elim (fun hnext => by omega) And.right⟩
    · refine iff_of_false (by simp) ?_
      omega

theorem hasRow_of_lastKnown {mids : List Int32} {maxMessageId : Int32} (hknown : LastKnown holes mids maxMessageId)
    {holes' : Option (Finset ℕ)}
    (h : addConversationHistoryHoleToLoadedLaterMessages holes mids maxMessageId = some holes') :
    holes'.isSome = holes.isSome := by
  unfold LastKnown at hknown
  cases hnext : nextStored mids maxMessageId with
  | none =>
    rw [addHole_none holes hnext] at h
    split_ifs at h
    rw [Option.some.inj h]
  | some next =>
    rw [addHole_some holes hnext] at h
    rw [hnext] at hknown
    split_ifs at h with hclose
    · rw [Option.some.inj h]
    · -- A row holds the last id of the gap.
      obtain ⟨-, hm⟩ := hknown.resolve_left (by omega)
      rw [← Option.some.inj h]
      cases holes with
      | none => exact absurd (mem_holeIds.mp hm).2 (Finset.notMem_empty _)
      | some _ => rfl

/-! ## Intervals -/

theorem conversationContainsHole_of_lt (holes : Finset ℕ) {a b : Int32} (h : a < b) :
    conversationContainsHole (some holes) a b =
      if 0 ≤ a.toInt then some (decide (∃ id ∈ holeIds (some holes), a.toInt ≤ id ∧ id < b.toInt)) else none := by
  unfold conversationContainsHole
  dsimp only
  rw [indexRange_sub h]
  split_ifs with hnonneg
  · rw [Option.map_some, Option.some.injEq, decide_eq_decide]
    constructor
    · rintro ⟨n, hn⟩
      obtain ⟨hm, hrange⟩ := Finset.mem_inter.mp hn
      rw [Finset.mem_Ico] at hrange
      exact ⟨n, mem_holeIds.mpr ⟨Int.natCast_nonneg n, by rwa [Int.toNat_natCast]⟩, by omega, by omega⟩
    · rintro ⟨id, hid, hlow, hhigh⟩
      exact ⟨id.toNat, Finset.mem_inter.mpr ⟨(mem_holeIds.mp hid).2, Finset.mem_Ico.mpr (by omega)⟩⟩
  · rfl

/-- **An interval is seen as it is** exactly when its last id is not the only one. -/
theorem conversationContainsHole_iff (interval : IdInterval) :
    conversationContainsHole holes interval.minMessageId interval.maxMessageId =
        some (decide (interval.Meets (holeIds holes))) ↔ LastNotAlone holes.isSome (holeIds holes) interval := by
  have hle := Int32.le_iff_toInt_le.mp interval.le
  unfold LastNotAlone
  obtain _ | holes := holes
  · exact iff_of_true rfl ⟨nofun, fun hid => absurd (mem_holeIds.mp hid).2 (Finset.notMem_empty _)⟩
  by_cases heq : interval.minMessageId = interval.maxMessageId
  · have hfalse : conversationContainsHole (some holes) interval.minMessageId interval.maxMessageId = some false := by
      unfold conversationContainsHole
      dsimp only
      rw [heq, indexRange_self, Option.map_some, Finset.inter_empty]
      rfl
    rw [hfalse, Option.some.injEq, eq_comm, decide_eq_false_iff_not]
    constructor
    · intro hmeets
      exact ⟨fun _ => .inl heq, fun hb => absurd ⟨_, hb, hle, le_refl _⟩ hmeets⟩
    · rintro ⟨-, hlast⟩ ⟨id, hid, hlow, hhigh⟩
      rw [heq] at hlow hlast
      obtain ⟨id', -, hlow', hhigh'⟩ := hlast (le_antisymm hhigh hlow ▸ hid)
      exact absurd hlow' (not_le.mpr hhigh')
  · have hlt : interval.minMessageId < interval.maxMessageId :=
      lt_iff_toInt_lt.mpr (lt_of_le_of_ne hle fun h => heq (toInt_inj.mp h))
    have hzero : 0 ≤ interval.minMessageId ↔ 0 ≤ interval.minMessageId.toInt := Int32.le_iff_toInt_le
    rw [conversationContainsHole_of_lt holes hlt, hzero]
    split_ifs with hnonneg
    · rw [Option.some.injEq, decide_eq_decide]
      constructor
      · intro hiff
        exact ⟨fun _ => .inr hnonneg, fun hb => hiff.mpr ⟨_, hb, hle, le_refl _⟩⟩
      · rintro ⟨-, hlast⟩
        constructor
        · rintro ⟨id, hid, hlow, hhigh⟩
          exact ⟨id, hid, hlow, hhigh.le⟩
        · rintro ⟨id, hid, hlow, hhigh⟩
          rcases hhigh.lt_or_eq with hhigh' | rfl
          · exact ⟨id, hid, hlow, hhigh'⟩
          · exact hlast hid
    · refine iff_of_false (by simp) ?_
      rintro ⟨hstart, -⟩
      exact (hstart rfl).elim heq hnonneg

/-- **The gap is marked** and seen in an interval exactly when the last id of neither is the only one in question. -/
theorem marksGap_iff (holes : Option (Finset ℕ)) (mids : List Int32) (maxMessageId : Int32) (interval : IdInterval) :
    MarksGap holes mids maxMessageId interval ↔
      LastKnown holes mids maxMessageId ∧
        LastNotAlone holes.isSome (holeIds holes ∪ gap mids maxMessageId) interval := by
  constructor
  · rintro ⟨holes', hadd, hids, hcontains⟩
    have hknown := (addsGap_iff holes mids maxMessageId).mp ⟨holes', hadd, hids⟩
    refine ⟨hknown, ?_⟩
    rw [← hids, ← hasRow_of_lastKnown holes hknown hadd]
    exact (conversationContainsHole_iff holes' interval).mp hcontains
  · intro ⟨hknown, hlast⟩
    obtain ⟨holes', hadd, hids⟩ := (addsGap_iff holes mids maxMessageId).mpr hknown
    rw [← hids, ← hasRow_of_lastKnown holes hknown hadd] at hlast
    exact ⟨holes', hadd, hids, (conversationContainsHole_iff holes' interval).mpr hlast⟩

/-- Behind message 10, with 13 stored, id 12 is missing from the holes. -/
theorem hole_twelve_missing : ¬MarksGap none [5, 10, 13] 10 ⟨11, 12, by decide⟩ := by
  rintro ⟨holes', hadd, hids, -⟩
  have heleven : addConversationHistoryHoleToLoadedLaterMessages none [5, 10, 13] 10 = some (some {11}) := by decide
  obtain rfl := Option.some.inj (heleven.symm.trans hadd)
  revert hids
  decide

end TelegramClient.Database
