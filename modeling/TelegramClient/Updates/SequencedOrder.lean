import TelegramClient.Updates.SequencedUpdates

/-!
# Updates are applied in order, once, and all of them

* `scanUpdates_spec` : a scan takes a chain from the stored number, or leaves a gap (`Gap`);
* `ActorInv` : what holds of the three lists and the stored number in every state (`ActorInv.step`);
* `Sequenced`, **`pts_and_qts_sequenced`** : what is promised for a run, and every run keeps it.
-/

namespace TelegramClient.Updates
open List
open Int32 (le_iff_toInt_le lt_iff_toInt_lt toInt_add toInt_inj)
open ChainFrom (lt_of_mem pairwise_lt)

section
variable {δ : Type} (k : SequenceKind δ)

def SequenceKind.numberInt (d : δ) : Int := (k.number d).toInt

def SequenceKind.countInt (d : δ) : Int := (k.count d).toInt

/-- Updates that follow each other from a number on. -/
def Chained (p : Int) (updates : List (UpdateObject δ)) : Prop :=
  ChainFrom k.numberInt k.countInt p (updates.map UpdateObject.data)

def reached (p : Int) (updates : List (UpdateObject δ)) : Int := endOf k.numberInt p (updates.map UpdateObject.data)

/-- The first update that is not expired does not follow the stored number. -/
def Gap (databaseNumber : Int32) (updates : List (UpdateObject δ)) : Prop :=
  ∃ update ∈ updates, databaseNumber < k.number update.data ∧
    (∀ other ∈ updates, databaseNumber < k.number other.data → k.number update.data ≤ k.number other.data) ∧
    k.numberInt update.data - k.countInt update.data ≠ databaseNumber.toInt

variable {k}

/-! ## The sum of the scan -/

/-- A sum that is not below the first summand has not wrapped. -/
theorem sub_eq_of_add_eq {a b c : Int32} (hb : 0 < b.toInt) (hle : a ≤ c) (h : a + b = c) :
    c.toInt - b.toInt = a.toInt := by
  have ha := a.le_toInt
  have ha' := a.toInt_lt
  have hb' := b.toInt_lt
  have hle' := le_iff_toInt_le.mp hle
  have hsum : c.toInt = (a.toInt + b.toInt).bmod (2 ^ 32) := by rw [← h, toInt_add]
  by_cases hfit : a.toInt + b.toInt < 2 ^ 31
  · rw [Int.bmod_eq_of_le (by omega) (by omega)] at hsum
    omega
  · have hwrap : (a.toInt + b.toInt).bmod (2 ^ 32) = a.toInt + b.toInt - 2 ^ 32 := by
      rw [← Int.sub_bmod_right]
      exact Int.bmod_eq_of_le (by omega) (by omega)
    omega

theorem add_eq_of_sub_eq {a b c : Int32} (h : c.toInt - b.toInt = a.toInt) : a + b = c := by
  have hc := c.le_toInt
  have hc' := c.toInt_lt
  have hsum : a.toInt + b.toInt = c.toInt := by omega
  rw [← toInt_inj, toInt_add, hsum]
  exact Int.bmod_eq_of_le (by omega) (by omega)

/-! ## The scan -/

section
variable {databaseNumber : Int32}

variable {current : Int32} {update : UpdateObject δ} {updates : List (UpdateObject δ)}

theorem scanUpdates_cons_expired (h : k.number update.data ≤ databaseNumber) :
    scanUpdates k databaseNumber current (update :: updates) = ((scanUpdates k databaseNumber current updates).1,
        update :: (scanUpdates k databaseNumber current updates).2) := by
  rw [scanUpdates, if_pos h]

theorem scanUpdates_cons_inOrder (h : ¬k.number update.data ≤ databaseNumber)
    (hnext : current + k.count update.data = k.number update.data) :
    scanUpdates k databaseNumber current (update :: updates) =
      (update :: (scanUpdates k databaseNumber (k.number update.data) updates).1,
        (scanUpdates k databaseNumber (k.number update.data) updates).2) := by
  rw [scanUpdates, if_neg h, if_pos hnext]

theorem scanUpdates_cons_gap (h : ¬k.number update.data ≤ databaseNumber)
    (hnext : ¬current + k.count update.data = k.number update.data) :
    scanUpdates k databaseNumber current (update :: updates) = ([], []) := by
  rw [scanUpdates, if_neg h, if_neg hnext]

theorem chained_scanUpdates (hsorted : updates.Pairwise fun update1 update2 => k.le update1.data update2.data = true)
    (hcnt : ∀ update ∈ updates, 0 < k.countInt update.data)
    (habove : ∀ update ∈ updates, k.number update.data ≤ databaseNumber ∨ current ≤ k.number update.data) :
    Chained k current.toInt (scanUpdates k databaseNumber current updates).1 := by
  induction updates generalizing current with
  | nil => trivial
  | cons update updates ih =>
    obtain ⟨hfirst, hrest⟩ := pairwise_cons.mp hsorted
    have hcount' : ∀ other ∈ updates, 0 < k.countInt other.data := fun other hm =>
      hcnt other (mem_cons_of_mem update hm)
    by_cases hexp : k.number update.data ≤ databaseNumber
    · rw [scanUpdates_cons_expired hexp]
      exact ih hrest hcount' fun other hm => habove other (mem_cons_of_mem update hm)
    · by_cases hnext : current + k.count update.data = k.number update.data
      · rw [scanUpdates_cons_inOrder hexp hnext]
        refine ⟨sub_eq_of_add_eq (hcnt update mem_cons_self)
          ((habove update mem_cons_self).resolve_left hexp) hnext, ?_⟩
        exact ih hrest hcount' fun other hm => .inr (k.number_le _ _ (hfirst other hm))
      · rw [scanUpdates_cons_gap hexp hnext]
        trivial

theorem mem_scanUpdates (h : update ∈ (scanUpdates k databaseNumber current updates).1) :
    update ∈ updates ∧ databaseNumber < k.number update.data := by
  induction updates generalizing current with
  | nil => exact absurd h not_mem_nil
  | cons first updates ih =>
    by_cases hexp : k.number first.data ≤ databaseNumber
    · rw [scanUpdates_cons_expired hexp] at h
      exact ⟨mem_cons_of_mem first (ih h).1, (ih h).2⟩
    · by_cases hnext : current + k.count first.data = k.number first.data
      · rw [scanUpdates_cons_inOrder hexp hnext] at h
        rcases mem_cons.mp h with rfl | h
        · exact ⟨mem_cons_self, Int32.not_le.mp hexp⟩
        · exact ⟨mem_cons_of_mem first (ih h).1, (ih h).2⟩
      · rw [scanUpdates_cons_gap hexp hnext] at h
        exact absurd h not_mem_nil

section
variable (hsorted : updates.Pairwise fun update1 update2 => k.le update1.data update2.data = true)
include hsorted

/-- The expired updates come first, so that the scan sees all of them. -/
theorem mem_expired_scanUpdates (update : UpdateObject δ) : update ∈ (scanUpdates k databaseNumber current updates).2 ↔
      update ∈ updates ∧ k.number update.data ≤ databaseNumber := by
  induction updates generalizing current with
  | nil => simp [scanUpdates]
  | cons first updates ih =>
    obtain ⟨hfirst, hrest⟩ := pairwise_cons.mp hsorted
    by_cases hexp : k.number first.data ≤ databaseNumber
    · rw [scanUpdates_cons_expired hexp, mem_cons, mem_cons, ih hrest, or_and_right]
      refine or_congr_left ⟨fun h => ⟨h, h ▸ hexp⟩, fun h => h.1⟩
    · have hlater : ∀ other ∈ first :: updates, ¬k.number other.data ≤ databaseNumber := by
        intro other hm hle
        rcases mem_cons.mp hm with rfl | hm
        · exact hexp hle
        · exact hexp (Int32.le_trans (k.number_le _ _ (hfirst other hm)) hle)
      have hnone : ¬(update ∈ first :: updates ∧ k.number update.data ≤ databaseNumber) := fun h =>
        hlater update h.1 h.2
      by_cases hnext : current + k.count first.data = k.number first.data
      · rw [scanUpdates_cons_inOrder hexp hnext, ih hrest]
        exact ⟨fun h => absurd h.2 (hlater update (mem_cons_of_mem first h.1)), fun h => absurd h hnone⟩
      · rw [scanUpdates_cons_gap hexp hnext]
        exact ⟨fun h => absurd h not_mem_nil, fun h => absurd h hnone⟩

theorem gap_of_scanUpdates_nil (hnil : (scanUpdates k databaseNumber databaseNumber updates).1 = []) :
    (∀ update ∈ updates, k.number update.data ≤ databaseNumber) ∨ Gap k databaseNumber updates := by
  induction updates with
  | nil => exact .inl fun update hm => absurd hm not_mem_nil
  | cons first updates ih =>
    obtain ⟨hfirst, hrest⟩ := pairwise_cons.mp hsorted
    by_cases hexp : k.number first.data ≤ databaseNumber
    · rw [scanUpdates_cons_expired hexp] at hnil
      rcases ih hrest hnil with hall | ⟨update, hm, hlt, hleast, hgap⟩
      · refine .inl fun update hm => ?_
        rcases mem_cons.mp hm with rfl | hm
        · exact hexp
        · exact hall update hm
      · refine .inr ⟨update, mem_cons_of_mem first hm, hlt, fun other hother hlt' => ?_, hgap⟩
        rcases mem_cons.mp hother with rfl | hother
        · exact absurd hexp (Int32.not_le.mpr hlt')
        · exact hleast other hother hlt'
    · by_cases hnext : databaseNumber + k.count first.data = k.number first.data
      · rw [scanUpdates_cons_inOrder hexp hnext] at hnil
        exact absurd hnil (cons_ne_nil _ _)
      · refine .inr ⟨first, mem_cons_self, Int32.not_le.mp hexp, fun other hother _ => ?_, fun hsub =>
          hnext (add_eq_of_sub_eq hsub)⟩
        rcases mem_cons.mp hother with rfl | hother
        · exact Int32.le_refl _
        · exact k.number_le _ _ (hfirst other hother)

end

end

/-! ## The groups -/

section
variable [DecidableEq δ] {updates : List (UpdateObject δ)} {updateList : List (UpdatesObject δ)} {group : UpdatesObject δ}

theorem mem_dropFinished (h : group ∈ dropFinished updates updateList) : group ∈ updateList :=
  (mem_filter.mp h).1

theorem forall_mem_of_dropped (hm : group ∈ updateList) (hdropped : group ∉ dropFinished updates updateList) :
    ∀ update ∈ group.updates, update ∈ updates := by
  intro update hupd
  have hfin : (isAffected updates group && (filteredUpdates updates group).length == 0) = true := by
    by_contra hnot
    exact hdropped (mem_filter.mpr ⟨hm, by rw [Bool.not_eq_true] at hnot; rw [hnot]; rfl⟩)
  rw [Bool.and_eq_true, beq_iff_eq, length_eq_zero_iff, filteredUpdates, filter_eq_nil_iff] at hfin
  simpa using hfin.2 update hupd

theorem not_mem_dropFinished (hne : group.updates ≠ []) (hall : ∀ update ∈ group.updates, update ∈ updates) :
    group ∉ dropFinished updates updateList := by
  intro hm
  have hnot := (mem_filter.mp hm).2
  obtain ⟨update, hupd⟩ := exists_mem_of_ne_nil _ hne
  have haffected : isAffected updates group = true :=
    any_eq_true.mpr ⟨update, hall update hupd, contains_iff_mem.mpr hupd⟩
  have hempty : filteredUpdates updates group = [] := by
    rw [filteredUpdates, filter_eq_nil_iff]
    intro other hother
    simpa using hall other hother
  rw [haffected, hempty] at hnot
  simp at hnot

end

/-! ## The invariant -/

def updatesOf (groups : List (UpdatesObject δ)) : List (UpdateObject δ) := groups.flatMap (·.updates)

theorem mem_updatesOf {groups : List (UpdatesObject δ)} {update : UpdateObject δ} :
    update ∈ updatesOf groups ↔ ∃ group ∈ groups, update ∈ group.updates := mem_flatMap

def SequenceActor.pending (s : SequenceActor δ) : List (UpdatesObject δ) :=
  s.updateList ++ s.waitingForApplyUpdatesQueue ++
    match s.phase with
    | .queued storedOptions => storedOptions
    | _ => []

variable (k) in
/-- What holds of the updates that have come, when the groups of `todo` are still to be looked at. -/
structure ActorCore (p : Int32) (s : SequenceActor δ) (todo : List (UpdatesObject δ)) : Prop where
  counts : ∀ update ∈ updatesOf s.arrived, 0 < k.countInt update.data
  groups : ∀ group ∈ todo, group.updates ≠ [] ∧ group ∈ s.arrived
  chained : Chained k p.toInt s.handed
  handed : ∀ update ∈ s.handed, update ∈ updatesOf s.arrived
  /-- No update is lost: the number has passed it, or it is in one of the groups. -/
  kept : ∀ update ∈ updatesOf s.arrived,
    k.numberInt update.data ≤ reached k p.toInt s.handed ∨ update ∈ updatesOf todo

variable (k) in
structure ActorInv (p : Int32) (s : SequenceActor δ) : Prop where
  core : ActorCore k p s s.pending
  waiting : s.waitingForApplyUpdates = true → s.phase = .executing ∧ s.applying.updates ≠ [] ∧
    ∃ before, s.handed = before ++ s.applying.updates ∧ s.databaseNumber.toInt = reached k p.toInt before
  settled : s.waitingForApplyUpdates = false →
    s.databaseNumber.toInt = reached k p.toInt s.handed ∧ s.waitingForApplyUpdatesQueue = []
  idle : s.phase = .idle → s.updateList = []
  gap : s.phase = .executing → s.waitingForApplyUpdates = false → Gap k s.databaseNumber (updatesOf s.updateList)

variable (k) in
/-- A state in which the groups of the list are looked at. -/
structure ActorReady (p : Int32) (s : SequenceActor δ) : Prop where
  core : ActorCore k p s s.updateList
  phase : s.phase = .executing
  waiting : s.waitingForApplyUpdates = false
  parked : s.waitingForApplyUpdatesQueue = []
  databaseNumber : s.databaseNumber.toInt = reached k p.toInt s.handed

theorem chained_append {p : Int} {updates' : List (UpdateObject δ)} :
    Chained k p (updates ++ updates') ↔ Chained k p updates ∧ Chained k (reached k p updates) updates' := by
  unfold Chained reached
  rw [map_append, chainFrom_append]

theorem reached_append (p : Int) (updates updates' : List (UpdateObject δ)) :
    reached k p (updates ++ updates') = reached k (reached k p updates) updates' := by
  unfold reached
  rw [map_append, endOf_append]

theorem ActorCore.counts_handed {p : Int32} {s : SequenceActor δ} {todo : List (UpdatesObject δ)}
    (h : ActorCore k p s todo) : ∀ d ∈ s.handed.map UpdateObject.data, 0 < k.countInt d := by
  intro d hd
  obtain ⟨update, hupd, rfl⟩ := mem_map.mp hd
  exact h.counts update (h.handed update hupd)

/-! ## A check keeps it -/

section
variable {p : Int32} {s : SequenceActor δ}

theorem ActorReady.complete (h : ActorReady k p s) (hempty : s.updateList = []) : ActorInv k p s.completeAction where
  core := by
    have hpend : s.completeAction.pending = s.updateList := by
      simp [SequenceActor.pending, SequenceActor.completeAction, h.parked]
    rw [hpend]
    exact ⟨h.core.counts, h.core.groups, h.core.chained, h.core.handed, h.core.kept⟩
  waiting := fun hwait => absurd (h.waiting.symm.trans hwait) Bool.false_ne_true
  settled := fun _ => ⟨h.databaseNumber, h.parked⟩
  idle := fun _ => hempty
  gap := fun hph => by simp [SequenceActor.completeAction] at hph

variable (sort : UpdateSort k)

/-- What the scan makes of the sorted updates of the list. -/
def SequenceActor.scan (s : SequenceActor δ) : List (UpdateObject δ) × List (UpdateObject δ) :=
  scanUpdates k s.databaseNumber s.databaseNumber (sort.sort (updatesOf s.updateList))

theorem ActorReady.chained_scan (h : ActorReady k p s) : Chained k s.databaseNumber.toInt (s.scan sort).1 := by
  refine chained_scanUpdates (sort.sorted _) (fun update hm => ?_) fun update _ => ?_
  · obtain ⟨group, hgroup, hupd⟩ := mem_updatesOf.mp ((sort.perm _).mem_iff.mp hm)
    exact h.core.counts update (mem_updatesOf.mpr ⟨group, (h.core.groups group hgroup).2, hupd⟩)
  · rcases Int32.le_total (k.number update.data) s.databaseNumber with hle | hle
    · exact .inl hle
    · exact .inr hle

theorem ActorReady.mem_inOrder (h : ActorReady k p s) {update : UpdateObject δ} (hm : update ∈ (s.scan sort).1) :
    update ∈ updatesOf s.arrived ∧ update ∈ updatesOf s.updateList ∧ s.databaseNumber < k.number update.data := by
  obtain ⟨hsorted, hlt⟩ := mem_scanUpdates hm
  have hlist := (sort.perm _).mem_iff.mp hsorted
  obtain ⟨group, hgroup, hupd⟩ := mem_updatesOf.mp hlist
  exact ⟨mem_updatesOf.mpr ⟨group, (h.core.groups group hgroup).2, hupd⟩, hlist, hlt⟩

variable [DecidableEq δ]

section
variable (h : ActorReady k p s)
include h

theorem ActorReady.dropExpired : ActorReady k p { s with updateList := dropFinished (s.scan sort).2 s.updateList } where
  core := by
    refine ⟨h.core.counts, fun group hm => h.core.groups group (mem_dropFinished hm), h.core.chained, h.core.handed,
      fun update hupd => ?_⟩
    rcases h.core.kept update hupd with hle | hlist
    · exact .inl hle
    · obtain ⟨group, hgroup, hm⟩ := mem_updatesOf.mp hlist
      by_cases hstays : group ∈ dropFinished (s.scan sort).2 s.updateList
      · exact .inr (mem_updatesOf.mpr ⟨group, hstays, hm⟩)
      · have hdropped := forall_mem_of_dropped hgroup hstays update hm
        have hexp := (mem_expired_scanUpdates (sort.sorted _) update).mp hdropped
        refine .inl (le_trans (le_iff_toInt_le.mp hexp.2) h.databaseNumber.le)
  phase := h.phase
  waiting := h.waiting
  parked := h.parked
  databaseNumber := h.databaseNumber

theorem ActorReady.hand (hsome : (s.scan sort).1 ≠ []) (users chats : List Bytes) : ActorInv k p { s with
      updateList := dropFinished (s.scan sort).1 (dropFinished (s.scan sort).2 s.updateList)
      waitingForApplyUpdates := true
      applying := ⟨(s.scan sort).1, users, chats⟩
      handed := s.handed ++ (s.scan sort).1 } := by
  have hexp := h.dropExpired sort
  have hchained : Chained k p.toInt (s.handed ++ (s.scan sort).1) := by
    rw [chained_append, ← h.databaseNumber]
    exact ⟨h.core.chained, h.chained_scan sort⟩
  have hhanded : ∀ update ∈ s.handed ++ (s.scan sort).1, update ∈ updatesOf s.arrived :=
    forall_mem_append.mpr ⟨h.core.handed, fun update hm => (h.mem_inOrder sort hm).1⟩
  have hcounts : ∀ d ∈ (s.handed ++ (s.scan sort).1).map UpdateObject.data, 0 < k.countInt d := by
    intro d hd
    obtain ⟨update, hupd, rfl⟩ := mem_map.mp hd
    exact h.core.counts update (hhanded update hupd)
  -- the number that is reached is not below any of the handed updates
  have hreached : ∀ update ∈ s.handed ++ (s.scan sort).1,
      k.numberInt update.data ≤ reached k p.toInt (s.handed ++ (s.scan sort).1) := fun update hm =>
    (lt_of_mem hchained hcounts (mem_map_of_mem hm)).2.2
  have hgrows : reached k p.toInt s.handed ≤ reached k p.toInt (s.handed ++ (s.scan sort).1) := by
    rw [reached_append]
    have hscan : Chained k (reached k p.toInt s.handed) (s.scan sort).1 := (chained_append.mp hchained).2
    refine le_endOf hscan fun d hd => hcounts d ?_
    rw [map_append]
    exact mem_append_right _ hd
  constructor
  case core =>
    refine ⟨h.core.counts, fun group hm => ?_, hchained, hhanded, fun update hupd => ?_⟩
    · simp only [SequenceActor.pending, h.parked, h.phase, append_nil] at hm
      exact hexp.core.groups group (mem_dropFinished hm)
    · rcases hexp.core.kept update hupd with hle | hlist
      · exact .inl (hle.trans hgrows)
      · obtain ⟨group, hgroup, hm⟩ := mem_updatesOf.mp hlist
        by_cases hstays : group ∈ dropFinished (s.scan sort).1 (dropFinished (s.scan sort).2 s.updateList)
        · refine .inr (mem_updatesOf.mpr ⟨group, ?_, hm⟩)
          simpa only [SequenceActor.pending, h.parked, h.phase, append_nil] using hstays
        · have hhandedNow := forall_mem_of_dropped hgroup hstays update hm
          exact .inl (hreached update (mem_append_right _ hhandedNow))
  case waiting => exact fun _ => ⟨h.phase, hsome, s.handed, rfl, h.databaseNumber⟩
  case settled => exact fun hwait => absurd hwait.symm Bool.false_ne_true
  case idle =>
    intro hph
    have hexec : s.phase = .idle := hph
    rw [h.phase] at hexec
    cases hexec
  case gap => exact fun _ hwait => absurd hwait.symm Bool.false_ne_true

theorem ActorReady.stay (hnone : (s.scan sort).1 = []) (hstays : dropFinished (s.scan sort).2 s.updateList ≠ []) :
    ActorInv k p { s with updateList := dropFinished (s.scan sort).2 s.updateList } := by
  have hexp := h.dropExpired sort
  have hpend : { s with updateList := dropFinished (s.scan sort).2 s.updateList }.pending =
      dropFinished (s.scan sort).2 s.updateList := by
    simp only [SequenceActor.pending, h.parked, h.phase, append_nil]
  have hm : ∀ update, update ∈ sort.sort (updatesOf s.updateList) ↔ update ∈ updatesOf s.updateList := fun _ =>
    (sort.perm _).mem_iff
  constructor
  case core =>
    rw [hpend]
    exact hexp.core
  case waiting => exact fun hwait => absurd (h.waiting.symm.trans hwait) Bool.false_ne_true
  case settled => exact fun _ => ⟨h.databaseNumber, h.parked⟩
  case idle =>
    intro hph
    have hexec : s.phase = .idle := hph
    rw [h.phase] at hexec
    cases hexec
  case gap =>
    intro _ _
    rcases gap_of_scanUpdates_nil (sort.sorted _) hnone with hall | ⟨update, hupd, hlt, hleast, hgap⟩
    · -- a group of which all is expired would be gone
      obtain ⟨group, hgroup⟩ := exists_mem_of_ne_nil _ hstays
      have hall' : ∀ update ∈ group.updates, update ∈ (s.scan sort).2 := fun update hupd =>
        have hlist := (hm update).mpr (mem_updatesOf.mpr ⟨group, mem_dropFinished hgroup, hupd⟩)
        (mem_expired_scanUpdates (sort.sorted _) update).mpr ⟨hlist, hall update hlist⟩
      have hgone : group ∉ dropFinished (s.scan sort).2 s.updateList :=
        not_mem_dropFinished (h.core.groups group (mem_dropFinished hgroup)).1 hall'
      exact absurd hgroup hgone
    · obtain ⟨group, hgroup, hin⟩ := mem_updatesOf.mp ((hm update).mp hupd)
      have hstay : group ∈ dropFinished (s.scan sort).2 s.updateList := by
        by_contra hdropped
        have hle := ((mem_expired_scanUpdates (sort.sorted _) update).mp
          (forall_mem_of_dropped hgroup hdropped update hin)).2
        exact absurd hlt (Int32.not_lt.mpr hle)
      refine ⟨update, mem_updatesOf.mpr ⟨group, hstay, hin⟩, hlt, fun other hother hlt' => ?_, hgap⟩
      obtain ⟨group', hgroup', hin'⟩ := mem_updatesOf.mp hother
      exact hleast other ((hm other).mpr (mem_updatesOf.mpr ⟨group', mem_dropFinished hgroup', hin'⟩)) hlt'

theorem ActorReady.check : ActorInv k p (s.checkUpdates sort) := by
  unfold SequenceActor.checkUpdates
  split
  case isTrue hempty => exact h.complete hempty
  · dsimp only
    split
    case isTrue hsome => exact h.hand sort hsome _ _
    case isFalse hnone =>
      split
      case isTrue hempty => exact (h.dropExpired sort).complete hempty
      case isFalse hstays => exact h.stay sort (not_not.mp hnone) hstays

end

end

/-! ## Every step keeps it -/

/-- A group is made only of updates, and an update covers a number. -/
def WellFormedGroup (k : SequenceKind δ) (group : UpdatesObject δ) : Prop :=
  group.updates ≠ [] ∧ ∀ update ∈ group.updates, 0 < k.countInt update.data

section
variable {p : Int32} {s : SequenceActor δ}

theorem ActorCore.congr {s' : SequenceActor δ} {todo todo' : List (UpdatesObject δ)} (h : ActorCore k p s todo)
    (harrived : s'.arrived = s.arrived) (hhanded : s'.handed = s.handed)
    (htodo : ∀ group, group ∈ todo' ↔ group ∈ todo) : ActorCore k p s' todo' := by
  constructor
  case counts => exact harrived ▸ h.counts
  case groups => exact fun group hm => harrived ▸ h.groups group ((htodo group).mp hm)
  case chained => exact hhanded ▸ h.chained
  case handed => exact harrived ▸ hhanded ▸ h.handed
  case kept =>
    rw [harrived, hhanded]
    intro update hupd
    refine (h.kept update hupd).imp_right fun hlist => ?_
    obtain ⟨group, hgroup, hm⟩ := mem_updatesOf.mp hlist
    exact mem_updatesOf.mpr ⟨group, (htodo group).mpr hgroup, hm⟩

theorem ActorCore.arrive {todo groups : List (UpdatesObject δ)} (h : ActorCore k p s todo)
    (hgroups : ∀ group ∈ groups, WellFormedGroup k group) :
    ActorCore k p { s with arrived := s.arrived ++ groups } (todo ++ groups) := by
  have hsplit : updatesOf (s.arrived ++ groups) = updatesOf s.arrived ++ updatesOf groups := flatMap_append
  have hsplitTodo : updatesOf (todo ++ groups) = updatesOf todo ++ updatesOf groups := flatMap_append
  constructor
  case counts =>
    rw [hsplit]
    refine forall_mem_append.mpr ⟨h.counts, fun update hupd => ?_⟩
    obtain ⟨group, hgroup, hm⟩ := mem_updatesOf.mp hupd
    exact (hgroups group hgroup).2 update hm
  case groups =>
    refine forall_mem_append.mpr ⟨fun group hm => ?_, fun group hm => ?_⟩
    · exact ⟨(h.groups group hm).1, mem_append_left groups (h.groups group hm).2⟩
    · exact ⟨(hgroups group hm).1, mem_append_right s.arrived hm⟩
  case chained => exact h.chained
  case handed =>
    rw [hsplit]
    exact fun update hm => mem_append_left _ (h.handed update hm)
  case kept =>
    rw [hsplit, hsplitTodo]
    refine forall_mem_append.mpr ⟨fun update hupd => ?_, fun update hupd => ?_⟩
    · exact (h.kept update hupd).imp_right (mem_append_left _)
    · exact .inr (mem_append_right _ hupd)

variable (k) in
theorem ActorInv.init (p : Int32) : ActorInv k p (SequenceActor.init p) where
  core := ⟨forall_mem_nil _, forall_mem_nil _, trivial,
    forall_mem_nil _, forall_mem_nil _⟩
  waiting := fun hwait => absurd hwait Bool.false_ne_true
  settled := fun _ => ⟨rfl, rfl⟩
  idle := fun _ => rfl
  gap := fun hph => by cases hph

theorem ActorInv.not_waiting (h : ActorInv k p s) (hph : s.phase ≠ .executing) :
    s.waitingForApplyUpdates = false := by
  by_contra hwait
  exact hph (h.waiting (Bool.not_eq_false _ ▸ hwait)).1

theorem ActorInv.not_executing (h : ActorInv k p s) (hph : s.phase ≠ .executing) :
    s.waitingForApplyUpdates = false ∧ s.waitingForApplyUpdatesQueue = [] ∧
      s.databaseNumber.toInt = reached k p.toInt s.handed :=
  have hwait := h.not_waiting hph
  ⟨hwait, (h.settled hwait).2, (h.settled hwait).1⟩

variable {store : Int32 → List δ → Int32}

theorem ActorInv.stored (h : ActorInv k p s) (hstore : StoresMaximum k p store)
    (hwait : s.waitingForApplyUpdates = true) :
    (store s.databaseNumber (s.applying.updates.map UpdateObject.data)).toInt = reached k p.toInt s.handed := by
  obtain ⟨-, hsome, before, hhanded, hnum⟩ := h.waiting hwait
  have hchained : Chained k p.toInt (before ++ s.applying.updates) := hhanded ▸ h.core.chained
  obtain ⟨hbefore, happlying⟩ := chained_append.mp hchained
  have hcounts : ∀ d ∈ (before ++ s.applying.updates).map UpdateObject.data, 0 < k.countInt d :=
    hhanded ▸ h.core.counts_handed
  rw [map_append] at hcounts
  obtain ⟨hcountsBefore, hcountsApplying⟩ := forall_mem_append.mp hcounts
  have hp : p ≤ s.databaseNumber := le_iff_toInt_le.mpr (hnum ▸ le_endOf hbefore hcountsBefore)
  have hne : s.applying.updates.map UpdateObject.data ≠ [] := fun hnil => hsome (map_eq_nil_iff.mp hnil)
  have habove : ∀ d ∈ s.applying.updates.map UpdateObject.data, s.databaseNumber < k.number d := fun d hd =>
    lt_iff_toInt_lt.mpr (hnum ▸ (lt_of_mem happlying hcountsApplying hd).2.1)
  obtain ⟨⟨d, hd, hmax⟩, hall⟩ := hstore s.databaseNumber _ hp hne habove
  rw [hhanded, reached_append]
  obtain ⟨e, he, hend⟩ := @endOf_mem _ k.numberInt _ hne (reached k p.toInt before)
  refine le_antisymm ?_ ?_
  · rw [hmax]
    exact (lt_of_mem happlying hcountsApplying hd).2.2
  · rw [reached, hend]
    exact le_iff_toInt_le.mp (hall e he)

section
variable {groups : List (UpdatesObject δ)} (hgroups : ∀ group ∈ groups, WellFormedGroup k group)
include hgroups

theorem ActorInv.enqueue (h : ActorInv k p s) (hph : s.phase = .idle) :
    ActorInv k p { s with arrived := s.arrived ++ groups, phase := .queued groups } := by
  obtain ⟨hwaiting, hparked, hnum⟩ := h.not_executing (by rw [hph]; nofun)
  have hnothing := h.idle hph
  constructor
  case core =>
    refine (h.core.arrive hgroups).congr rfl rfl fun group => ?_
    simp [SequenceActor.pending, hph, hparked, hnothing]
  case waiting => exact fun hwait => absurd (hwaiting.symm.trans hwait) Bool.false_ne_true
  case settled => exact fun _ => ⟨hnum, hparked⟩
  case idle => exact fun hidle => nomatch hidle
  case gap => exact fun hexec => nomatch hexec

theorem ActorInv.joinQueued (h : ActorInv k p s) {storedOptions : List (UpdatesObject δ)}
    (hph : s.phase = .queued storedOptions) :
    ActorInv k p { s with arrived := s.arrived ++ groups, updateList := s.updateList ++ groups } := by
  obtain ⟨hwaiting, hparked, hnum⟩ := h.not_executing (by rw [hph]; nofun)
  constructor
  case core =>
    refine (h.core.arrive hgroups).congr rfl rfl fun group => ?_
    simp only [SequenceActor.pending, hph, hparked, append_nil, mem_append]
    tauto
  case waiting => exact fun hwait => absurd (hwaiting.symm.trans hwait) Bool.false_ne_true
  case settled => exact fun _ => ⟨hnum, hparked⟩
  case idle => exact fun hidle => nomatch hph.symm.trans hidle
  case gap => exact fun hexec => nomatch hph.symm.trans hexec

theorem ActorInv.park (h : ActorInv k p s)
    (hwaiting : s.waitingForApplyUpdates = true) : ActorInv k p { s with
      arrived := s.arrived ++ groups, waitingForApplyUpdatesQueue := s.waitingForApplyUpdatesQueue ++ groups } := by
  have hph := (h.waiting hwaiting).1
  constructor
  case core =>
    refine (h.core.arrive hgroups).congr rfl rfl fun group => ?_
    simp only [SequenceActor.pending, hph, append_nil, append_assoc]
  case waiting => exact h.waiting
  case settled => exact fun hwait => absurd (hwait.symm.trans hwaiting) Bool.false_ne_true
  case idle => exact fun hidle => nomatch hph.symm.trans hidle
  case gap => exact fun _ hwait => absurd (hwait.symm.trans hwaiting) Bool.false_ne_true

variable [DecidableEq δ] (sort : UpdateSort k)

theorem ActorInv.executeNow (h : ActorInv k p s) (hph : s.phase = .idle) :
    ActorInv k p ({ s with arrived := s.arrived ++ groups }.execute sort groups) := by
  obtain ⟨hwait, hparked, hnum⟩ := h.not_executing (by rw [hph]; nofun)
  have hcore := h.core.arrive hgroups
  refine ActorReady.check sort ⟨hcore.congr rfl rfl fun group => ?_, rfl, hwait, hparked, hnum⟩
  simp only [SequenceActor.pending, hph, hparked, append_nil]

theorem ActorInv.joinExecuting (h : ActorInv k p s) (hph : s.phase = .executing)
    (hwait : s.waitingForApplyUpdates = false) : ActorInv k p ({ s with
      arrived := s.arrived ++ groups, updateList := s.updateList ++ groups }.checkUpdates sort) := by
  obtain ⟨hnum, hparked⟩ := h.settled hwait
  have hcore := h.core.arrive hgroups
  refine ActorReady.check sort ⟨hcore.congr rfl rfl fun group => ?_, hph, hwait, hparked, hnum⟩
  simp only [SequenceActor.pending, hph, hparked, append_nil]

theorem ActorInv.request (h : ActorInv k p s) (executeNow : Bool) :
    ActorInv k p (s.request sort groups executeNow) := by
  unfold SequenceActor.request
  dsimp only
  cases hph : s.phase with
  | idle =>
    cases executeNow with
    | false => exact h.enqueue hgroups hph
    | true => exact h.executeNow hgroups sort hph
  | queued storedOptions =>
    have hwait := h.not_waiting (by rw [hph]; nofun)
    simp only [SequenceActor.watcherJoined, hwait, Bool.not_true, Bool.false_and, Bool.false_eq_true, if_false]
    simpa only [hph, hwait] using h.joinQueued hgroups hph
  | executing =>
    cases hwait : s.waitingForApplyUpdates with
    | false =>
      simp only [SequenceActor.watcherJoined, Bool.not_false, Bool.and_self, Bool.false_eq_true, if_false,
        if_true]
      simpa only [hph, hwait] using h.joinExecuting hgroups sort hph hwait
    | true =>
      simp only [SequenceActor.watcherJoined, Bool.not_true, Bool.and_false, Bool.false_eq_true, if_false,
        if_true]
      simpa only [hph, hwait] using h.park hgroups hwait

end

variable [DecidableEq δ] (sort : UpdateSort k)

theorem ActorInv.execute (h : ActorInv k p s) {storedOptions : List (UpdatesObject δ)}
    (hph : s.phase = .queued storedOptions) : ActorInv k p (s.execute sort storedOptions) := by
  obtain ⟨hwait, hparked, hnum⟩ := h.not_executing (by rw [hph]; nofun)
  refine ActorReady.check sort ⟨h.core.congr rfl rfl fun group => ?_, rfl, hwait, hparked, hnum⟩
  simp only [SequenceActor.pending, hph, hparked, append_nil]

theorem ActorInv.applied (h : ActorInv k p s) (hstore : StoresMaximum k p store)
    (hwait : s.waitingForApplyUpdates = true) : ActorInv k p (s.applied sort store) := by
  have hph := (h.waiting hwait).1
  refine ActorReady.check sort ⟨h.core.congr rfl rfl fun group => ?_, hph, rfl, rfl, h.stored hstore hwait⟩
  simp only [SequenceActor.pending, hph, append_nil]

end

def WellFormedEvent (k : SequenceKind δ) : SequenceEvent δ → Prop
  | .request groups _ => ∀ group ∈ groups, WellFormedGroup k group
  | _ => True

section
variable [DecidableEq δ] {p : Int32} {s : SequenceActor δ} (sort : UpdateSort k) {store : Int32 → List δ → Int32}

theorem ActorInv.step (h : ActorInv k p s) (hstore : StoresMaximum k p store) {event : SequenceEvent δ}
    (hev : WellFormedEvent k event) : ActorInv k p (stepActor sort store s event) := by
  cases event with
  | request groups executeNow => exact h.request hev sort executeNow
  | proceed =>
    unfold stepActor
    dsimp only
    split
    case h_1 storedOptions hph => exact h.execute sort hph
    · exact h
  | applied =>
    unfold stepActor
    dsimp only
    split
    case isTrue hwait => exact h.applied sort hstore hwait
    · exact h

theorem ActorInv.steps (h : ActorInv k p s) (hstore : StoresMaximum k p store) {events : List (SequenceEvent δ)}
    (hevents : ∀ event ∈ events, WellFormedEvent k event) : ActorInv k p (events.foldl (stepActor sort store) s) := by
  induction events generalizing s with
  | nil => exact h
  | cons event events ih =>
    obtain ⟨hev, hrest⟩ := forall_mem_cons.mp hevents
    exact ih (h.step sort hstore hev) hrest

end

/-! ## A chain is applied to its end -/

/-- All the groups that the actor was requested with. -/
def requestedGroups (events : List (SequenceEvent δ)) : List (UpdatesObject δ) :=
  events.flatMap fun event =>
    match event with
    | .request groups _ => groups
    | _ => []

/-- Neither queued nor waiting for updates to be applied. -/
def SequenceActor.Settled (s : SequenceActor δ) : Prop :=
  (s.phase = .idle ∨ s.phase = .executing) ∧ s.waitingForApplyUpdates = false

section
variable {p : Int32} {s : SequenceActor δ}

/-- No update is handed over twice, so that there are not more of them than have come. -/
theorem ActorInv.length_handed_le (h : ActorInv k p s) : s.handed.length ≤ (updatesOf s.arrived).length := by
  have hlt := pairwise_lt h.core.chained h.core.counts_handed
  have hnd : s.handed.Nodup := (pairwise_map.mp hlt).imp fun hnumbers heq => by
    rw [heq] at hnumbers
    exact Int.lt_irrefl _ hnumbers
  exact hnd.length_le_of_subset h.core.handed

/-- Where the updates that are not expired are a chain from the stored number on, there is no gap: it would be at the
first of them. -/
theorem Gap.not_chainFrom {databaseNumber : Int32} (h : Gap k databaseNumber updates)
    {rest : List δ} (hchain : ChainFrom k.numberInt k.countInt databaseNumber.toInt rest)
    (hcounts : ∀ d ∈ rest, 0 < k.countInt d) (hwaits : ∀ d ∈ rest, ∃ update ∈ updates, update.data = d)
    (hrest : ∀ update ∈ updates, databaseNumber < k.number update.data → update.data ∈ rest) : False := by
  obtain ⟨update, hupd, hlt, hleast, hgap⟩ := h
  have hm := hrest update hupd hlt
  cases rest with
  | nil => exact not_mem_nil hm
  | cons d rest =>
    obtain ⟨other, hother, rfl⟩ := hwaits d mem_cons_self
    have habove := (hchain.lt_of_mem hcounts mem_cons_self).2.1
    have hle := le_iff_toInt_le.mp (hleast other hother (lt_iff_toInt_lt.mpr habove))
    rcases mem_cons.mp hm with heq | hlater
    · exact hgap (heq ▸ hchain.1)
    · have hcountsLater : ∀ e ∈ rest, 0 < k.countInt e := fun e he => hcounts e (mem_cons_of_mem _ he)
      have hgreater := (hchain.2.lt_of_mem hcountsLater hlater).2.1
      exact absurd (lt_of_lt_of_le hgreater hle) (lt_irrefl _)

theorem ActorInv.finished (h : ActorInv k p s) (hsettled : s.Settled) {ds : List δ}
    (hds : ChainFrom k.numberInt k.countInt p.toInt ds)
    (hsame : ∀ d, d ∈ ds ↔ d ∈ (updatesOf s.arrived).map UpdateObject.data) :
    s.handed.map UpdateObject.data = ds ∧ s.databaseNumber.toInt = endOf k.numberInt p.toInt ds ∧
      s.phase = .idle ∧ s.updateList = [] := by
  obtain ⟨hph, hwait⟩ := hsettled
  obtain ⟨hnum, hparked⟩ := h.settled hwait
  have hcounts : ∀ d ∈ ds, 0 < k.countInt d := by
    intro d hd
    obtain ⟨update, hupd, rfl⟩ := mem_map.mp ((hsame d).mp hd)
    exact h.core.counts update hupd
  obtain ⟨rest, hrest⟩ := hds.prefix_of_mem h.core.chained hcounts fun d hd => by
    obtain ⟨update, hupd, rfl⟩ := mem_map.mp hd
    exact (hsame _).mpr (mem_map_of_mem (h.core.handed update hupd))
  have hpend : s.pending = s.updateList := by
    rcases hph with hph | hph <;> simp [SequenceActor.pending, hph, hparked]
  have hchainRest : ChainFrom k.numberInt k.countInt s.databaseNumber.toInt rest := by
    rw [← hrest, chainFrom_append] at hds
    rw [hnum]
    exact hds.2
  have hcountsRest : ∀ d ∈ rest, 0 < k.countInt d := fun d hd => hcounts d (hrest ▸ mem_append_right _ hd)
  -- what is not handed over yet is in the list
  have hwaits : ∀ d ∈ rest, ∃ update ∈ updatesOf s.updateList, update.data = d := by
    intro d hd
    obtain ⟨update, hupd, rfl⟩ := mem_map.mp ((hsame d).mp (hrest ▸ mem_append_right _ hd))
    have habove := (hchainRest.lt_of_mem hcountsRest hd).2.1
    refine ⟨update, (hpend ▸ h.core.kept update hupd).resolve_left fun hle => ?_, rfl⟩
    exact absurd (lt_of_lt_of_le habove (hle.trans hnum.ge)) (lt_irrefl _)
  have hnone : rest = [] ∧ s.phase = .idle := by
    rcases hph with hidle | hexec
    · refine ⟨eq_nil_iff_forall_not_mem.mpr fun d hd => ?_, hidle⟩
      obtain ⟨update, hupd, -⟩ := hwaits d hd
      rw [h.idle hidle] at hupd
      exact not_mem_nil hupd
    · exfalso
      refine (h.gap hexec hwait).not_chainFrom hchainRest hcountsRest hwaits fun update hupd hlt => ?_
      obtain ⟨group, hgroup, hin⟩ := mem_updatesOf.mp hupd
      have harrived : update ∈ updatesOf s.arrived :=
        mem_updatesOf.mpr ⟨group, (h.core.groups group (hpend.symm ▸ hgroup)).2, hin⟩
      have hall : update.data ∈ s.handed.map UpdateObject.data ++ rest :=
        hrest.symm ▸ (hsame _).mpr (mem_map_of_mem harrived)
      refine (mem_append.mp hall).resolve_left fun hhanded => ?_
      have hle := (lt_of_mem h.core.chained h.core.counts_handed hhanded).2.2
      exact absurd (lt_of_lt_of_le (lt_iff_toInt_lt.mp hlt) (hle.trans hnum.ge)) (lt_irrefl _)
  obtain ⟨rfl, hidle⟩ := hnone
  rw [append_nil] at hrest
  exact ⟨hrest, by rw [hnum, reached, hrest], hidle, h.idle hidle⟩

theorem wellFormed_replicate_applied (k : SequenceKind δ) (n : Nat) :
    ∀ event ∈ replicate n SequenceEvent.applied, WellFormedEvent k event := by
  intro event hm
  rw [eq_of_mem_replicate hm]
  trivial

variable [DecidableEq δ] (sort : UpdateSort k) {store : Int32 → List δ → Int32}

theorem checkUpdates_spec (s : SequenceActor δ) : (s.checkUpdates sort).arrived = s.arrived ∧
      ((s.checkUpdates sort).phase = s.phase ∨ (s.checkUpdates sort).phase = .idle) ∧
      ((s.checkUpdates sort).waitingForApplyUpdates = s.waitingForApplyUpdates ∨
        s.handed.length < (s.checkUpdates sort).handed.length) := by
  unfold SequenceActor.checkUpdates
  split
  · exact ⟨rfl, .inr rfl, .inl rfl⟩
  · dsimp only
    split
    case isTrue hsome =>
      refine ⟨rfl, .inl rfl, Or.inr ?_⟩
      rw [length_append]
      exact Nat.lt_add_of_pos_right (length_pos_iff.mpr hsome)
    · split
      · exact ⟨rfl, .inr rfl, .inl rfl⟩
      · exact ⟨rfl, .inl rfl, .inl rfl⟩

theorem arrived_stepActor (s : SequenceActor δ) (event : SequenceEvent δ) :
    (stepActor sort store s event).arrived = s.arrived ++ requestedGroups [event] := by
  have hcheck := fun s => (checkUpdates_spec sort s).1
  cases event with
  | request groups executeNow =>
    have hrequested : requestedGroups [SequenceEvent.request groups executeNow] = groups := append_nil groups
    rw [hrequested]
    simp only [stepActor, SequenceActor.request, SequenceActor.execute, SequenceActor.watcherJoined]
    repeat' split
    all_goals first | rfl | exact hcheck _
  | proceed =>
    have hrequested : requestedGroups [SequenceEvent.proceed (δ := δ)] = [] := rfl
    rw [hrequested, append_nil]
    simp only [stepActor, SequenceActor.execute]
    split
    · exact hcheck _
    · rfl
  | applied =>
    have hrequested : requestedGroups [SequenceEvent.applied (δ := δ)] = [] := rfl
    rw [hrequested, append_nil]
    simp only [stepActor, SequenceActor.applied]
    split
    · exact hcheck _
    · rfl

theorem arrived_steps (s : SequenceActor δ) (events : List (SequenceEvent δ)) :
    (events.foldl (stepActor sort store) s).arrived = s.arrived ++ requestedGroups events := by
  induction events generalizing s with
  | nil => exact (append_nil _).symm
  | cons event events ih =>
    have hfirst : requestedGroups (event :: events) = requestedGroups [event] ++ requestedGroups events :=
      @flatMap_append _ _ [event] events _
    rw [foldl_cons, ih, arrived_stepActor, append_assoc, hfirst]

theorem phase_proceed (s : SequenceActor δ) :
    (stepActor sort store s .proceed).phase = .idle ∨ (stepActor sort store s .proceed).phase = .executing := by
  cases hph : s.phase with
  | idle | executing => simp [stepActor, hph]
  | queued storedOptions =>
    simp only [stepActor, hph, SequenceActor.execute]
    exact (checkUpdates_spec sort _).2.1.symm

theorem applied_spec (hph : s.phase = .idle ∨ s.phase = .executing) :
    ((stepActor sort store s .applied).phase = .idle ∨ (stepActor sort store s .applied).phase = .executing) ∧
      ((stepActor sort store s .applied).waitingForApplyUpdates = false ∨
        s.handed.length < (stepActor sort store s .applied).handed.length) := by
  cases hwait : s.waitingForApplyUpdates with
  | false => simpa [stepActor, hwait] using hph
  | true =>
    simp only [stepActor, hwait, if_true, SequenceActor.applied]
    obtain ⟨-, hsame | hgone, hprogress⟩ := checkUpdates_spec sort { s with
      waitingForApplyUpdates := false
      updateList := s.updateList ++ s.waitingForApplyUpdatesQueue
      waitingForApplyUpdatesQueue := []
      databaseNumber := store s.databaseNumber (s.applying.updates.map UpdateObject.data) }
    · exact ⟨by rw [hsame]; exact hph, hprogress⟩
    · exact ⟨.inl hgone, hprogress⟩

theorem applied_replicate (hph : s.phase = .idle ∨ s.phase = .executing) (n : Nat) :
    let s' := (replicate n SequenceEvent.applied).foldl (stepActor sort store) s
    (s'.phase = .idle ∨ s'.phase = .executing) ∧
      (s'.waitingForApplyUpdates = false ∨
        s.waitingForApplyUpdates = true ∧ s.handed.length + n ≤ s'.handed.length) := by
  induction n with
  | zero =>
    refine ⟨hph, ?_⟩
    cases hwait : s.waitingForApplyUpdates with
    | false => exact .inl hwait
    | true => exact .inr ⟨rfl, Nat.le_refl _⟩
  | succ n ih =>
    obtain ⟨hphase', hprogress⟩ := ih
    rw [replicate_succ', foldl_append]
    refine ⟨(applied_spec sort hphase').1, ?_⟩
    rcases hprogress with hdone | ⟨hwait, hlen⟩
    · refine Or.inl ?_
      simp [stepActor, hdone]
    · refine (applied_spec sort hphase').2.imp_right fun hmore => ⟨hwait, ?_⟩
      exact Nat.lt_of_le_of_lt hlen hmore

theorem ActorInv.settles (h : ActorInv k p s) (hstore : StoresMaximum k p store)
    (hph : s.phase = .idle ∨ s.phase = .executing) {n : Nat} (hn : (updatesOf s.arrived).length ≤ n) :
    ((replicate n SequenceEvent.applied).foldl (stepActor sort store) s).Settled := by
  obtain ⟨hphase', hprogress⟩ := @applied_replicate _ _ _ _ sort store hph n
  refine ⟨hphase', hprogress.resolve_right fun ⟨hwait, hlen⟩ => ?_⟩
  have hinv' := h.steps sort hstore (wellFormed_replicate_applied k n)
  have hbound := hinv'.length_handed_le
  have harrived : requestedGroups (replicate n (SequenceEvent.applied (δ := δ))) = [] := by
    simp [requestedGroups, flatMap_replicate]
  rw [arrived_steps, harrived, append_nil] at hbound
  obtain ⟨-, hsome, before, hhanded, -⟩ := h.waiting hwait
  have hpos : 0 < s.handed.length := by
    rw [hhanded, length_append]
    exact Nat.add_pos_right _ (length_pos_iff.mpr hsome)
  omega

end

/-! ## The result -/

variable [DecidableEq δ]

/-- What is promised for an actor that is created with a stored number and sees these events. -/
structure Sequenced (sort : UpdateSort k) (store : Int32 → List δ → Int32) (p : Int32)
    (events : List (SequenceEvent δ)) : Prop where
  /-- An update is handed over only at the number at which it begins. -/
  chained : Chained k p.toInt (runActor sort store p events).handed
  once : (runActor sort store p events).handed.Pairwise fun update1 update2 =>
    k.number update1.data < k.number update2.data
  requested : ∀ update ∈ (runActor sort store p events).handed, update ∈ updatesOf (requestedGroups events)
  /-- When nothing more comes and the distinct updates form a chain, it is handed over to its end. -/
  finishes : ∀ ds, ChainFrom k.numberInt k.countInt p.toInt ds →
    (∀ d, d ∈ ds ↔ d ∈ (updatesOf (requestedGroups events)).map UpdateObject.data) →
    ∀ n, (updatesOf (requestedGroups events)).length ≤ n →
      let s := runActor sort store p (events ++ .proceed :: List.replicate n .applied)
      s.handed.map UpdateObject.data = ds ∧ s.databaseNumber.toInt = endOf k.numberInt p.toInt ds ∧
        s.phase = .idle ∧ s.updateList = []

theorem sequenced_of_wellFormed (sort : UpdateSort k) {store : Int32 → List δ → Int32} {p : Int32}
    (hstore : StoresMaximum k p store) {events : List (SequenceEvent δ)}
    (hevents : ∀ event ∈ events, WellFormedEvent k event) : Sequenced sort store p events := by
  have hinv : ActorInv k p (runActor sort store p events) := (ActorInv.init k p).steps sort hstore hevents
  have harrived : (runActor sort store p events).arrived = requestedGroups events := arrived_steps sort _ events
  constructor
  case chained => exact hinv.core.chained
  case once =>
    refine (pairwise_map.mp (pairwise_lt hinv.core.chained hinv.core.counts_handed)).imp ?_
    exact fun hlt => lt_iff_toInt_lt.mpr hlt
  case requested => exact fun update hm => harrived ▸ hinv.core.handed update hm
  case finishes =>
    intro ds hds hsame n hn
    have hproceed : ActorInv k p (stepActor sort store (runActor sort store p events) .proceed) :=
      hinv.step sort hstore trivial
    have harrived' :
        (stepActor sort store (runActor sort store p events) .proceed).arrived = requestedGroups events := by
      rw [arrived_stepActor, harrived]
      exact append_nil _
    have hsettled := hproceed.settles sort hstore (phase_proceed sort _) (harrived'.symm ▸ hn)
    have hdone := hproceed.steps sort hstore (wellFormed_replicate_applied k n)
    have hrun : runActor sort store p (events ++ .proceed :: replicate n .applied) =
        (replicate n SequenceEvent.applied).foldl (stepActor sort store)
          (stepActor sort store (runActor sort store p events) .proceed) := foldl_append
    rw [hrun]
    refine hdone.finished hsettled hds fun d => ?_
    rw [hsame d, arrived_steps, harrived']
    simp [requestedGroups, flatMap_replicate]

end

/-- Updates with `pts`, and updates with `qts`, whatever the sort does with equal ones. -/
theorem pts_and_qts_sequenced :
    (∀ (sort : UpdateSort ptsKind) (store : Int32 → List PtsData → Int32) (p : Int32)
        (events : List (SequenceEvent PtsData)),
      StoresMaximum ptsKind p store → (∀ event ∈ events, WellFormedEvent ptsKind event) →
        Sequenced sort store p events) ∧
      ∀ (sort : UpdateSort qtsKind) (store : Int32 → List QtsData → Int32) (p : Int32)
        (events : List (SequenceEvent QtsData)),
      StoresMaximum qtsKind p store → (∀ event ∈ events, WellFormedEvent qtsKind event) →
        Sequenced sort store p events :=
  ⟨fun sort _ _ _ hstore hevents => sequenced_of_wellFormed sort hstore hevents,
    fun sort _ _ _ hstore hevents => sequenced_of_wellFormed sort hstore hevents⟩

def mergeUpdateSort {δ : Type} (k : SequenceKind δ)
    (htrans : ∀ d e f, k.le d e = true → k.le e f = true → k.le d f = true)
    (htotal : ∀ d e, (k.le d e || k.le e d) = true) : UpdateSort k where
  sort := fun updates => updates.mergeSort fun update1 update2 => k.le update1.data update2.data
  perm := fun updates => updates.mergeSort_perm _
  sorted := fun updates => pairwise_mergeSort
    (fun update1 update2 update3 => htrans update1.data update2.data update3.data)
    (fun update1 update2 => htotal update1.data update2.data) updates

theorem ptsKind_le_iff (d e : PtsData) : ptsKind.le d e = true ↔
    d.pts.toInt < e.pts.toInt ∨ d.pts.toInt = e.pts.toInt ∧ e.ptsCount.toInt ≤ d.ptsCount.toInt := by
  simp only [ptsKind]
  split
  case isTrue heq => simp [heq, le_iff_toInt_le]
  case isFalse hne =>
    have hne' : d.pts.toInt ≠ e.pts.toInt := fun heq => hne (toInt_inj.mp heq)
    simp only [decide_eq_true_eq, le_iff_toInt_le]
    omega

/-- The second of two updates comes first, and the first of them comes again while it is applied. -/
theorem pts_and_qts_sequenced_out_of_order :
    ∃ sort : UpdateSort ptsKind,
      Sequenced sort (storedNumber ptsKind) 7
        [.request [⟨1, [⟨2, ⟨10, 2, []⟩⟩], [], []⟩] true, .request [⟨3, [⟨4, ⟨8, 1, []⟩⟩], [], []⟩] true,
          .request [⟨5, [⟨6, ⟨8, 1, []⟩⟩], [], []⟩] true, .applied] := by
  refine ⟨mergeUpdateSort ptsKind ?_ ?_,
    pts_and_qts_sequenced.1 _ _ 7 _ (storesMaximum_storedNumber ptsKind (by decide)) ?_⟩
  · intro d e f hde hef
    rw [ptsKind_le_iff] at hde hef ⊢
    omega
  · intro d e
    rw [Bool.or_eq_true, ptsKind_le_iff, ptsKind_le_iff]
    omega
  · simp [WellFormedEvent, WellFormedGroup, SequenceKind.countInt, ptsKind]

end TelegramClient.Updates
