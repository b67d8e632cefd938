import TelegramClient.Lib.Bytes
import TelegramClient.Lib.Chains

/-!
# The actors that apply updates in sequence

Updates with `pts` (or `qts`) come in groups, in any order and more than once. `TGApplyUpdatesActor` keeps the groups
in a list. A check takes from the sorted updates those that follow the stored number without a gap, hands them to
`_tryApplyingUpdates`, and checks again when they are applied; groups that come in the meantime are parked.

* `SequenceKind` : what is different for `pts` and `qts` (`ptsKind`, `qtsKind`);
* `storedNumber` : what is stored, and `StoresMaximum` : what is asked of it.

What `_tryApplyingUpdates` stores as the new number is a parameter. The timer that a gap starts is left out.
-/

namespace TelegramClient.Updates
open List

/-! ## Updates and groups -/

/-- An object of the runtime. Two objects with the same data are not equal. -/
structure UpdateObject (δ : Type) where
  object : Nat
  data : δ
deriving DecidableEq

/-- `TGUpdatesWithPts` or `TGUpdatesWithQts`. -/
structure UpdatesObject (δ : Type) where
  object : Nat
  updates : List (UpdateObject δ)
  users : List Bytes
  chats : List Bytes
deriving DecidableEq

/-- The number that is sequenced, how many numbers an update covers, and the order of the comparator. -/
structure SequenceKind (δ : Type) where
  number : δ → Int32
  count : δ → Int32
  le : δ → δ → Bool
  number_le : ∀ d e, le d e = true → number d ≤ number e

/-- An update with `pts` and `pts_count`. -/
structure PtsData where
  pts : Int32
  ptsCount : Int32
  content : Bytes
deriving DecidableEq

structure QtsData where
  qts : Int32
  content : Bytes
deriving DecidableEq

/-- By `pts`, and those with the same one by falling `pts_count`. -/
def ptsKind : SequenceKind PtsData where
  number := PtsData.pts
  count := PtsData.ptsCount
  le := fun d e => if d.pts = e.pts then decide (e.ptsCount ≤ d.ptsCount) else decide (d.pts ≤ e.pts)
  number_le := by
    intro d e h
    split at h
    case isTrue heq => exact heq ▸ Int32.le_refl _
    · exact of_decide_eq_true h

def qtsKind : SequenceKind QtsData where
  number := QtsData.qts
  count := fun _ => 1
  le := fun d e => decide (d.qts ≤ e.qts)
  number_le := fun _ _ h => of_decide_eq_true h

section
variable {δ : Type} [DecidableEq δ] (k : SequenceKind δ)

/-- `sortUsingComparator:`. It is not said what happens to updates that compare equal. -/
structure UpdateSort where
  sort : List (UpdateObject δ) → List (UpdateObject δ)
  perm : ∀ updates, (sort updates).Perm updates
  sorted : ∀ updates, (sort updates).Pairwise fun update1 update2 => k.le update1.data update2.data = true

/-! ## A check -/

/-- The loop over the sorted updates: those in order, and those that are expired. It ends at the first gap. -/
def scanUpdates (databaseNumber : Int32) : Int32 → List (UpdateObject δ) → List (UpdateObject δ) × List (UpdateObject δ)
  | _, [] => ([], [])
  | current, update :: updates =>
    if k.number update.data ≤ databaseNumber then
      let (inOrder, expired) := scanUpdates databaseNumber current updates
      (inOrder, update :: expired)
    else if current + k.count update.data = k.number update.data then
      let (inOrder, expired) := scanUpdates databaseNumber (k.number update.data) updates
      (update :: inOrder, expired)
    else ([], [])

/-- `containsObject:` for one of the updates. -/
def isAffected (updates : List (UpdateObject δ)) (group : UpdatesObject δ) : Bool :=
  updates.any fun update => group.updates.contains update

/-- What is left of a group without these updates. -/
def filteredUpdates (updates : List (UpdateObject δ)) (group : UpdatesObject δ) : List (UpdateObject δ) :=
  group.updates.filter fun update => !updates.contains update

/-- Affected groups of which nothing is left are removed. -/
def dropFinished (updates : List (UpdateObject δ)) (updateList : List (UpdatesObject δ)) : List (UpdatesObject δ) :=
  updateList.filter fun group => !(isAffected updates group && (filteredUpdates updates group).length == 0)

/-- What is passed to `_tryApplyingUpdates`. -/
structure AppliedUpdates (δ : Type) where
  updates : List (UpdateObject δ)
  users : List Bytes
  chats : List Bytes

inductive ActorPhase (δ : Type) where
  /-- There is no actor. -/
  | idle
  /-- It waits for its turn, with the groups that it was requested with. -/
  | queued (storedOptions : List (UpdatesObject δ))
  | executing

/-- The actor and the stored number; `arrived` and `handed` are ghosts. -/
structure SequenceActor (δ : Type) where
  phase : ActorPhase δ
  updateList : List (UpdatesObject δ)
  waitingForApplyUpdates : Bool
  waitingForApplyUpdatesQueue : List (UpdatesObject δ)
  databaseNumber : Int32
  applying : AppliedUpdates δ
  arrived : List (UpdatesObject δ)
  /-- All that was passed to `_tryApplyingUpdates`, in this order. -/
  handed : List (UpdateObject δ)

namespace SequenceActor

def init (databaseNumber : Int32) : SequenceActor δ := ⟨.idle, [], false, [], databaseNumber, ⟨[], [], []⟩, [], []⟩

/-- The actor is gone. The next request makes a new one. -/
def completeAction (s : SequenceActor δ) : SequenceActor δ := { s with phase := .idle }

variable {k} (sort : UpdateSort k)

/-- `checkPtsUpdates` and `checkQtsUpdates`. -/
def checkUpdates (s : SequenceActor δ) : SequenceActor δ :=
  if s.updateList = [] then s.completeAction
  else
    let updates := sort.sort (s.updateList.flatMap (·.updates))
    let (inOrder, expired) := scanUpdates k s.databaseNumber s.databaseNumber updates
    let updateList := dropFinished expired s.updateList
    if inOrder ≠ [] then
      let affectedGroups := (updateList.filter (isAffected inOrder)).eraseDups
      { s with
        updateList := dropFinished inOrder updateList
        waitingForApplyUpdates := true
        applying := ⟨inOrder, affectedGroups.flatMap (·.users), affectedGroups.flatMap (·.chats)⟩
        handed := s.handed ++ inOrder }
    else if updateList = [] then { s with updateList := updateList }.completeAction
    else { s with updateList := updateList }

/-- `execute:`. -/
def execute (groups : List (UpdatesObject δ)) (s : SequenceActor δ) : SequenceActor δ :=
  { s with phase := .executing, updateList := s.updateList ++ groups }.checkUpdates sort

/-- `watcherJoined:`. -/
def watcherJoined (groups : List (UpdatesObject δ)) (waitingInActorQueue : Bool) (s : SequenceActor δ) :
    SequenceActor δ :=
  let s :=
    if s.waitingForApplyUpdates then
      { s with waitingForApplyUpdatesQueue := s.waitingForApplyUpdatesQueue ++ groups }
    else { s with updateList := s.updateList ++ groups }
  if !waitingInActorQueue && !s.waitingForApplyUpdates then s.checkUpdates sort else s

/-- `requestActor:`. A new actor is executed at once when no other one is in the queue before it. -/
def request (groups : List (UpdatesObject δ)) (executeNow : Bool) (s : SequenceActor δ) : SequenceActor δ :=
  let s := { s with arrived := s.arrived ++ groups }
  match s.phase with
  | .idle => if executeNow then s.execute sort groups else { s with phase := .queued groups }
  | .queued _ => s.watcherJoined sort groups true
  | .executing => s.watcherJoined sort groups false

/-- The completion of `_tryApplyingUpdates`. -/
def applied (store : Int32 → List δ → Int32) (s : SequenceActor δ) : SequenceActor δ :=
  { s with
    waitingForApplyUpdates := false
    updateList := s.updateList ++ s.waitingForApplyUpdatesQueue
    waitingForApplyUpdatesQueue := []
    databaseNumber := store s.databaseNumber (s.applying.updates.map UpdateObject.data) }.checkUpdates sort

end SequenceActor

/-! ## Events -/

inductive SequenceEvent (δ : Type) where
  | request (groups : List (UpdatesObject δ)) (executeNow : Bool)
  /-- It is the turn of the actor. -/
  | proceed
  | applied

variable {k} (sort : UpdateSort k) (store : Int32 → List δ → Int32)

def stepActor (s : SequenceActor δ) : SequenceEvent δ → SequenceActor δ
  | .request groups executeNow => s.request sort groups executeNow
  | .proceed =>
    match s.phase with
    | .queued storedOptions => s.execute sort storedOptions
    | _ => s
  | .applied => if s.waitingForApplyUpdates then s.applied sort store else s

def runActor (databaseNumber : Int32) (events : List (SequenceEvent δ)) : SequenceActor δ :=
  events.foldl (stepActor sort store) (SequenceActor.init databaseNumber)

/-- From a stored number on, the new number is the highest one that was given. -/
def StoresMaximum (k : SequenceKind δ) (p : Int32) (store : Int32 → List δ → Int32) : Prop :=
  ∀ databaseNumber ds, p ≤ databaseNumber → ds ≠ [] → (∀ d ∈ ds, databaseNumber < k.number d) →
    (∃ d ∈ ds, store databaseNumber ds = k.number d) ∧ ∀ d ∈ ds, k.number d ≤ store databaseNumber ds

/-- `statePts` or `stateQts`, and what `applyPts:date:seq:qts:unreadCount:` makes of it. -/
def storedNumber (k : SequenceKind δ) (databaseNumber : Int32) (ds : List δ) : Int32 :=
  let stateNumber := ds.foldl (fun stateNumber d => if stateNumber < k.number d then k.number d else stateNumber) 0
  if 0 < stateNumber then stateNumber else databaseNumber

omit [DecidableEq δ] in
theorem foldl_highest (k : SequenceKind δ) (ds : List δ) (n : Int32) :
    let highest := ds.foldl (fun stateNumber d => if stateNumber < k.number d then k.number d else stateNumber) n
    (highest = n ∨ ∃ d ∈ ds, highest = k.number d) ∧ n ≤ highest ∧ ∀ d ∈ ds, k.number d ≤ highest := by
  induction ds generalizing n with
  | nil => exact ⟨.inl rfl, Int32.le_refl n, fun d hd => absurd hd not_mem_nil⟩
  | cons d ds ih =>
    rw [foldl_cons]
    by_cases hlt : n < k.number d
    · rw [if_pos hlt]
      obtain ⟨hfrom, hstart, hall⟩ := ih (k.number d)
      refine ⟨Or.inr ?_, Int32.le_trans (Int32.le_of_lt hlt) hstart, forall_mem_cons.mpr ⟨hstart, hall⟩⟩
      rcases hfrom with hfrom | ⟨e, he, hfrom⟩
      · exact ⟨d, mem_cons_self, hfrom⟩
      · exact ⟨e, mem_cons_of_mem d he, hfrom⟩
    · rw [if_neg hlt]
      obtain ⟨hfrom, hstart, hall⟩ := ih n
      have hd := Int32.le_trans (Int32.not_lt.mp hlt) hstart
      refine ⟨hfrom.imp_right ?_, hstart, forall_mem_cons.mpr ⟨hd, hall⟩⟩
      exact fun ⟨e, he, hfrom⟩ => ⟨e, mem_cons_of_mem d he, hfrom⟩

omit [DecidableEq δ] in
theorem storesMaximum_storedNumber (k : SequenceKind δ) {p : Int32} (hp : 0 ≤ p) :
    StoresMaximum k p (storedNumber k) := by
  intro databaseNumber ds hle hne habove
  obtain ⟨hfrom, -, hall⟩ := foldl_highest k ds 0
  obtain ⟨d, hd⟩ := exists_mem_of_ne_nil _ hne
  have hpos : 0 < k.number d := Int32.lt_of_le_of_lt (Int32.le_trans hp hle) (habove d hd)
  have hstate := Int32.lt_of_lt_of_le hpos (hall d hd)
  simp only [storedNumber, if_pos hstate]
  exact ⟨hfrom.resolve_left fun hzero => Int32.lt_irrefl (hzero ▸ hstate), hall⟩

end

end TelegramClient.Updates
