import Mathlib.Data.List.Induction
import Mathlib.Data.List.Sort
import TelegramClient.Lib.Bytes

/-!
# Updates in containers with `seq`

A container covers the numbers from `seqStart` to `seqEnd`. `checkSeqUpdates` applies the containers that follow the stored
number without a gap, and for every other one it starts a timer, which forces a synchronization when it fires.

* `scanSeqUpdates`, `checkSeqUpdates` : the loop over the sorted containers, and the method;
* `dropsStale_iff` : **it happens when there are none**;
* `runSeq_chained` : **what is applied has no gaps, and nothing is lost**.
-/

namespace TelegramClient.Updates
open List

/-- `TGUpdatesWithSeq`, an object of the runtime. -/
structure TGUpdatesWithSeq where
  object : Nat
  updates : List Bytes
  date : Int32
  seqStart : Int32
  seqEnd : Int32
  users : List Bytes
  chats : List Bytes
deriving DecidableEq

/-- `sortedArrayUsingComparator:` by `seqEnd`. It is not said what happens to containers that compare equal. -/
structure SeqSort where
  sort : List TGUpdatesWithSeq → List TGUpdatesWithSeq
  perm : ∀ updateList, (sort updateList).Perm updateList
  sorted : ∀ updateList, (sort updateList).Pairwise fun updates1 updates2 => updates1.seqEnd ≤ updates2.seqEnd

/-- The loop over the sorted containers: those in order, and those for which the timer is started. -/
def scanSeqUpdates : Int32 → List TGUpdatesWithSeq → List TGUpdatesWithSeq × List TGUpdatesWithSeq
  | _, [] => ([], [])
  | currentSeq, updates :: rest =>
    if updates.seqStart = currentSeq + 1 then
      let (inOrder, missing) := scanSeqUpdates updates.seqEnd rest
      (updates :: inOrder, missing)
    else
      let (inOrder, missing) := scanSeqUpdates currentSeq rest
      (inOrder, updates :: missing)

/-- What is passed to `_tryApplyingUpdates`, each update with the date of its container. -/
structure AppliedSeqUpdates where
  updates : List (Bytes × Int32)
  users : List Bytes
  chats : List Bytes
  optionalFinalSeq : Int32
  optionalFinalDate : Int32

/-- The arguments for containers in order. Messages to `nil` return 0. -/
def AppliedSeqUpdates.ofContainers (inOrder : List TGUpdatesWithSeq) : AppliedSeqUpdates :=
  let wrappedUpdates := inOrder.flatMap fun updates => updates.updates.map fun update => (update, updates.date)
  ⟨wrappedUpdates, inOrder.flatMap (·.users), inOrder.flatMap (·.chats), (inOrder.getLast?.map (·.seqEnd)).getD 0,
    (wrappedUpdates.getLast?.map Prod.snd).getD 0⟩

/-- The actor for `withSeq`; `stateUpdates` counts the calls of `stateUpdateRequired`. -/
structure SeqActor where
  updateList : List TGUpdatesWithSeq
  waitingForApplyUpdates : Bool
  waitingForApplyUpdatesQueue : List TGUpdatesWithSeq
  databaseSeq : Int32
  timeoutTimer : Bool
  applying : Option AppliedSeqUpdates
  stateUpdates : Nat
  completed : Bool

namespace SeqActor

def completeAction (s : SeqActor) : SeqActor := { s with completed := true, timeoutTimer := false }

def startTimeoutTimer (s : SeqActor) : SeqActor := { s with timeoutTimer := true }

def failSeq (s : SeqActor) : SeqActor :=
  { s with timeoutTimer := false, stateUpdates := s.stateUpdates + 1 }.completeAction

def timerFired (s : SeqActor) : SeqActor := if s.timeoutTimer then failSeq { s with timeoutTimer := false } else s

variable (sort : SeqSort)

def scan (s : SeqActor) : List TGUpdatesWithSeq × List TGUpdatesWithSeq := scanSeqUpdates s.databaseSeq (sort.sort s.updateList)

def checkSeqUpdates (s : SeqActor) : SeqActor :=
  if s.updateList = [] then s.completeAction
  else
    let (inOrder, missing) := s.scan sort
    let s := if missing = [] then s else s.startTimeoutTimer
    if inOrder ≠ [] then
      { s with
        updateList := s.updateList.filter fun updates => updates ∉ inOrder
        waitingForApplyUpdates := true
        applying := some (.ofContainers inOrder) }
    else if s.updateList = [] then s.completeAction
    else s

/-- `execute:` and `watcherJoined:` of an actor whose turn it is. -/
def join (groups : List TGUpdatesWithSeq) (s : SeqActor) : SeqActor :=
  if s.waitingForApplyUpdates then { s with waitingForApplyUpdatesQueue := s.waitingForApplyUpdatesQueue ++ groups }
  else { s with updateList := s.updateList ++ groups }.checkSeqUpdates sort

/-- The completion of `_tryApplyingUpdates`, with the number that is stored then. -/
def applied (success : Bool) (databaseSeq : Int32) (s : SeqActor) : SeqActor :=
  let s := { s with
    waitingForApplyUpdates := false
    updateList := s.updateList ++ s.waitingForApplyUpdatesQueue
    waitingForApplyUpdatesQueue := []
    databaseSeq := databaseSeq
    applying := none }
  if success then s.checkSeqUpdates sort else s.failSeq

end SeqActor

/-! ## The loop -/

theorem mem_scanSeqUpdates {currentSeq : Int32} {l : List TGUpdatesWithSeq} {updates : TGUpdatesWithSeq} :
    updates ∈ l ↔ updates ∈ (scanSeqUpdates currentSeq l).1 ∨ updates ∈ (scanSeqUpdates currentSeq l).2 := by
  induction l generalizing currentSeq with
  | nil => simp [scanSeqUpdates]
  | cons first rest ih =>
    rw [scanSeqUpdates]
    split
    · rw [mem_cons, mem_cons, @ih first.seqEnd, or_assoc]
    · rw [mem_cons, mem_cons, @ih currentSeq, or_left_comm]

/-- Containers that follow a number without a gap. -/
def SeqChained : Int32 → List TGUpdatesWithSeq → Prop
  | _, [] => True
  | seq, updates :: rest => updates.seqStart = seq + 1 ∧ SeqChained updates.seqEnd rest

/-! ## Containers that were applied before -/

def TGUpdatesWithSeq.Stale (seq : Int32) (updates : TGUpdatesWithSeq) : Prop := updates.seqEnd ≤ seq

instance (seq : Int32) (updates : TGUpdatesWithSeq) : Decidable (updates.Stale seq) :=
  inferInstanceAs (Decidable (updates.seqEnd ≤ seq))

section
variable (sort : SeqSort) {s : SeqActor}

/-- A check drops the containers that are not above the stored number, and without other ones no synchronization is
forced. -/
structure DropsStale (s : SeqActor) : Prop where
  notApplied : ∀ updates ∈ s.updateList, updates.Stale s.databaseSeq → updates ∉ (s.scan sort).1
  notMissing : ∀ updates ∈ s.updateList, updates.Stale s.databaseSeq → updates ∉ (s.scan sort).2
  notLeft : ∀ updates ∈ s.updateList, updates.Stale s.databaseSeq → updates ∉ (s.checkSeqUpdates sort).updateList
  noStateUpdate : (∀ updates ∈ s.updateList, updates.Stale s.databaseSeq) →
    (s.checkSeqUpdates sort).timerFired.stateUpdates = s.stateUpdates

theorem mem_scan {updates : TGUpdatesWithSeq} :
    updates ∈ s.updateList ↔ updates ∈ (s.scan sort).1 ∨ updates ∈ (s.scan sort).2 := by
  rw [← (sort.perm s.updateList).mem_iff]
  exact mem_scanSeqUpdates

theorem checkSeqUpdates_nil (h : s.updateList = []) : s.checkSeqUpdates sort = s.completeAction := if_pos h

/-- **Stale containers are dropped** by a check exactly when there are none. -/
theorem dropsStale_iff (s : SeqActor) :
    DropsStale sort s ↔ ∀ updates ∈ s.updateList, s.databaseSeq < updates.seqEnd := by
  constructor
  · intro h updates hmem
    by_contra hstale
    have hstale' : updates.Stale s.databaseSeq := Int32.not_lt.mp hstale
    rcases (mem_scan sort).mp hmem with hinOrder | hmissing
    · exact h.notApplied updates hmem hstale' hinOrder
    · exact h.notMissing updates hmem hstale' hmissing
  · intro h
    have hnot (updates : TGUpdatesWithSeq) (hmem : updates ∈ s.updateList) : ¬updates.Stale s.databaseSeq :=
      Int32.not_le.mpr (h updates hmem)
    refine ⟨fun updates hmem hstale => absurd hstale (hnot updates hmem),
      fun updates hmem hstale => absurd hstale (hnot updates hmem),
      fun updates hmem hstale => absurd hstale (hnot updates hmem), fun hall => ?_⟩
    have hnil : s.updateList = [] :=
      eq_nil_iff_forall_not_mem.mpr fun updates hmem => hnot updates hmem (hall updates hmem)
    rw [checkSeqUpdates_nil sort hnil]
    rfl

end

/-! ## Runs -/

/-- The number that `applyPts:date:seq:qts:unreadCount:` stores after a batch. -/
def storedSeq (seq : Int32) (batch : List TGUpdatesWithSeq) : Int32 :=
  let optionalFinalSeq := (AppliedSeqUpdates.ofContainers batch).optionalFinalSeq
  if 0 < optionalFinalSeq then optionalFinalSeq else seq

/-- Each batch follows without a gap the number that is stored after the ones before. -/
def BatchesChained : Int32 → List (List TGUpdatesWithSeq) → Prop
  | _, [] => True
  | seq, batch :: batches => SeqChained seq batch ∧ BatchesChained (storedSeq seq batch) batches

inductive SeqEvent where
  | join (groups : List TGUpdatesWithSeq)
  | applied (success : Bool)
  | timerFired

/-- An actor, the containers that have come to it, those that are being applied, and the batches that were. -/
structure SeqRun where
  actor : SeqActor
  joined : List TGUpdatesWithSeq
  batch : List TGUpdatesWithSeq
  applied : List (List TGUpdatesWithSeq)

section
variable (sort : SeqSort)

/-- Nothing joins an actor that has completed, and the completion of a batch comes once. -/
def SeqRun.step (r : SeqRun) : SeqEvent → SeqRun
  | .join groups =>
    if r.actor.completed then r
    else
      { r with
        actor := r.actor.join sort groups
        joined := r.joined ++ groups
        batch := if r.actor.waitingForApplyUpdates then r.batch
          else ({ r.actor with updateList := r.actor.updateList ++ groups }.scan sort).1 }
  | .applied success =>
    if r.actor.waitingForApplyUpdates then
      let s := r.actor
      if success then
        let databaseSeq := storedSeq s.databaseSeq r.batch
        { r with
          actor := s.applied sort true databaseSeq
          batch := (scanSeqUpdates databaseSeq (sort.sort (s.updateList ++ s.waitingForApplyUpdatesQueue))).1
          applied := r.applied ++ [r.batch] }
      else { r with actor := s.applied sort false s.databaseSeq, batch := [] }
    else r
  | .timerFired => { r with actor := r.actor.timerFired }

def runSeq (seq : Int32) (events : List SeqEvent) : SeqRun :=
  events.foldl (SeqRun.step sort) ⟨⟨[], false, [], seq, false, none, 0, false⟩, [], [], []⟩

structure SeqInv (seq : Int32) (r : SeqRun) : Prop where
  idle : r.actor.waitingForApplyUpdates = false → r.actor.waitingForApplyUpdatesQueue = [] ∧ r.batch = []
  stored : r.actor.databaseSeq = r.applied.foldl storedSeq seq
  chained : BatchesChained seq r.applied ∧ SeqChained r.actor.databaseSeq r.batch
  kept : r.actor.stateUpdates = 0 → ∀ updates ∈ r.joined, updates ∈ r.actor.updateList ∨
    updates ∈ r.actor.waitingForApplyUpdatesQueue ∨ updates ∈ r.batch ∨ updates ∈ r.applied.flatten
  done : r.actor.completed = true → r.actor.stateUpdates = 0 →
    r.actor.updateList = [] ∧ r.actor.waitingForApplyUpdates = false

variable {sort} {seq : Int32}

theorem seqChained_scan (seq : Int32) (l : List TGUpdatesWithSeq) : SeqChained seq (scanSeqUpdates seq l).1 := by
  induction l generalizing seq with
  | nil => trivial
  | cons first rest ih =>
    rw [scanSeqUpdates]
    split
    case isTrue h => exact ⟨h, ih first.seqEnd⟩
    case isFalse => exact ih seq

theorem batchesChained_append {batches : List (List TGUpdatesWithSeq)} {batch : List TGUpdatesWithSeq}
    (h : BatchesChained seq batches) (hbatch : SeqChained (batches.foldl storedSeq seq) batch) :
    BatchesChained seq (batches ++ [batch]) := by
  induction batches generalizing seq with
  | nil => exact ⟨hbatch, trivial⟩
  | cons first rest ih => exact ⟨h.1, ih h.2 hbatch⟩

/-- A check by an actor that is not waiting. -/
theorem SeqInv.check {s : SeqActor} {joined : List TGUpdatesWithSeq} {applied : List (List TGUpdatesWithSeq)}
    (hidle : s.waitingForApplyUpdates = false ∧ s.waitingForApplyUpdatesQueue = [])
    (hstored : s.databaseSeq = applied.foldl storedSeq seq) (hchained : BatchesChained seq applied)
    (hkept : s.stateUpdates = 0 → ∀ updates ∈ joined, updates ∈ s.updateList ∨ updates ∈ applied.flatten)
    (hdone : s.completed = true → s.stateUpdates ≠ 0) :
    SeqInv seq ⟨s.checkSeqUpdates sort, joined, (s.scan sort).1, applied⟩ := by
  have hscan : SeqChained s.databaseSeq (s.scan sort).1 := seqChained_scan _ _
  by_cases hnil : s.updateList = []
  · have hempty : (s.scan sort).1 = [] :=
      eq_nil_iff_forall_not_mem.mpr fun updates h => by simpa [hnil] using (mem_scan sort).mpr (Or.inl h)
    rw [checkSeqUpdates_nil sort hnil, hempty]
    exact ⟨fun _ => ⟨hidle.2, rfl⟩, hstored, ⟨hchained, trivial⟩,
      fun h updates hm => (hkept h updates hm).imp_right fun h => .inr (.inr h), fun _ _ => ⟨hnil, hidle.1⟩⟩
  unfold SeqActor.checkSeqUpdates
  rw [if_neg hnil]
  dsimp only
  generalize (s.scan sort).2 = missing
  generalize (s.scan sort).1 = inOrder at hscan
  have htimer : ∃ timer, (if missing = [] then s else s.startTimeoutTimer) = { s with timeoutTimer := timer } := by
    split
    · exact ⟨s.timeoutTimer, rfl⟩
    · exact ⟨true, rfl⟩
  obtain ⟨timer, htimer⟩ := htimer
  rw [htimer]
  by_cases hinOrder : inOrder = []
  · rw [if_neg (not_not.mpr hinOrder), if_neg hnil]
    exact ⟨fun _ => ⟨hidle.2, hinOrder⟩, hstored, ⟨hchained, hscan⟩,
      fun h updates hm => (hkept h updates hm).imp_right fun h => .inr (.inr h), fun hc h => absurd h (hdone hc)⟩
  · rw [if_pos hinOrder]
    refine ⟨nofun, hstored, ⟨hchained, hscan⟩, fun h updates hm => ?_, fun hc h => absurd h (hdone hc)⟩
    rcases hkept h updates hm with hl | hflat
    · by_cases hin : updates ∈ inOrder
      · exact .inr (.inr (.inl hin))
      · exact .inl (mem_filter.mpr ⟨hl, decide_eq_true hin⟩)
    · exact .inr (.inr (.inr hflat))

theorem SeqInv.step {r : SeqRun} (h : SeqInv seq r) (event : SeqEvent) : SeqInv seq (r.step sort event) := by
  cases event with
  | join groups =>
    unfold SeqRun.step SeqActor.join
    dsimp only
    split
    case isTrue => exact h
    case isFalse hcompleted =>
      cases hwaiting : r.actor.waitingForApplyUpdates with
      | true =>
        refine ⟨nofun, h.stored, h.chained, fun hs updates hm => ?_, fun hc => absurd hc hcompleted⟩
        rcases mem_append.mp hm with hm | hm
        · exact (h.kept hs updates hm).imp_right fun h => h.imp_left fun h => mem_append_left _ h
        · exact .inr (.inl (mem_append_right _ hm))
      | false =>
        obtain ⟨hqueue, hbatch⟩ := h.idle hwaiting
        refine SeqInv.check ⟨rfl, hqueue⟩ h.stored h.chained.1 (fun hs updates hm => ?_) fun hc => absurd hc hcompleted
        rcases mem_append.mp hm with hm | hm
        · have hold := h.kept hs updates hm
          rw [hqueue, hbatch] at hold
          exact hold.imp (mem_append_left _) fun h => by simpa using h
        · exact .inl (mem_append_right _ hm)
  | applied success =>
    unfold SeqRun.step
    dsimp only
    split
    case isFalse => exact h
    case isTrue hwaiting =>
      have hnot : r.actor.completed = true → r.actor.stateUpdates ≠ 0 := fun hc hs =>
        absurd (hwaiting.symm.trans (h.done hc hs).2) nofun
      cases success with
      | true =>
        have hbatches := batchesChained_append h.chained.1 (h.stored ▸ h.chained.2)
        refine SeqInv.check ⟨rfl, rfl⟩ ?_ hbatches (fun hs updates hm => ?_) hnot
        · rw [foldl_append, ← h.stored]
          rfl
        · rw [flatten_append, flatten_singleton, mem_append, mem_append]
          have hold := h.kept hs updates hm
          tauto
      | false =>
        exact ⟨fun _ => ⟨rfl, rfl⟩, h.stored, ⟨h.chained.1, trivial⟩, nofun, nofun⟩
  | timerFired =>
    unfold SeqRun.step SeqActor.timerFired
    dsimp only
    split
    · exact ⟨h.idle, h.stored, h.chained, nofun, nofun⟩
    · exact h

variable (sort) (seq)

/-- **What is applied follows the stored number without a gap**, in every run, and without a forced synchronization
nothing is lost: an actor that completes has applied all that came to it. -/
theorem runSeq_chained (events : List SeqEvent) :
    let r := runSeq sort seq events
    BatchesChained seq (r.applied ++ [r.batch]) ∧ r.actor.databaseSeq = r.applied.foldl storedSeq seq ∧
      (r.actor.completed = true → r.actor.stateUpdates = 0 → ∀ updates ∈ r.joined, updates ∈ r.applied.flatten) := by
  have hrun : SeqInv seq (runSeq sort seq events) := by
    induction events using List.reverseRecOn with
    | nil => exact ⟨fun _ => ⟨rfl, rfl⟩, rfl, ⟨trivial, trivial⟩, fun _ => nofun, nofun⟩
    | append_singleton events event ih =>
      rw [runSeq, foldl_append]
      exact ih.step event
  refine ⟨batchesChained_append hrun.chained.1 (hrun.stored ▸ hrun.chained.2), hrun.stored, fun hc hs updates hm => ?_⟩
  obtain ⟨hnil, hwaiting⟩ := hrun.done hc hs
  obtain ⟨hqueue, hbatch⟩ := hrun.idle hwaiting
  have hkept := hrun.kept hs updates hm
  rw [hnil, hqueue, hbatch] at hkept
  simpa using hkept

end

/-- A sort that keeps the order of containers that compare equal. -/
def stableSeqSort : SeqSort where
  sort := List.insertionSort fun updates1 updates2 => updates1.seqEnd ≤ updates2.seqEnd
  perm := perm_insertionSort _
  sorted updateList :=
    haveI : Std.Total fun updates1 updates2 : TGUpdatesWithSeq => updates1.seqEnd ≤ updates2.seqEnd :=
      ⟨fun updates1 updates2 => Int32.le_total updates1.seqEnd updates2.seqEnd⟩
    haveI : IsTrans TGUpdatesWithSeq fun updates1 updates2 => updates1.seqEnd ≤ updates2.seqEnd :=
      ⟨fun _ _ _ h h' => Int32.le_trans h h'⟩
    pairwise_insertionSort _ updateList

/-- An actor to which a container comes that was applied before. -/
def redelivered : SeqActor := ⟨[⟨1, [], 0, 5, 5, [], []⟩], false, [], 5, false, none, 0, false⟩

/-- The container stays. -/
theorem redelivered_not_dropped : ¬DropsStale stableSeqSort redelivered := fun h =>
  h.notLeft ⟨1, [], 0, 5, 5, [], []⟩ mem_cons_self (by decide) (by decide)

end TelegramClient.Updates
