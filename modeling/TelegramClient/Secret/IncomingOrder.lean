import TelegramClient.Secret.IncomingQueue
import Mathlib.Data.List.Induction
import Mathlib.Data.List.Sort

/-!
# The order of the messages of a secret chat

* `LoopSpec` : what one poll hands on and drops;
* `QueueInv`, `QueueInv.run` : the invariant of runs where every poll does so;
* `runQueue_inOrder` : **messages are handed on in turn**, and dropped only with one of their number handed on;
* `runQueue_atMostOnce` : **nothing is handed on twice**; `handed_twice`: polls that overlap do it.
-/

namespace TelegramClient.Secret
open List
open StoredAction (actionId)

/-! ## One poll -/

theorem seqOut_lt (message : DecryptedMessage) : message.seqOut < 2 ^ 30 := by
  have hlt : message.outSeqNo.toInt ≤ 2 ^ 31 - 1 := by
    have := BitVec.toInt_lt (x := message.outSeqNo)
    omega
  have hdiv := Int.tdiv_le_tdiv (show (0 : Int) < 2 by decide) hlt
  have hhalf : Int.tdiv (2 ^ 31 - 1) 2 = 2 ^ 30 - 1 := by decide
  unfold DecryptedMessage.seqOut
  omega

theorem int32_of_le {value : Int} (h₀ : 0 ≤ value) (h₁ : value ≤ 2 ^ 30) : int32 value = value := by
  unfold int32
  rw [Int.bmod_eq_of_le] <;> omega

/-- The numbers from `n` on. -/
def numbersFrom (n : Int) (count : Nat) : List Int := (List.range count).map fun i : Nat => n + (i : Int)

variable (n : Int) (count : Nat)

theorem numbersFrom_succ : numbersFrom n (count + 1) = numbersFrom n count ++ [n + (count : Int)] := by
  rw [numbersFrom, range_succ, map_append]
  rfl

theorem numbersFrom_add (count' : Nat) :
    numbersFrom n count ++ numbersFrom (n + (count : Int)) count' = numbersFrom n (count + count') := by
  induction count' with
  | zero => simp [numbersFrom]
  | succ count' ih =>
    rw [numbersFrom_succ, ← append_assoc, ih, ← Nat.add_assoc, numbersFrom_succ]
    congr 2
    push_cast
    omega

theorem nodup_numbersFrom : (numbersFrom n count).Nodup := by
  apply List.Nodup.map _ nodup_range
  intro i j hij
  simpa using hij

theorem mem_numbersFrom {n m : Int} {count : Nat} : m ∈ numbersFrom n count ↔ n ≤ m ∧ m < n + (count : Int) := by
  unfold numbersFrom
  rw [mem_map]
  constructor
  · rintro ⟨i, hi, rfl⟩
    have := mem_range.mp hi
    omega
  · rintro ⟨hle, hlt⟩
    refine ⟨(m - n).toNat, mem_range.mpr (by omega), by omega⟩

/-- The numbers of the messages whose turn it was. -/
def turnsOf (processed : List (StoredAction × Bool)) : List Int :=
  (processed.filter Prod.snd).map fun p => p.1.message.seqOut

/-- What the loop has done with the messages that it has considered. -/
structure LoopSpec (n : Int) (considered : List StoredAction) (state : PollState) : Prop where
  sequence : ∃ count : Nat, state.nextExpectedSeqOut = n + (count : Int) ∧
    turnsOf state.actionsToProcess = numbersFrom n count
  bound : state.nextExpectedSeqOut ≤ 2 ^ 30
  processed : (state.actionsToProcess.map Prod.fst).Sublist considered
  removed : state.removedActions.Sublist considered
  stale : ∀ action ∈ state.removedActions, action.message.seqOut < state.nextExpectedSeqOut

section
variable {parseDecryptedAction : DecryptedMessage → Option ServiceAction}

variable {n : Int}

variable {considered : List StoredAction} {state : PollState}

theorem LoopSpec.takeInSequence (hn : 0 ≤ n) (h : LoopSpec n considered state) (action : StoredAction) :
    LoopSpec n (considered ++ [action]) (takeInSequence parseDecryptedAction action state) := by
  obtain ⟨count, hcnt, hturns⟩ := h.sequence
  have hkept : considered.Sublist (considered ++ [action]) := sublist_append_left _ _
  unfold Secret.takeInSequence
  dsimp only
  split
  next hnext =>
      have hlt := seqOut_lt action.message
      have hsucc : int32 (state.nextExpectedSeqOut + 1) = state.nextExpectedSeqOut + 1 :=
        int32_of_le (by omega) (by omega)
      refine ⟨⟨count + 1, ?_, ?_⟩, ?_, ?_, h.removed.trans hkept, ?_⟩
      · rw [hsucc, hcnt]
        push_cast
        omega
      · rw [numbersFrom_succ, ← hturns, ← hcnt, ← hnext, turnsOf, filter_append, map_append]
        rfl
      · show int32 (state.nextExpectedSeqOut + 1) ≤ 2 ^ 30
        omega
      · rw [map_append]
        exact h.processed.append (List.Sublist.refl _)
      · intro other hother
        show other.message.seqOut < int32 (state.nextExpectedSeqOut + 1)
        have := h.stale other hother
        omega
  next =>
      split
      next hstale =>
          refine ⟨⟨count, hcnt, hturns⟩, h.bound, h.processed.trans hkept,
            h.removed.append (List.Sublist.refl _), ?_⟩
          intro other hother
          rcases mem_append.mp hother with hother | hother
          · exact h.stale other hother
          · rw [mem_singleton.mp hother]
            exact hstale
      next =>
          split
          · refine ⟨⟨count, hcnt, ?_⟩, h.bound, ?_, h.removed.trans hkept, h.stale⟩
            · rw [← hturns, turnsOf, filter_append, map_append]
              exact append_nil _
            · rw [map_append]
              exact h.processed.append (List.Sublist.refl _)
          · exact ⟨⟨count, hcnt, hturns⟩, h.bound, h.processed.trans hkept, h.removed.trans hkept, h.stale⟩

theorem LoopSpec.considerAction (hn : 0 ≤ n) (h : LoopSpec n considered state) (action : StoredAction) :
    LoopSpec n (considered ++ [action]) (considerAction parseDecryptedAction state action) := by
  unfold Secret.considerAction
  split
  · exact h.takeInSequence hn action
  · split
    · have hlayer : LoopSpec n considered { state with currentPeerLayer := action.message.layer } :=
        ⟨h.sequence, h.bound, h.processed, h.removed, h.stale⟩
      exact hlayer.takeInSequence hn action
    · obtain ⟨count, hcnt, hturns⟩ := h.sequence
      refine ⟨⟨count, hcnt, ?_⟩, h.bound, ?_, h.removed.trans (sublist_append_left _ _), h.stale⟩
      · rw [← hturns, turnsOf, filter_append, map_append]
        exact append_nil _
      · rw [map_append]
        exact h.processed.append (List.Sublist.refl _)

/-- **The loop** hands on the numbers from the expected one without a gap. -/
theorem pollLoop_spec (parseDecryptedAction : DecryptedMessage → Option ServiceAction) (hn : 0 ≤ n)
    (hbound : n ≤ 2 ^ 30) (peerLayer : Nat) (actions : List StoredAction) :
    LoopSpec n actions (pollLoop parseDecryptedAction n peerLayer actions) := by
  induction actions using List.reverseRecOn with
  | nil => exact ⟨⟨0, by simp [pollLoop], rfl⟩, hbound, List.Sublist.refl _, List.Sublist.refl _, by simp [pollLoop]⟩
  | append_singleton actions action ih =>
    rw [pollLoop, foldl_append]
    exact ih.considerAction hn action

theorem pollLoop_outOfTurn (parseDecryptedAction : DecryptedMessage → Option ServiceAction) {peerLayer : Nat}
    (hlayer : 17 ≤ peerLayer) (actions : List StoredAction) :
    17 ≤ (pollLoop parseDecryptedAction n peerLayer actions).currentPeerLayer ∧
      ∀ p ∈ (pollLoop parseDecryptedAction n peerLayer actions).actionsToProcess, p.2 = false →
        isResendAction parseDecryptedAction p.1.message = true := by
  induction actions using List.reverseRecOn with
  | nil => exact ⟨hlayer, by simp [pollLoop]⟩
  | append_singleton actions action ih =>
    obtain ⟨ihlayer, ih⟩ := ih
    rw [pollLoop, foldl_append]
    change 17 ≤ (considerAction parseDecryptedAction (pollLoop parseDecryptedAction n peerLayer actions)
      action).currentPeerLayer ∧ ∀ p ∈ (considerAction parseDecryptedAction
        (pollLoop parseDecryptedAction n peerLayer actions) action).actionsToProcess, _
    rw [considerAction, if_pos ihlayer]
    unfold takeInSequence
    dsimp only
    split
    · refine ⟨ihlayer, ?_⟩
      intro p hp hturn
      rcases mem_append.mp hp with hp | hp
      · exact ih p hp hturn
      · rw [mem_singleton.mp hp] at hturn
        cases hturn
    · split
      · exact ⟨ihlayer, ih⟩
      · split
        next hresend =>
            refine ⟨ihlayer, ?_⟩
            intro p hp hturn
            rcases mem_append.mp hp with hp | hp
            · exact ih p hp hturn
            · rw [mem_singleton.mp hp]
              exact hresend
        next => exact ⟨ihlayer, ih⟩

end

/-! ## Jobs that wait -/

def DatabaseJob.deletes : DatabaseJob → List ActionId
  | .deleteActions actionIds => actionIds.map fun value => ⟨.generic, value⟩
  | .deleteEncryptedActions actionIds => actionIds.map fun value => ⟨.encrypted, value⟩
  | _ => []

def DatabaseJob.writes : DatabaseJob → List Int
  | .applySeqIn seqIn => [seqIn]
  | _ => []

def DatabaseJob.isWrite : DatabaseJob → Bool
  | .deleteActions _ => true
  | .deleteEncryptedActions _ => true
  | .applySeqIn _ => true
  | _ => false

variable {job : DatabaseJob}

theorem deletes_of_not_isWrite (h : job.isWrite = false) : job.deletes = [] := by
  cases job <;> first | rfl | cases h

theorem writes_of_not_isWrite (h : job.isWrite = false) : job.writes = [] := by
  cases job <;> first | rfl | cases h

def IncomingQueue.pendingDeletes (s : IncomingQueue) : List ActionId := s.databaseQueue.flatMap DatabaseJob.deletes

/-- The number that is stored, and those that will be. -/
def IncomingQueue.seqIns (s : IncomingQueue) : List Int := s.seqIn :: s.databaseQueue.flatMap DatabaseJob.writes

/-- The number that is stored when all jobs are done. -/
def IncomingQueue.finalSeqIn (s : IncomingQueue) : Int := s.seqIns.getLast (cons_ne_nil _ _)

def IncomingQueue.storedIds (s : IncomingQueue) : List ActionId :=
  (s.rows.map fun row => ⟨.generic, row.1⟩) ++ s.encryptedRows.map fun row => ⟨.encrypted, row.1⟩

def IncomingQueue.Issued (s : IncomingQueue) (id : ActionId) : Prop :=
  match id.type with
  | .generic => id.value < s.nextActionId
  | .encrypted => id.value < s.nextEncryptedActionId

def Snapshot.ids (snapshot : Snapshot) : List ActionId :=
  snapshot.actions.map StoredAction.actionId ++ snapshot.encryptedActions.map fun row => ⟨.encrypted, row.1⟩

/-- A poll takes its snapshot when all that earlier polls write is written. -/
def takesAlone (s : IncomingQueue) : QueueEvent → Bool
  | .runDatabase =>
    match s.databaseQueue with
    | .dequeue :: jobs => s.stageQueue.isEmpty && jobs.all fun job => !job.isWrite
    | _ => true
  | _ => true

theorem takesAlone_dequeue {s : IncomingQueue} {jobs : List DatabaseJob} (hq : s.databaseQueue = .dequeue :: jobs)
    (h : takesAlone s .runDatabase = true) : s.stageQueue = [] ∧ ∀ job ∈ jobs, job.isWrite = false := by
  unfold takesAlone at h
  rw [hq] at h
  simpa using h

/-! ## The invariant -/

def HandedMessage.id (message : HandedMessage) : ActionId := message.action.actionId

/-- The numbers of the messages whose turn it was, over the whole run. -/
def IncomingQueue.turns (s : IncomingQueue) : List Int :=
  (s.handed.filter HandedMessage.inTurn).map fun message => message.action.message.seqOut

/-- The tables, and what has been handed on, where at most one poll is between its snapshot and its writes. -/
structure QueueInv (parseDecryptedAction : DecryptedMessage → Option ServiceAction) (s : IncomingQueue) : Prop where
  stored : s.storedIds.Nodup
  storedIssued : ∀ id ∈ s.storedIds, s.Issued id
  deletesIssued : ∀ id ∈ s.pendingDeletes, s.Issued id
  handedIssued : ∀ message ∈ s.handed, s.Issued message.id
  handedNodup : (s.handed.map HandedMessage.id).Nodup
  /-- A message that was handed on is deleted, or will be. -/
  gone : ∀ message ∈ s.handed, message.id ∈ s.storedIds → message.id ∈ s.pendingDeletes
  sequence : ∃ count : Nat, s.finalSeqIn = (count : Int) ∧ count ≤ 2 ^ 30 ∧ s.turns = numbersFrom 0 count
  seqIns : s.seqIns.Pairwise (· ≤ ·)
  applied : s.applied.Pairwise (· ≤ ·) ∧ ∀ value ∈ s.applied, value ≤ s.seqIn
  snapshot : s.stageQueue = [] ∨ ∃ snapshot, s.stageQueue = [snapshot] ∧
    (∀ job ∈ s.databaseQueue, job.isWrite = false) ∧ snapshot.nextExpectedSeqOut = s.seqIn ∧ snapshot.ids.Nodup ∧
    ∀ id ∈ snapshot.ids, id ∈ s.storedIds
  dropped : ∀ message ∈ s.dropped, message.storedSeqIn ≤ message.action.message.seqOut →
    ∃ other ∈ s.handed, other.poll = message.poll ∧ other.action.message.seqOut = message.action.message.seqOut
  executed : s.executed = s.handed.filterMap fun message =>
    (parseDecryptedAction message.action.message).map fun action => (message.id, action)

section
variable {parseDecryptedAction : DecryptedMessage → Option ServiceAction}

theorem queueInv_init : QueueInv parseDecryptedAction initQueue where
  stored := by simp [initQueue, IncomingQueue.storedIds]
  storedIssued := by simp [initQueue, IncomingQueue.storedIds]
  deletesIssued := by simp [initQueue, IncomingQueue.pendingDeletes]
  handedIssued := by simp [initQueue]
  handedNodup := by simp [initQueue]
  gone := by simp [initQueue]
  sequence := ⟨0, rfl, by decide, rfl⟩
  seqIns := by simp [initQueue, IncomingQueue.seqIns]
  applied := by simp [initQueue]
  snapshot := .inl rfl
  dropped := by simp [initQueue]
  executed := rfl

variable {s s' : IncomingQueue}

theorem finalSeqIn_congr (h : s'.seqIns = s.seqIns) : s'.finalSeqIn = s.finalSeqIn := by
  unfold IncomingQueue.finalSeqIn
  congr 1

theorem QueueInv.withTables (h : QueueInv parseDecryptedAction s) (hseqIns : s'.seqIns = s.seqIns)
    (hseqIn : s'.seqIn = s.seqIn) (hhanded : s'.handed = s.handed) (happlied : s'.applied = s.applied)
    (hdropped : s'.dropped = s.dropped) (hexec : s'.executed = s.executed)
    (hissued : ∀ id, s.Issued id → s'.Issued id) (hstor : s'.storedIds.Nodup)
    (hstoredIssued : ∀ id ∈ s'.storedIds, s'.Issued id) (hdeletes : ∀ id ∈ s'.pendingDeletes, s.Issued id)
    (hgone : ∀ message ∈ s.handed, message.id ∈ s'.storedIds → message.id ∈ s'.pendingDeletes)
    (hsnap : s'.stageQueue = [] ∨ ∃ snapshot, s'.stageQueue = [snapshot] ∧
      (∀ job ∈ s'.databaseQueue, job.isWrite = false) ∧ snapshot.nextExpectedSeqOut = s.seqIn ∧ snapshot.ids.Nodup ∧
      ∀ id ∈ snapshot.ids, id ∈ s'.storedIds) : QueueInv parseDecryptedAction s' where
  stored := hstor
  storedIssued := hstoredIssued
  deletesIssued id hid := hissued id (hdeletes id hid)
  handedIssued := by
    rw [hhanded]
    exact fun message hmsg => hissued _ (h.handedIssued message hmsg)
  handedNodup := by
    rw [hhanded]
    exact h.handedNodup
  gone := by
    rw [hhanded]
    exact hgone
  sequence := by
    rw [finalSeqIn_congr hseqIns, IncomingQueue.turns, hhanded]
    exact h.sequence
  seqIns := by
    rw [hseqIns]
    exact h.seqIns
  applied := by
    rw [happlied, hseqIn]
    exact h.applied
  snapshot := by
    rw [hseqIn]
    exact hsnap
  dropped := by
    rw [hdropped, hhanded]
    exact h.dropped
  executed := by
    rw [hexec, hhanded]
    exact h.executed

variable {jobs : List DatabaseJob}

theorem QueueInv.withJobs (h : QueueInv parseDecryptedAction s)
    (hdeletes : jobs.flatMap DatabaseJob.deletes = s.databaseQueue.flatMap DatabaseJob.deletes)
    (hwrites : jobs.flatMap DatabaseJob.writes = s.databaseQueue.flatMap DatabaseJob.writes)
    (hjobs : (∀ job ∈ s.databaseQueue, job.isWrite = false) → ∀ job ∈ jobs, job.isWrite = false) :
    QueueInv parseDecryptedAction { s with databaseQueue := jobs } := by
  have hdeletes' : IncomingQueue.pendingDeletes { s with databaseQueue := jobs } = s.pendingDeletes := hdeletes
  have hseqIns : IncomingQueue.seqIns { s with databaseQueue := jobs } = s.seqIns := congrArg (s.seqIn :: ·) hwrites
  apply h.withTables hseqIns rfl rfl rfl rfl rfl (fun _ hid => hid) h.stored h.storedIssued
  · rw [hdeletes']
    exact h.deletesIssued
  · rw [hdeletes']
    exact h.gone
  · rcases h.snapshot with hnone | ⟨snapshot, hsnap, hall, hrest⟩
    · exact .inl hnone
    · exact .inr ⟨snapshot, hsnap, hjobs hall, hrest⟩

variable {job : DatabaseJob}

section
variable (h : QueueInv parseDecryptedAction s)
include h

theorem QueueInv.enqueue (hjob : job.isWrite = false) :
    QueueInv parseDecryptedAction { s with databaseQueue := s.databaseQueue ++ [job] } := by
  apply h.withJobs
  · simp [deletes_of_not_isWrite hjob]
  · simp [writes_of_not_isWrite hjob]
  · intro hall other hother
    rcases mem_append.mp hother with hother | hother
    · exact hall other hother
    · rw [mem_singleton.mp hother]
      exact hjob

theorem QueueInv.pop (hq : s.databaseQueue = job :: jobs) (hjob : job.isWrite = false) :
    QueueInv parseDecryptedAction { s with databaseQueue := jobs } := by
  apply h.withJobs
  · simp [hq, deletes_of_not_isWrite hjob]
  · simp [hq, writes_of_not_isWrite hjob]
  · intro hall other hother
    exact hall other (hq ▸ mem_cons_of_mem _ hother)

theorem QueueInv.insert (id : ActionId) (hids : s'.storedIds.Perm (id :: s.storedIds)) (hnew : ¬ s.Issued id)
    (hid : s'.Issued id) (hissued : ∀ other, s.Issued other → s'.Issued other)
    (hq : s'.databaseQueue = s.databaseQueue) (hstage : s'.stageQueue = s.stageQueue)
    (hseqIn : s'.seqIn = s.seqIn) (hhanded : s'.handed = s.handed) (happlied : s'.applied = s.applied)
    (hdropped : s'.dropped = s.dropped) (hexec : s'.executed = s.executed) : QueueInv parseDecryptedAction s' := by
  have hm {other : ActionId} : other ∈ s'.storedIds ↔ other = id ∨ other ∈ s.storedIds := by
    rw [hids.mem_iff, mem_cons]
  have hdeletes : s'.pendingDeletes = s.pendingDeletes := by rw [IncomingQueue.pendingDeletes, hq]; rfl
  have hseqIns : s'.seqIns = s.seqIns := by rw [IncomingQueue.seqIns, hq, hseqIn]; rfl
  apply h.withTables hseqIns hseqIn hhanded happlied hdropped hexec hissued
  · rw [hids.nodup_iff, nodup_cons]
    exact ⟨fun hstor => hnew (h.storedIssued id hstor), h.stored⟩
  · intro other hother
    rcases hm.mp hother with rfl | hother
    · exact hid
    · exact hissued other (h.storedIssued other hother)
  · rw [hdeletes]
    exact h.deletesIssued
  · rw [hdeletes]
    intro message hmsg hstor
    rcases hm.mp hstor with heq | hstor
    · exact absurd (heq ▸ h.handedIssued message hmsg) hnew
    · exact h.gone message hmsg hstor
  · rw [hstage, hq]
    rcases h.snapshot with hnone | ⟨snapshot, hsnap, hall, hnext, hnd, hsub⟩
    · exact .inl hnone
    · exact .inr ⟨snapshot, hsnap, hall, hnext, hnd, fun other hother => hm.mpr (.inr (hsub other hother))⟩

theorem QueueInv.insertAction (action : DecryptedMessage) : QueueInv parseDecryptedAction (insertAction s action) := by
  refine h.insert ⟨.generic, s.nextActionId⟩ ?_ (Nat.lt_irrefl _) (Nat.lt_succ_self _) ?_ rfl rfl rfl rfl rfl rfl
    rfl
  · simp only [Secret.insertAction, IncomingQueue.storedIds, map_append, map_cons, map_nil,
      append_assoc, singleton_append]
    exact perm_middle
  · rintro ⟨type, value⟩ hother
    cases type with
    | generic => exact Nat.lt_succ_of_lt hother
    | encrypted => exact hother

theorem QueueInv.insertEncryptedAction (action : EncryptedAction) :
    QueueInv parseDecryptedAction (insertEncryptedAction s action) := by
  refine h.insert ⟨.encrypted, s.nextEncryptedActionId⟩ ?_ (Nat.lt_irrefl _) (Nat.lt_succ_self _) ?_ rfl rfl rfl
    rfl rfl rfl rfl
  · simp only [Secret.insertEncryptedAction, IncomingQueue.storedIds, map_append, map_cons, map_nil]
    rw [← append_assoc]
    exact perm_append_comm
  · rintro ⟨type, value⟩ hother
    cases type with
    | generic => exact hother
    | encrypted => exact Nat.lt_succ_of_lt hother

end

variable {α : Type} {f : IncomingQueue → α → IncomingQueue}

section
variable (h : QueueInv parseDecryptedAction s)
include h

theorem QueueInv.foldl (hf : ∀ s a, QueueInv parseDecryptedAction s → QueueInv parseDecryptedAction (f s a))
    (as : List α) : QueueInv parseDecryptedAction (as.foldl f s) := by
  induction as generalizing s with
  | nil => exact h
  | cons a as ih => exact ih (hf s a h)

theorem QueueInv.delete (hq : s.databaseQueue = job :: jobs) (hwrite : job.isWrite = true) (hwrites : job.writes = [])
    (hids : s'.storedIds.Sublist s.storedIds) (hleft : ∀ id ∈ s'.storedIds, id ∉ job.deletes)
    (hqueue' : s'.databaseQueue = jobs) (hissued : ∀ id, s.Issued id → s'.Issued id)
    (hstage : s'.stageQueue = s.stageQueue) (hseqIn : s'.seqIn = s.seqIn) (hhanded : s'.handed = s.handed)
    (happlied : s'.applied = s.applied) (hdropped : s'.dropped = s.dropped) (hexec : s'.executed = s.executed) :
    QueueInv parseDecryptedAction s' := by
  have hdeletes : s.pendingDeletes = job.deletes ++ s'.pendingDeletes := by
    rw [IncomingQueue.pendingDeletes, IncomingQueue.pendingDeletes, hq, hqueue', flatMap_cons]
  have hseqIns : s'.seqIns = s.seqIns := by
    rw [IncomingQueue.seqIns, IncomingQueue.seqIns, hq, hqueue', hseqIn, flatMap_cons, hwrites, nil_append]
  apply h.withTables hseqIns hseqIn hhanded happlied hdropped hexec hissued (h.stored.sublist hids)
  · exact fun id hid => hissued id (h.storedIssued id (hids.subset hid))
  · intro id hid
    exact h.deletesIssued id (hdeletes ▸ mem_append_right _ hid)
  · intro message hmsg hstor
    have hpend := h.gone message hmsg (hids.subset hstor)
    rw [hdeletes, mem_append] at hpend
    exact hpend.resolve_left (hleft _ hstor)
  · rw [hstage]
    rcases h.snapshot with hnone | ⟨snapshot, -, hall, -⟩
    · exact .inl hnone
    · have := hall job (hq ▸ mem_cons_self)
      rw [hwrite] at this
      cases this

theorem QueueInv.apply {seqIn : Int} (hq : s.databaseQueue = .applySeqIn seqIn :: jobs) : QueueInv parseDecryptedAction
      { s with databaseQueue := jobs, seqIn := seqIn, applied := s.applied ++ [seqIn] } := by
  have hseqIns : s.seqIns = s.seqIn :: seqIn :: jobs.flatMap DatabaseJob.writes := by
    rw [IncomingQueue.seqIns, hq]
    rfl
  have hdeletes : s.pendingDeletes = jobs.flatMap DatabaseJob.deletes := by
    rw [IncomingQueue.pendingDeletes, hq]
    rfl
  have hpairwise := h.seqIns
  rw [hseqIns, pairwise_cons] at hpairwise
  have hle : s.seqIn ≤ seqIn := hpairwise.1 seqIn mem_cons_self
  refine ⟨h.stored, h.storedIssued, ?_, h.handedIssued, h.handedNodup, ?_, ?_, hpairwise.2, ⟨?_, ?_⟩, ?_, h.dropped,
    h.executed⟩
  · intro id hid
    exact h.deletesIssued id (hdeletes ▸ hid)
  · intro message hmsg hstor
    have hpend := h.gone message hmsg hstor
    rw [hdeletes] at hpend
    exact hpend
  · obtain ⟨count, hcnt, hrest⟩ := h.sequence
    refine ⟨count, ?_, hrest⟩
    rw [← hcnt]
    simp only [IncomingQueue.finalSeqIn, hseqIns]
    rw [getLast_cons (cons_ne_nil _ _)]
    rfl
  · rw [pairwise_append]
    refine ⟨h.applied.1, pairwise_singleton _ _, ?_⟩
    intro a ha b hb
    rw [mem_singleton.mp hb]
    exact Int.le_trans (h.applied.2 a ha) hle
  · intro value hval
    rcases mem_append.mp hval with hval | hval
    · exact Int.le_trans (h.applied.2 value hval) hle
    · rw [mem_singleton.mp hval]
  · rcases h.snapshot with hnone | ⟨snapshot, -, hall, -⟩
    · exact .inl hnone
    · have := hall _ (hq ▸ mem_cons_self)
      cases this

end

variable (sort : ActionSort)

theorem takeSnapshot_ids (s : IncomingQueue) : (takeSnapshot sort s).ids.Perm s.storedIds := by
  unfold Snapshot.ids IncomingQueue.storedIds takeSnapshot
  apply List.Perm.append_right
  have := (sort.perm (s.rows.map fun row => ⟨⟨.generic, row.1⟩, row.2⟩)).map actionId
  rw [map_map] at this
  exact this

/-- **One job of the database** keeps the invariant. -/
theorem QueueInv.runDatabase (h : QueueInv parseDecryptedAction s) (halone : takesAlone s .runDatabase = true) :
    QueueInv parseDecryptedAction (stepQueue parseDecryptedAction sort s .runDatabase) := by
  unfold stepQueue
  cases hq : s.databaseQueue with
  | nil => exact h
  | cons job jobs =>
    cases job with
    | enqueueActions actions =>
      exact (h.pop hq rfl).foldl (fun _ action hs => hs.insertAction action) actions
    | enqueueEncryptedActions actions =>
      exact (h.pop hq rfl).foldl (fun _ action hs => hs.insertEncryptedAction action) actions
    | dequeue =>
      obtain ⟨hstage, hjobs⟩ := takesAlone_dequeue hq halone
      have hpop := h.pop hq rfl
      refine ⟨hpop.stored, hpop.storedIssued, hpop.deletesIssued, hpop.handedIssued, hpop.handedNodup, hpop.gone,
        hpop.sequence, hpop.seqIns, hpop.applied, ?_, hpop.dropped, hpop.executed⟩
      have hids := takeSnapshot_ids sort { s with databaseQueue := jobs }
      refine .inr ⟨takeSnapshot sort { s with databaseQueue := jobs }, ?_, hjobs, rfl,
        hids.nodup_iff.mpr hpop.stored, fun id hid => hids.mem_iff.mp hid⟩
      show s.stageQueue ++ [_] = _
      rw [hstage]
      rfl
    | deleteActions actionIds =>
      refine h.delete hq rfl rfl ?_ ?_ rfl (fun _ hid => hid) rfl rfl rfl rfl rfl rfl
      · exact (filter_sublist.map _).append (List.Sublist.refl _)
      · intro id hid hdel
        obtain ⟨value, hval, rfl⟩ := mem_map.mp hdel
        simp [runDatabaseJob, IncomingQueue.storedIds] at hid
        exact hid.2 hval
    | deleteEncryptedActions actionIds =>
      refine h.delete hq rfl rfl ?_ ?_ rfl (fun _ hid => hid) rfl rfl rfl rfl rfl rfl
      · exact (List.Sublist.refl _).append (filter_sublist.map _)
      · intro id hid hdel
        obtain ⟨value, hval, rfl⟩ := mem_map.mp hdel
        simp [runDatabaseJob, IncomingQueue.storedIds] at hid
        exact hid.2 hval
    | applySeqIn seqIn => exact h.apply hq

theorem decryptActions_ids (decrypt : EncryptedAction → Option DecryptedMessage)
    (encryptedActions : List (Nat × EncryptedAction)) :
    ((decryptActions decrypt encryptedActions).map actionId).Sublist
      (encryptedActions.map fun row => ⟨.encrypted, row.1⟩) := by
  induction encryptedActions with
  | nil => exact List.Sublist.refl _
  | cons row rows ih =>
    unfold decryptActions at ih ⊢
    rw [filterMap_cons, map_cons]
    cases decrypt row.2 with
    | none => exact ih.cons _
    | some message => exact ih.cons_cons _

theorem mem_actionIdsOf {type : ActionIdType} {actions : List StoredAction} {value : Nat} :
    value ∈ actionIdsOf type actions ↔ ⟨type, value⟩ ∈ actions.map actionId := by
  unfold actionIdsOf
  rw [mem_filterMap, mem_map]
  constructor
  · rintro ⟨action, hact, hval⟩
    obtain ⟨hty, hsome⟩ := Option.ite_none_right_eq_some.mp hval
    refine ⟨action, hact, ?_⟩
    rw [← hty, ← Option.some.inj hsome]
  · rintro ⟨action, hact, hid⟩
    refine ⟨action, hact, ?_⟩
    rw [hid]
    simp

theorem mem_deletes_of_removed {removed : List StoredAction} {id : ActionId} :
    id ∈ (DatabaseJob.deleteActions (actionIdsOf .generic removed)).deletes ++
        (DatabaseJob.deleteEncryptedActions (actionIdsOf .encrypted removed)).deletes ↔
      id ∈ removed.map actionId := by
  obtain ⟨type, value⟩ := id
  simp only [DatabaseJob.deletes, mem_append, mem_map, mem_actionIdsOf]
  cases type with
  | generic | encrypted => simp

def PollState.removed (state : PollState) : List StoredAction :=
  state.removedActions ++ state.actionsToProcess.map Prod.fst

structure PollEffect (s : IncomingQueue) (state : PollState) : Prop where
  nodup : ((state.actionsToProcess.map Prod.fst).map StoredAction.actionId).Nodup
  stored : ∀ id ∈ state.removed.map StoredAction.actionId, id ∈ s.storedIds
  sequence : ∃ count : Nat, state.nextExpectedSeqOut = s.seqIn + (count : Int) ∧
    turnsOf state.actionsToProcess = numbersFrom s.seqIn count
  bound : state.nextExpectedSeqOut ≤ 2 ^ 30
  dropped : ∀ action ∈ state.removed, s.seqIn ≤ action.message.seqOut →
    ∃ processed ∈ state.actionsToProcess, processed.1.message.seqOut = action.message.seqOut

/-- **A poll** over a snapshot of the tables. -/
theorem pollEffect (parseDecryptedAction : DecryptedMessage → Option ServiceAction) (sort : ActionSort)
    (hseqIn : 0 ≤ s.seqIn) (hbound : s.seqIn ≤ 2 ^ 30) {snapshot : Snapshot} (hnd : snapshot.ids.Nodup)
    (hsub : ∀ id ∈ snapshot.ids, id ∈ s.storedIds) (decrypt : EncryptedAction → Option DecryptedMessage)
    (peerLayer : Nat) : PollEffect s (pollLoop parseDecryptedAction s.seqIn peerLayer
      (sort.sort (snapshot.actions ++ decryptActions decrypt snapshot.encryptedActions))) := by
  obtain ⟨merged, hmerged⟩ : ∃ merged, sort.sort (snapshot.actions ++ decryptActions decrypt snapshot.encryptedActions) =
    merged := ⟨_, rfl⟩
  -- the messages of the poll are rows of the tables, each once
  have hids : (merged.map actionId).Nodup ∧ ∀ id ∈ merged.map actionId, id ∈ s.storedIds := by
    have hperm := (sort.perm (snapshot.actions ++ decryptActions decrypt snapshot.encryptedActions)).map
      actionId
    rw [hmerged, map_append] at hperm
    have hsublist : (snapshot.actions.map actionId ++
        (decryptActions decrypt snapshot.encryptedActions).map actionId).Sublist snapshot.ids :=
      (List.Sublist.refl _).append (decryptActions_ids decrypt snapshot.encryptedActions)
    exact ⟨hperm.nodup_iff.mpr (hnd.sublist hsublist),
      fun id hid => hsub id (hsublist.subset (hperm.mem_iff.mp hid))⟩
  rw [hmerged]
  have hspec := pollLoop_spec parseDecryptedAction hseqIn hbound peerLayer merged
  obtain ⟨count, hcnt, hturns⟩ := hspec.sequence
  refine ⟨hids.1.sublist (hspec.processed.map _), ?_, ⟨count, hcnt, hturns⟩, hspec.bound, ?_⟩
  · intro id hid
    rw [PollState.removed, map_append, mem_append] at hid
    rcases hid with hid | hid
    · exact hids.2 id ((hspec.removed.map _).subset hid)
    · exact hids.2 id ((hspec.processed.map _).subset hid)
  · intro action hact hle
    rcases mem_append.mp hact with hact | hact
    · -- a number below the next one was taken
      have hlt := hspec.stale action hact
      have hm : action.message.seqOut ∈ numbersFrom s.seqIn count := mem_numbersFrom.mpr ⟨hle, by omega⟩
      rw [← hturns, turnsOf, mem_map] at hm
      obtain ⟨processed, hproc, hseqOut⟩ := hm
      exact ⟨processed, (mem_filter.mp hproc).1, hseqOut⟩
    · obtain ⟨processed, hproc, rfl⟩ := mem_map.mp hact
      exact ⟨processed, hproc, rfl⟩

structure NothingPending (s : IncomingQueue) : Prop where
  deletes : s.databaseQueue.flatMap DatabaseJob.deletes = []
  writes : s.databaseQueue.flatMap DatabaseJob.writes = []

theorem nothingPending_of_no_writes (hjobs : ∀ job ∈ s.databaseQueue, job.isWrite = false) : NothingPending s where
  deletes := by
    rw [flatMap_eq_nil_iff]
    exact fun job hjob => deletes_of_not_isWrite (hjobs job hjob)
  writes := by
    rw [flatMap_eq_nil_iff]
    exact fun job hjob => writes_of_not_isWrite (hjobs job hjob)

theorem NothingPending.finalSeqIn_eq (h : NothingPending s) : s.finalSeqIn = s.seqIn := by
  simp [IncomingQueue.finalSeqIn, IncomingQueue.seqIns, h.writes]

theorem QueueInv.handed_not_stored (h : QueueInv parseDecryptedAction s) (hidle : NothingPending s)
    {message : HandedMessage} (hmsg : message ∈ s.handed) : message.id ∉ s.storedIds := by
  intro hid
  have hpend := h.gone message hmsg hid
  rw [IncomingQueue.pendingDeletes, hidle.deletes] at hpend
  cases hpend

theorem NothingPending.mem_deletes (h : NothingPending s) (state : PollState) (id : ActionId) :
    id ∈ (s.databaseQueue ++ [DatabaseJob.deleteActions (actionIdsOf .generic state.removed),
      DatabaseJob.deleteEncryptedActions (actionIdsOf .encrypted state.removed),
      DatabaseJob.applySeqIn state.nextExpectedSeqOut]).flatMap DatabaseJob.deletes ↔
    id ∈ state.removed.map actionId := by
  rw [flatMap_append, h.deletes, nil_append, ← mem_deletes_of_removed]
  simp [DatabaseJob.deletes]

/-- **The second half of a poll** keeps the invariant. -/
theorem QueueInv.runStage (h : QueueInv parseDecryptedAction s) (decrypt : EncryptedAction → Option DecryptedMessage)
    (peerLayer : Nat) (isCreator : Bool) :
    QueueInv parseDecryptedAction (stepQueue parseDecryptedAction sort s (.runStage decrypt peerLayer isCreator)) := by
  unfold stepQueue
  rcases h.snapshot with hnone | ⟨snapshot, hstage, hjobs, hnext, hnd, hsub⟩
  · rw [hnone]
    exact h
  rw [hstage]
  have hidle := nothingPending_of_no_writes hjobs
  have hwrites := hidle.writes
  obtain ⟨count, hcnt, hbound, hturns⟩ := h.sequence
  have hseqIn : s.seqIn = (count : Int) := hidle.finalSeqIn_eq.symm.trans hcnt
  have heffect := pollEffect parseDecryptedAction sort (by omega) (by omega) hnd hsub decrypt peerLayer
  dsimp only
  unfold processSnapshot
  dsimp only
  rw [hnext]
  obtain ⟨state, hstate⟩ : ∃ state, pollLoop parseDecryptedAction s.seqIn peerLayer
    (sort.sort (snapshot.actions ++ decryptActions decrypt snapshot.encryptedActions)) = state := ⟨_, rfl⟩
  rw [hstate] at heffect ⊢
  obtain ⟨taken, htaken, hturns'⟩ := heffect.sequence
  have hhanded : (state.actionsToProcess.map fun processed =>
      (⟨s.polls, processed.1, processed.2⟩ : HandedMessage)).map HandedMessage.id =
        (state.actionsToProcess.map Prod.fst).map actionId := by
    rw [map_map, map_map]
    rfl
  have hstor (id : ActionId) (hid : id ∈ (state.actionsToProcess.map Prod.fst).map actionId) :
      id ∈ state.removed.map actionId := by
    rw [PollState.removed, map_append]
    exact mem_append_right _ hid
  refine ⟨h.stored, h.storedIssued, ?_, ?_, ?_, ?_, ⟨count + taken, ?_, ?_, ?_⟩, ?_, h.applied, .inl rfl, ?_, ?_⟩
  · intro id hid
    exact h.storedIssued id (heffect.stored id ((hidle.mem_deletes state id).mp hid))
  · intro message hmsg
    rcases mem_append.mp hmsg with hmsg | hmsg
    · exact h.handedIssued message hmsg
    · have hid := hhanded ▸ mem_map_of_mem (f := HandedMessage.id) hmsg
      exact h.storedIssued _ (heffect.stored _ (hstor _ hid))
  · rw [map_append, nodup_append, hhanded]
    refine ⟨h.handedNodup, heffect.nodup, ?_⟩
    intro a ha b hb hab
    obtain ⟨message, hmsg, rfl⟩ := mem_map.mp ha
    exact h.handed_not_stored hidle hmsg (hab ▸ heffect.stored b (hstor b hb))
  · intro message hmsg hid
    rcases mem_append.mp hmsg with hmsg | hmsg
    · exact absurd hid (h.handed_not_stored hidle hmsg)
    · apply (hidle.mem_deletes state _).mpr
      exact hstor _ (hhanded ▸ mem_map_of_mem (f := HandedMessage.id) hmsg)
  · simp only [IncomingQueue.finalSeqIn, IncomingQueue.seqIns, flatMap_append, hwrites]
    simp [DatabaseJob.writes, htaken, hseqIn]
  · have := heffect.bound
    omega
  · rw [IncomingQueue.turns, filter_append, map_append, ← numbersFrom_add, ← hturns]
    congr 1
    rw [Int.zero_add, ← hseqIn, ← hturns', turnsOf, filter_map, map_map]
    rfl
  · simp only [IncomingQueue.seqIns, flatMap_append, hwrites]
    simp only [nil_append, flatMap_cons, flatMap_nil, DatabaseJob.writes, append_nil,
      pairwise_cons, mem_singleton, forall_eq]
    exact ⟨by omega, by simp⟩
  · intro message hmsg hle
    rcases mem_append.mp hmsg with hmsg | hmsg
    · obtain ⟨other, hother, hsame⟩ := h.dropped message hmsg hle
      exact ⟨other, mem_append_left _ hother, hsame⟩
    · obtain ⟨action, hact, rfl⟩ := mem_map.mp hmsg
      obtain ⟨processed, hproc, hseqOut⟩ := heffect.dropped action hact hle
      exact ⟨⟨s.polls, processed.1, processed.2⟩, mem_append_right _ (mem_map_of_mem hproc), rfl, hseqOut⟩
  · rw [h.executed, filterMap_append, filterMap_map]
    rfl

variable {e : QueueEvent}

/-- **Every step** keeps the invariant, where polls take their snapshots alone. -/
theorem QueueInv.step (h : QueueInv parseDecryptedAction s) (halone : takesAlone s e = true) :
    QueueInv parseDecryptedAction (stepQueue parseDecryptedAction sort s e) := by
  cases e with
  | enqueueIncomingMessages actions | enqueueIncomingEncryptedMessages actions | poll => exact h.enqueue rfl
  | runDatabase => exact h.runDatabase sort halone
  | runStage decrypt peerLayer isCreator => exact h.runStage sort decrypt peerLayer isCreator

/-! ## Runs -/

/-- Polls do not overlap: each takes its snapshot when all that earlier polls write is written. -/
def aloneRun (parseDecryptedAction : DecryptedMessage → Option ServiceAction) (sort : ActionSort) :
    IncomingQueue → List QueueEvent → Bool
  | _, [] => true
  | s, e :: events =>
    takesAlone s e && aloneRun parseDecryptedAction sort (stepQueue parseDecryptedAction sort s e) events

variable {events : List QueueEvent}

theorem QueueInv.run {sort : ActionSort} (h : QueueInv parseDecryptedAction s)
    (halone : aloneRun parseDecryptedAction sort s events = true) :
    QueueInv parseDecryptedAction (events.foldl (stepQueue parseDecryptedAction sort) s) := by
  induction events generalizing s with
  | nil => exact h
  | cons e events ih =>
    obtain ⟨he, hevents⟩ := Bool.and_eq_true_iff.mp halone
    rw [foldl_cons]
    exact ih (h.step sort he) hevents

/-- Whatever is handed on out of turn asks for messages again. -/
def OutOfTurnResend (parseDecryptedAction : DecryptedMessage → Option ServiceAction) (s : IncomingQueue) : Prop :=
  ∀ message ∈ s.handed, message.inTurn = false → isResendAction parseDecryptedAction message.action.message = true

def QueueEvent.sequenced : QueueEvent → Bool
  | .runStage _ peerLayer _ => decide (17 ≤ peerLayer)
  | _ => true

theorem handed_foldl (hf : ∀ s x, (f s x).handed = s.handed) (xs : List α) (s : IncomingQueue) :
    (xs.foldl f s).handed = s.handed := by
  induction xs generalizing s with
  | nil => rfl
  | cons x xs ih =>
    rw [foldl_cons, ih]
    exact hf s x

theorem runDatabaseJob_handed (s : IncomingQueue) (job : DatabaseJob) :
    (runDatabaseJob sort s job).handed = s.handed := by
  cases job with
  | enqueueActions actions =>
    apply handed_foldl (f := insertAction)
    exact fun _ _ => rfl
  | enqueueEncryptedActions actions =>
    apply handed_foldl (f := insertEncryptedAction)
    exact fun _ _ => rfl
  | _ => rfl

theorem OutOfTurnResend.step (h : OutOfTurnResend parseDecryptedAction s) (hlayer : e.sequenced = true) :
    OutOfTurnResend parseDecryptedAction (stepQueue parseDecryptedAction sort s e) := by
  cases e with
  | enqueueIncomingMessages actions | enqueueIncomingEncryptedMessages actions | poll => exact h
  | runDatabase =>
    unfold stepQueue
    dsimp only
    split
    · exact h
    · intro message hmsg
      rw [runDatabaseJob_handed] at hmsg
      exact h message hmsg
  | runStage decrypt peerLayer isCreator =>
    unfold stepQueue
    dsimp only
    split
    · exact h
    · intro message hmsg hturn
      rcases mem_append.mp hmsg with hmsg | hmsg
      · exact h message hmsg hturn
      · obtain ⟨processed, hproc, rfl⟩ := mem_map.mp hmsg
        exact (pollLoop_outOfTurn parseDecryptedAction (of_decide_eq_true hlayer) _).2 processed hproc hturn

theorem OutOfTurnResend.run {sort : ActionSort} (h : OutOfTurnResend parseDecryptedAction s)
    (hlayer : events.all QueueEvent.sequenced = true) :
    OutOfTurnResend parseDecryptedAction (events.foldl (stepQueue parseDecryptedAction sort) s) := by
  induction events generalizing s with
  | nil => exact h
  | cons e events ih =>
    obtain ⟨he, hevents⟩ := Bool.and_eq_true_iff.mp hlayer
    rw [foldl_cons]
    exact ih (h.step sort he) hevents

end

/-! ## Results -/

structure InOrder (parseDecryptedAction : DecryptedMessage → Option ServiceAction) (s : IncomingQueue) : Prop where
  turns : ∃ count : Nat, s.turns = numbersFrom 0 count
  outOfTurn : OutOfTurnResend parseDecryptedAction s
  dropped : ∀ message ∈ s.dropped, message.storedSeqIn ≤ message.action.message.seqOut →
    ∃ other ∈ s.handed, other.poll = message.poll ∧ other.action.message.seqOut = message.action.message.seqOut
  applied : s.applied.Pairwise (· ≤ ·)

def insertionActionSort : ActionSort where
  sort := List.insertionSort fun action1 action2 => action1.le action2 = true
  perm := perm_insertionSort _
  sorted := by
    have : Std.Total fun action1 action2 : StoredAction => action1.le action2 = true := by
      constructor
      intro action1 action2
      simp only [StoredAction.le]
      split <;> split <;> simp only [decide_eq_true_eq] <;> omega
    have : IsTrans StoredAction fun action1 action2 : StoredAction => action1.le action2 = true := by
      constructor
      intro action1 action2 action3
      simp only [StoredAction.le]
      split <;> split <;> split <;> simp only [decide_eq_true_eq] <;> omega
    exact pairwise_insertionSort _

/-- `parseDecryptedAction` for messages of layer 73 that ask for messages again (`0x73164160`, `0x511110b0`). -/
def parseResendAction (message : DecryptedMessage) : Option ServiceAction :=
  if message.layer = 73 ∧ slice message.data 32 4 = leBytes 4 0x73164160 ∧
      slice message.data 44 4 = leBytes 4 0x511110b0 then
    some (.resendActions (ofLeBits 32 (slice message.data 48 4)) (ofLeBits 32 (slice message.data 52 4)))
  else none

/-- A message of layer 73 from the creator of the chat. -/
def sequencedMessage (outSeqNo : BitVec 32) (body : Bytes) : DecryptedMessage where
  layer := 73
  data := leBytes 4 0x1be31789 ++ 15 :: List.replicate 15 0 ++ leBytes 4 73 ++ leBytes 4 0 ++ leBits outSeqNo ++ body
  date := 0
  inSeqNo := 0
  outSeqNo := outSeqNo

def textMessage (outSeqNo : BitVec 32) : DecryptedMessage :=
  sequencedMessage outSeqNo (leBytes 4 0x91cc4674 ++ leBytes 4 0 ++ leBytes 8 1 ++ leBytes 4 0 ++ [2, 104, 105, 0])

def resendMessage (outSeqNo : BitVec 32) : DecryptedMessage :=
  sequencedMessage outSeqNo (leBytes 4 0x73164160 ++ leBytes 8 2 ++ leBytes 4 0x511110b0 ++ leBytes 4 1 ++ leBytes 4 1)

/-- **Messages are handed on in turn** where polls do not overlap. -/
theorem runQueue_inOrder (parseDecryptedAction : DecryptedMessage → Option ServiceAction) (sort : ActionSort)
    (events : List QueueEvent) (hlayer : events.all QueueEvent.sequenced = true)
    (halone : aloneRun parseDecryptedAction sort initQueue events = true) :
    InOrder parseDecryptedAction (runQueue parseDecryptedAction sort events) := by
  have hinv : QueueInv parseDecryptedAction (runQueue parseDecryptedAction sort events) := queueInv_init.run halone
  obtain ⟨count, -, -, hturns⟩ := hinv.sequence
  have hinit : OutOfTurnResend parseDecryptedAction initQueue := by simp [OutOfTurnResend, initQueue]
  exact ⟨⟨count, hturns⟩, hinit.run hlayer, hinv.dropped, hinv.applied.1⟩

/-- A text, another text ahead of its turn, a second copy, and a request ahead of its turn; then what was missing. -/
def lateRun : List QueueEvent :=
  [.enqueueIncomingMessages [textMessage 5, textMessage 1, textMessage 1, resendMessage 7], .poll, .runDatabase,
    .runDatabase, .runStage (fun _ => none) 73 false, .runDatabase, .runDatabase, .runDatabase,
    .enqueueIncomingMessages [textMessage 3], .poll, .runDatabase, .runDatabase, .runStage (fun _ => none) 73 false]

theorem runQueue_lateRun_inOrder : (runQueue parseResendAction insertionActionSort lateRun).turns = [0, 1, 2] ∧
    InOrder parseResendAction (runQueue parseResendAction insertionActionSort lateRun) :=
  ⟨by decide +kernel, runQueue_inOrder parseResendAction insertionActionSort lateRun (by decide +kernel)
    (by decide +kernel)⟩

/-- The numbers of the messages that do not ask for messages again. -/
def IncomingQueue.nonResends (parseDecryptedAction : DecryptedMessage → Option ServiceAction) (s : IncomingQueue) :
    List Int :=
  (s.handed.filter fun message => !isResendAction parseDecryptedAction message.action.message).map
    fun message => message.action.message.seqOut

def resendFirstRun : List QueueEvent :=
  [.enqueueIncomingMessages [resendMessage 1, textMessage 3], .poll, .runDatabase, .runDatabase,
    .runStage (fun _ => none) 73 false]

/-- A request for messages takes a number: the others have a gap there. -/
theorem resend_takes_number : resendFirstRun.all QueueEvent.sequenced = true ∧
    aloneRun parseResendAction insertionActionSort initQueue resendFirstRun = true ∧
    ¬∃ count, (runQueue parseResendAction insertionActionSort resendFirstRun).nonResends parseResendAction =
      numbersFrom 0 count := by
  refine ⟨by decide +kernel, by decide +kernel, ?_⟩
  have hnumbers : (runQueue parseResendAction insertionActionSort resendFirstRun).nonResends parseResendAction = [1] := by
    decide +kernel
  rw [hnumbers]
  rintro ⟨count, hcount⟩
  have hone : (1 : Int) ∈ numbersFrom 0 count := hcount ▸ mem_cons_self
  have hzero : (0 : Int) ∈ [1] := hcount ▸ mem_numbersFrom.mpr ⟨by decide, by have := mem_numbersFrom.mp hone; omega⟩
  cases mem_singleton.mp hzero

structure AtMostOnce (s : IncomingQueue) : Prop where
  handed : (s.handed.map HandedMessage.id).Nodup
  turns : s.turns.Nodup
  executed : (s.executed.map Prod.fst).Nodup

theorem executed_ids (parseDecryptedAction : DecryptedMessage → Option ServiceAction) (handed : List HandedMessage) :
    ((handed.filterMap fun message => (parseDecryptedAction message.action.message).map fun action =>
      (message.id, action)).map Prod.fst).Sublist (handed.map HandedMessage.id) := by
  induction handed with
  | nil => exact List.Sublist.refl _
  | cons message handed ih =>
    rw [filterMap_cons, map_cons]
    cases parseDecryptedAction message.action.message with
    | none => exact ih.cons _
    | some action => exact ih.cons_cons _

/-- **Nothing is handed on twice** where polls do not overlap. -/
theorem runQueue_atMostOnce (parseDecryptedAction : DecryptedMessage → Option ServiceAction) (sort : ActionSort)
    (events : List QueueEvent) (halone : aloneRun parseDecryptedAction sort initQueue events = true) :
    AtMostOnce (runQueue parseDecryptedAction sort events) := by
  have hinv : QueueInv parseDecryptedAction (runQueue parseDecryptedAction sort events) := queueInv_init.run halone
  obtain ⟨count, -, -, hturns⟩ := hinv.sequence
  refine ⟨hinv.handedNodup, ?_, ?_⟩
  · rw [hturns]
    exact nodup_numbersFrom 0 count
  · rw [hinv.executed]
    exact hinv.handedNodup.sublist (executed_ids parseDecryptedAction _)

theorem runQueue_lateRun_atMostOnce : (runQueue parseResendAction insertionActionSort lateRun).executed.length = 1 ∧
    AtMostOnce (runQueue parseResendAction insertionActionSort lateRun) :=
  ⟨by decide +kernel, runQueue_atMostOnce parseResendAction insertionActionSort lateRun (by decide +kernel)⟩

/-- The second of two polls takes its snapshot before the first has deleted anything. -/
def overlapRun : List QueueEvent :=
  [.enqueueIncomingMessages [resendMessage 1], .poll, .poll, .runDatabase, .runDatabase, .runDatabase,
    .runStage (fun _ => none) 73 false, .runStage (fun _ => none) 73 false]

/-- **Polls that overlap** hand a message on twice, and execute its action twice. -/
theorem handed_twice :
    (runQueue parseResendAction insertionActionSort overlapRun).executed =
        [(⟨.generic, 1⟩, .resendActions 1 1), (⟨.generic, 1⟩, .resendActions 1 1)] ∧
      (runQueue parseResendAction insertionActionSort overlapRun).turns = [0, 0] ∧
      ¬AtMostOnce (runQueue parseResendAction insertionActionSort overlapRun) := by
  have hturns : (runQueue parseResendAction insertionActionSort overlapRun).turns = [0, 0] := by decide +kernel
  refine ⟨by decide +kernel, hturns, ?_⟩
  intro h
  have hnodup := h.turns
  rw [hturns] at hnodup
  simp at hnodup

end TelegramClient.Secret
