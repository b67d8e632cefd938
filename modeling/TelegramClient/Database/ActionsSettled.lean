import TelegramClient.Database.ActionSteps
import TelegramClient.Lib.Runs

/-!
# Answered actions are settled

After an answer the actor confirms the rows of the request on the queue of the database, and the next load stands behind
the confirmation in that queue.

* `Settles` : **what is answered is settled, and the actor goes on until it has loaded nothing**;
* `settles_fails` : two runs that do not settle.
-/

namespace TelegramClient.Database
open List

namespace ActionQueue

/-! ## What it is to settle -/

/-- An answered request, or a message to the peer of a secret chat, was built from the row. -/
def Handed (s : ActionQueue) (row : ActionRow) : Prop :=
  (∃ pending ∈ s.answered, row ∈ pending.origin.builtFrom) ∨ ∃ message ∈ s.serviceMessages, row ∈ message.2.2

/-- A request shares a row with an earlier one only to go on with it, as `continues` says. -/
def SentAgain (continues : Request → Request → Prop) (earlier later : PendingRequest) : Prop :=
  ∀ row ∈ earlier.origin.builtFrom, row ∈ later.origin.builtFrom → continues later.request earlier.request

/-- The actor waits for a load or for an answer, or it has completed. -/
def GoesOn (s : ActionQueue) : Prop :=
  match s.phase with
  | .loading => .loadQueuedActions ∈ s.databaseQueue
  | .waiting requests => requests ≠ []
  | _ => True

structure Settles (continues : Request → Request → Prop) (s : ActionQueue) (event : ActionQueueEvent) : Prop where
  confirmed : ∀ order jobs, event = .runDatabase order → s.databaseQueue = .loadQueuedActions :: jobs →
    ∀ row ∈ s.table, ¬s.Handed row
  sentOnce : (s.stepQueue event).answered.Pairwise (SentAgain continues)
  goesOn : (s.stepQueue event).GoesOn
  completes : s.phase ≠ .idle → (s.stepQueue event).phase = .idle → ∃ loaded, s.phase = .loaded loaded ∧ loaded.rows = []

def RowsDecrease (s : ActionQueue) (event : ActionQueueEvent) : Prop :=
  ∀ order actions requireFullMatch origin jobs, event = .runDatabase order →
    s.databaseQueue = .confirmQueuedActions actions requireFullMatch origin :: jobs →
      (s.stepQueue event).table.length < s.table.length

/-! ## The conditions -/

/-- A deletion of messages is answered with success. -/
def DeletionsSucceed (s : ActionQueue) : ActionQueueEvent → Prop
  | .answer index answer =>
    ∀ pending, s.requests[index]? = some pending → pending.request.isDeleteMessages = true → answer ≠ .error
  | _ => True

def ActionQueueEvent.isStore : ActionQueueEvent → Bool
  | .storeQueuedActions _ => true
  | _ => false

end ActionQueue

/-! ## The queue of the database -/

def DatabaseJob.isLoad : DatabaseJob → Bool
  | .loadQueuedActions => true
  | _ => false

def DatabaseJob.isConfirm : DatabaseJob → Bool
  | .confirmQueuedActions .. => true
  | _ => false

/-- A confirmation that stands before any load finds the row. -/
def ConfirmedFirst (row : ActionRow) : List DatabaseJob → Prop
  | [] | .loadQueuedActions :: _ => False
  | .storeQueuedActions _ :: jobs => ConfirmedFirst row jobs
  | .confirmQueuedActions actions requireFullMatch _ :: jobs =>
    (∃ action ∈ actions, action.confirms requireFullMatch row.action = true) ∨ ConfirmedFirst row jobs

variable {row : ActionRow} {jobs : List DatabaseJob}

theorem ConfirmedFirst.append (h : ConfirmedFirst row jobs) (more : List DatabaseJob) :
    ConfirmedFirst row (jobs ++ more) := by
  induction jobs with
  | nil => exact h.elim
  | cons job jobs ih =>
    cases job with
    | storeQueuedActions actions => exact ih h
    | confirmQueuedActions actions full origin => exact h.imp id ih
    | loadQueuedActions => exact h.elim

theorem confirmedFirst_append (hnone : jobs.countP DatabaseJob.isLoad = 0) {more : List DatabaseJob}
    (h : ConfirmedFirst row more) : ConfirmedFirst row (jobs ++ more) := by
  induction jobs with
  | nil => exact h
  | cons job jobs ih =>
    cases job with
    | storeQueuedActions actions => exact ih (by simpa [DatabaseJob.isLoad] using hnone)
    | confirmQueuedActions actions full origin => exact .inr (ih (by simpa [DatabaseJob.isLoad] using hnone))
    | loadQueuedActions => simp [DatabaseJob.isLoad] at hnone

/-! ## The invariant -/

def ActorPhase.loads : ActorPhase → Nat
  | .loading => 1
  | _ => 0

namespace ActionQueue

/-- The rows of a request on its way were not handed over before, except to what it goes on with. -/
structure WaitingInv (s : ActionQueue) (pending : PendingRequest) : Prop where
  prepared : pending.Prepared s.memory
  stamps : ∀ row ∈ pending.origin.builtFrom, row.stamp < s.nextStamp
  again : ∀ earlier ∈ s.answered, SentAgain Request.Continues earlier pending
  alone : pending.request.isDeleteMessages = true ∨ s.requests = [pending]

structure SettledInv (s : ActionQueue) : Prop where
  loads : s.databaseQueue.countP DatabaseJob.isLoad = s.phase.loads
  table : TableInv s.table s.nextStamp
  handed : ∀ row, s.Handed row → row.stamp < s.nextStamp
  loaded : ∀ loaded, s.phase = .loaded loaded → ∀ row ∈ loaded.rows, row.stamp < s.nextStamp ∧ ¬s.Handed row
  waits : s.phase ≠ .waiting []
  waiting : ∀ pending ∈ s.requests, s.WaitingInv pending
  disjoint : s.requests.Pairwise fun p q => p.origin.builtFrom.Disjoint q.origin.builtFrom
  sentOnce : s.answered.Pairwise (SentAgain Request.Continues)
  /-- A row that was handed over is gone, or is asked for again, or is about to be confirmed. -/
  awaits : ∀ row ∈ s.table, s.Handed row →
    (∃ pending ∈ s.requests, row ∈ pending.origin.builtFrom) ∨ ConfirmedFirst row s.databaseQueue

variable {s : ActionQueue} {pending : PendingRequest} {row : ActionRow}

theorem Handed.of_removeRequest {index : Nat} (h : (s.removeRequest index pending).Handed row) :
    s.Handed row ∨ row ∈ pending.origin.builtFrom := by
  rcases h with ⟨p, hp, hrow⟩ | hmsg
  · rcases mem_append.mp hp with hold | hnew
    · exact .inl (.inl ⟨p, hold, hrow⟩)
    · obtain rfl := mem_singleton.mp hnew
      exact .inr hrow
  · exact .inl (.inr hmsg)

theorem sentAgain_trans {earlier next : PendingRequest} (h : SentAgain Request.Continues earlier pending)
    (horigin : next.origin = pending.origin) (hcontinues : next.request.Continues pending.request) :
    SentAgain Request.Continues earlier next := by
  intro row hearlier hnext
  have hfirst := h row hearlier (horigin ▸ hnext)
  revert hfirst hcontinues
  cases earlier.request <;> cases pending.request <;> cases next.request <;>
    simp only [Request.Continues, Request.ContinuesFromOffset] <;> grind

namespace SettledInv

variable {s : ActionQueue}

variable {jobs : List DatabaseJob}

theorem requests_eq_nil_of_load (h : SettledInv s) (hq : s.databaseQueue = .loadQueuedActions :: jobs) :
    s.phase = .loading ∧ jobs.countP DatabaseJob.isLoad = 0 := by
  have hloads := h.loads
  rw [hq, countP_cons_of_pos rfl] at hloads
  cases hph : s.phase with
  | loading => exact ⟨rfl, by simpa [hph, ActorPhase.loads] using hloads⟩
  | _ => simp [hph, ActorPhase.loads] at hloads

theorem confirmed (h : SettledInv s) (hq : s.databaseQueue = .loadQueuedActions :: jobs) :
    ∀ row ∈ s.table, ¬s.Handed row := by
  intro row hrow hhanded
  rcases h.awaits row hrow hhanded with ⟨pending, hp, -⟩ | hfirst
  · rw [requests, (h.requests_eq_nil_of_load hq).1] at hp
    exact absurd hp not_mem_nil
  · rw [hq] at hfirst
    exact hfirst

theorem goesOn (h : SettledInv s) : s.GoesOn := by
  unfold GoesOn
  split
  · next hph =>
    have hloads := h.loads
    rw [hph] at hloads
    obtain ⟨job, hjob, hload⟩ := countP_pos_iff.mp (by rw [hloads]; exact Nat.one_pos)
    cases job with
    | loadQueuedActions => exact hjob
    | _ => exact absurd hload Bool.false_ne_true
  · next requests hph =>
    intro hnone
    exact h.waits (by rw [hph, hnone])
  · trivial

/-! ### Jobs -/

theorem addStore (h : SettledInv s) (actions : List TGDatabaseAction) :
    SettledInv { s with databaseQueue := s.databaseQueue ++ [.storeQueuedActions actions] } := by
  refine ⟨?_, h.table, h.handed, h.loaded, h.waits, fun p hp => ?_, h.disjoint, h.sentOnce, fun row hrow hhanded => ?_⟩
  · simpa [DatabaseJob.isLoad] using h.loads
  · have hwait := h.waiting p hp
    exact ⟨hwait.prepared, hwait.stamps, hwait.again, hwait.alone⟩
  · exact (h.awaits row hrow hhanded).imp id fun hfirst => hfirst.append _

theorem requestActor (h : SettledInv s) (hph : s.phase = .idle) : SettledInv s.execute := by
  refine ⟨?_, h.table, h.handed, fun _ hl => (nomatch hl), nofun, fun _ hp => absurd hp not_mem_nil, List.Pairwise.nil,
    h.sentOnce, fun row hrow hhanded => Or.inr ?_⟩
  · have hloads := h.loads
    rw [hph] at hloads
    simp [execute, DatabaseJob.isLoad, hloads, ActorPhase.loads]
  · rcases h.awaits row hrow hhanded with ⟨p, hp, -⟩ | hfirst
    · rw [requests, hph] at hp
      exact absurd hp not_mem_nil
    · exact hfirst.append _

variable {actions : List TGDatabaseAction}

theorem runStore (h : SettledInv s) (hq : s.databaseQueue = .storeQueuedActions actions :: jobs) :
    SettledInv (({ s with databaseQueue := jobs } : ActionQueue).storeRows actions) := by
  have hstep := storeRows_step { s with databaseQueue := jobs } actions
  rw [hstep.rest]
  refine ⟨?_, hstep.table h.table, fun row hhanded => (h.handed row hhanded).trans_le hstep.stamp_le, fun loaded hl row hrow => ?_,
    h.waits, fun p hp => ?_, h.disjoint, h.sentOnce, fun row hrow hhanded => ?_⟩
  · have hloads := h.loads
    rwa [hq, countP_cons_of_neg (by simp [DatabaseJob.isLoad])] at hloads
  · exact ⟨((h.loaded loaded hl row hrow).1).trans_le hstep.stamp_le, (h.loaded loaded hl row hrow).2⟩
  · have hwait := h.waiting p hp
    exact ⟨hwait.prepared, fun row hrow => (hwait.stamps row hrow).trans_le hstep.stamp_le, hwait.again,
      hwait.alone⟩
  · -- a row that was handed over is older than every row that is stored now
    have hold : row ∈ s.table := (hstep.old_or_new row hrow).resolve_right (Nat.not_le.mpr (h.handed row hhanded))
    have hawaits := h.awaits row hold hhanded
    rwa [hq] at hawaits

theorem runConfirm (h : SettledInv s) {full : Bool} {origin : Origin}
    (hq : s.databaseQueue = .confirmQueuedActions actions full origin :: jobs) :
    SettledInv { s with databaseQueue := jobs, table := confirmRows actions full s.table } := by
  refine ⟨?_, h.table.filter _, h.handed, h.loaded, h.waits, fun p hp => ?_,
    h.disjoint, h.sentOnce, fun row hrow hhanded => ?_⟩
  · have hloads := h.loads
    rwa [hq, countP_cons_of_neg (by simp [DatabaseJob.isLoad])] at hloads
  · have hwait := h.waiting p hp
    exact ⟨hwait.prepared, hwait.stamps, hwait.again, hwait.alone⟩
  · obtain ⟨hold, hkept⟩ := mem_filter.mp hrow
    refine (h.awaits row hold hhanded).imp id fun hfirst => ?_
    rw [hq] at hfirst
    refine hfirst.resolve_left fun ⟨action, hact, hconf⟩ => ?_
    simp only [Bool.not_eq_true', any_eq_false] at hkept
    exact hkept action hact hconf

theorem runLoad (h : SettledInv s) (hq : s.databaseQueue = .loadQueuedActions :: jobs) (order : RowOrder ActionRow) :
    SettledInv { s with databaseQueue := jobs, phase := .loaded ⟨order.read s.table, s.nextStamp⟩ } := by
  refine ⟨(h.requests_eq_nil_of_load hq).2, h.table, h.handed, fun loaded hl row hrow => ?_, nofun,
    fun _ hp => absurd hp not_mem_nil, List.Pairwise.nil, h.sentOnce, fun row hrow hhanded => ?_⟩
  · obtain rfl := ActorPhase.loaded.inj hl
    have hm : row ∈ s.table := (order.perm s.table).mem_iff.mp hrow
    exact ⟨h.table.stamps row hm, h.confirmed hq row hm⟩
  · exact absurd hhanded (h.confirmed hq row hrow)

theorem runDatabase (h : SettledInv s) (order : RowOrder ActionRow) : SettledInv (s.stepQueue (.runDatabase order)) := by
  dsimp only [stepQueue]
  split
  · exact h
  · next job jobs hq =>
    cases job with
    | storeQueuedActions actions => exact h.runStore hq
    | confirmQueuedActions actions full origin => exact h.runConfirm hq
    | loadQueuedActions => exact h.runLoad hq order

/-! ### The actor -/

variable {s' : ActionQueue}

theorem startBatch (h : SettledInv s) {loaded : LoadedActions} (hph : s.phase = .loaded loaded)
    {records : PeerRecords} {batch : Batch} (hbatch : ∀ row ∈ batch.rows, row ∈ loaded.rows)
    (hstep : BatchStep s records loaded batch s') : SettledInv s' := by
  have hnone : s.databaseQueue.countP DatabaseJob.isLoad = 0 := by
    rw [h.loads, hph]
    rfl
  have hfresh : ∀ row ∈ batch.rows, row.stamp < s.nextStamp ∧ ¬s.Handed row :=
    fun row hrow => h.loaded loaded hph row (hbatch row hrow)
  have hfirst : ∀ row ∈ s.table, s.Handed row → ConfirmedFirst row s.databaseQueue := by
    intro row hrow hhanded
    refine (h.awaits row hrow hhanded).resolve_left fun ⟨p, hp, _⟩ => ?_
    rw [requests_of_loaded hph] at hp
    exact not_mem_nil hp
  cases hstep with
  | sends memory requests hne hprep horigin halone hdisj =>
    refine ⟨hnone, h.table, h.handed, fun _ hl => (nomatch hl), fun hwaits => hne (ActorPhase.waiting.inj hwaits),
      fun p hp => ⟨hprep p hp, fun row hrow => (hfresh row ((horigin p hp).2 row hrow)).1, ?_, halone p hp⟩, hdisj,
      h.sentOnce, fun row hrow hhanded => .inr (hfirst row hrow hhanded)⟩
    intro earlier hearlier row hrow hagain
    exact absurd (.inl ⟨earlier, hearlier, hrow⟩) (hfresh row ((horigin p hp).2 row hagain)).2
  | confirms memory messages actions full builtFrom hrows hsent hbuilt hconf hcovers =>
    have hhanded_of : ∀ row, ((∃ p ∈ s.answered, row ∈ p.origin.builtFrom) ∨
        ∃ message ∈ s.serviceMessages ++ messages, row ∈ message.2.2) → s.Handed row ∨ row ∈ batch.rows := by
      rintro row (hanswered | ⟨message, hmsg, hrow⟩)
      · exact .inl (.inl hanswered)
      · rcases mem_append.mp hmsg with hold | hnew
        · exact .inl (.inr ⟨message, hold, hrow⟩)
        · exact .inr (hsent message hnew row hrow).1
    refine ⟨?_, h.table, fun row hhanded => ?_, fun _ hl => (nomatch hl), nofun, fun _ hp => absurd hp not_mem_nil,
      List.Pairwise.nil, h.sentOnce, fun row hrow hhanded => Or.inr ?_⟩
    · simp [execute, ActionQueue.confirmQueuedActions, DatabaseJob.isLoad, hnone, ActorPhase.loads]
    · exact (hhanded_of row hhanded).elim (h.handed row) fun hrow => (hfresh row hrow).1
    · refine ConfirmedFirst.append ?_ _
      rcases hhanded_of row hhanded with hold | hnew
      · exact (hfirst row hrow hold).append _
      · exact confirmedFirst_append hnone (.inl (hconf row hnew))
  | completes =>
    exact ⟨hnone, h.table, h.handed, fun _ hl => (nomatch hl), nofun, fun _ hp => absurd hp not_mem_nil,
      List.Pairwise.nil, h.sentOnce, fun row hrow hhanded => .inr (hfirst row hrow hhanded)⟩

theorem answer (h : SettledInv s) {index : Nat} {answer : Answer} (hidx : s.requests[index]? = some pending)
    (hsucceeds : pending.request.isDeleteMessages = true → answer ≠ .error)
    (hstep : AnswerStep (s.removeRequest index pending) pending answer s') : SettledInv s' := by
  have hwait := h.waiting pending (mem_of_getElem? hidx)
  have hperm := removeRequest_perm hidx
  have hdisj := pairwise_cons.mp (hperm.symm.pairwise h.disjoint fun hpq _ hq hp => hpq hp hq)
  have hnone : s.databaseQueue.countP DatabaseJob.isLoad = 0 := by
    rw [h.loads, phase_of_mem_requests (mem_of_getElem? hidx)]
    rfl
  have hhanded : ∀ row, (s.removeRequest index pending).Handed row → row.stamp < s.nextStamp :=
    fun row hrow => hrow.of_removeRequest.elim (h.handed row) (hwait.stamps row)
  have hsentOnce : (s.answered ++ [pending]).Pairwise (SentAgain Request.Continues) :=
    pairwise_append.mpr ⟨h.sentOnce, pairwise_singleton _ _, fun earlier hearlier p hp =>
      mem_singleton.mp hp ▸ hwait.again earlier hearlier⟩
  have hawaits : ∀ row ∈ s.table, (s.removeRequest index pending).Handed row → row ∈ pending.origin.builtFrom ∨
      (∃ q ∈ s.requests.eraseIdx index, row ∈ q.origin.builtFrom) ∨ ConfirmedFirst row s.databaseQueue := by
    intro row hrow hhanded
    rcases hhanded.of_removeRequest with hold | hnew
    · rcases h.awaits row hrow hold with ⟨q, hq, hm⟩ | hfirst
      · rcases mem_cons.mp (hperm.mem_iff.mpr hq) with rfl | hrest
        · exact .inl hm
        · exact .inr (.inl ⟨q, hrest, hm⟩)
      · exact .inr (.inr hfirst)
    · exact .inl hnew
  -- only deletions of messages wait together
  have hrest : (pending.request.isDeleteMessages = true → s.requests.eraseIdx index = []) →
      s.requests.eraseIdx index = [] := by
    intro hlast
    rcases hwait.alone with hdelete | halone
    · exact hlast hdelete
    · exact removeRequest_of_alone hidx halone
  cases hstep with
  | continues next hcontinues horigin hprep halone =>
    have hlast := hrest fun hdelete => absurd (halone.symm.trans hdelete) Bool.false_ne_true
    refine ⟨hnone, h.table, hhanded, fun _ hl => (nomatch hl), nofun, fun p hp => ?_, pairwise_singleton _ _,
      hsentOnce, fun row hrow hrowHanded => ?_⟩
    · obtain rfl := mem_singleton.mp hp
      refine ⟨hprep, fun row hrow => hwait.stamps row (horigin ▸ hrow), fun earlier hearlier => ?_, .inr rfl⟩
      rcases mem_append.mp hearlier with hold | hnew
      · exact sentAgain_trans (hwait.again earlier hold) horigin hcontinues
      · obtain rfl := mem_singleton.mp hnew
        exact fun _ _ _ => hcontinues
    · rcases hawaits row hrow hrowHanded with hm | ⟨q, hq, -⟩ | hfirst
      · exact .inl ⟨next, mem_singleton_self _, horigin ▸ hm⟩
      · rw [hlast] at hq
        exact absurd hq not_mem_nil
      · exact .inr hfirst
  | settles actions full hconf hcovers hlast =>
    refine ⟨?_, h.table, hhanded, fun _ hl => (nomatch hl), nofun, fun _ hp => absurd hp not_mem_nil,
      List.Pairwise.nil, hsentOnce, fun row hrow hrowHanded => .inr (ConfirmedFirst.append ?_ _)⟩
    · simp [execute, ActionQueue.confirmQueuedActions, removeRequest, DatabaseJob.isLoad, hnone, ActorPhase.loads]
    · rcases hawaits row hrow hrowHanded with hm | ⟨q, hq, -⟩ | hfirst
      · exact confirmedFirst_append hnone (.inl (hconf row hm))
      · rw [hrest hlast] at hq
        exact absurd hq not_mem_nil
      · exact hfirst.append _
  | settlesPart actions full hconf hcovers hsome =>
    refine ⟨?_, h.table, hhanded, fun _ hl => (nomatch hl), fun hwaits => hsome (ActorPhase.waiting.inj hwaits),
      fun q hq => ?_, hdisj.2, hsentOnce, fun row hrow hrowHanded => ?_⟩
    · simp [ActionQueue.confirmQueuedActions, removeRequest, DatabaseJob.isLoad, hnone, ActorPhase.loads]
    · have hold := h.waiting q (mem_of_mem_eraseIdx hq)
      refine ⟨hold.prepared, hold.stamps, fun earlier hearlier => ?_, ?_⟩
      · rcases mem_append.mp hearlier with holder | hnew
        · exact hold.again earlier holder
        · obtain rfl := mem_singleton.mp hnew
          exact fun row hrow hrow' => absurd hrow' (hdisj.1 q hq hrow)
      · refine .inl (hold.alone.resolve_right fun halone => hsome (removeRequest_of_alone hidx halone))
    · rcases hawaits row hrow hrowHanded with hm | hother | hfirst
      · exact .inr (confirmedFirst_append hnone (.inl (hconf row hm)))
      · exact .inl hother
      · exact .inr (hfirst.append _)
  | dropsLast hdelete herror | drops hdelete herror => exact absurd herror (hsucceeds hdelete)

theorem step (h : SettledInv s) {event : ActionQueueEvent} (hsucceed : s.DeletionsSucceed event) :
    SettledInv (s.stepQueue event) := by
  cases event with
  | storeQueuedActions actions => exact h.addStore actions
  | requestActor =>
    dsimp only [stepQueue]
    split
    · next hph => exact h.requestActor hph
    · exact h
  | runDatabase order => exact h.runDatabase order
  | runStage records =>
    dsimp only [stepQueue]
    split
    · next loaded hph =>
      exact h.startBatch hph (fun _ hrow => (mem_nextBatch hrow).1) (startBatch_step s records loaded records.firstKey)
    · exact h
  | answer index answer =>
    dsimp only [stepQueue]
    split
    · exact h
    · next pending hidx =>
      exact h.answer hidx (hsucceed pending hidx)
        (handleAnswer_step answer (h.waiting pending (mem_of_getElem? hidx)).prepared)

end SettledInv

variable (actions : List TGDatabaseAction)

theorem settledInv_init : SettledInv (initActionQueue actions) := by
  have hstep := storeRows_step ⟨[], [], .idle, ⟨0, 0, 0, 0, false⟩, 0, [], []⟩ actions
  change SettledInv (storeRows actions ⟨[], [], .idle, ⟨0, 0, 0, 0, false⟩, 0, [], []⟩)
  have hnotHanded (table : List ActionRow) (nextStamp : Nat) (row : ActionRow) :
      ¬Handed ⟨table, [], .idle, ⟨0, 0, 0, 0, false⟩, nextStamp, [], []⟩ row := by
    simp [Handed]
  rw [hstep.rest]
  refine ⟨rfl, hstep.table ⟨by simp, by simp⟩, fun row hhanded => ?_, fun _ hl => (nomatch hl), nofun,
    fun _ hp => absurd hp not_mem_nil, List.Pairwise.nil, List.Pairwise.nil, fun row _ hhanded => ?_⟩
  · exact absurd hhanded (hnotHanded _ _ row)
  · exact absurd hhanded (hnotHanded _ _ row)

theorem settles (h : SettledInv s) {event : ActionQueueEvent} (hsucceed : s.DeletionsSucceed event) :
    s.Settles Request.Continues event := by
  have hnext := h.step hsucceed
  refine ⟨fun order jobs _ hq => h.confirmed hq, hnext.sentOnce, hnext.goesOn, fun hbusy hidle => ?_⟩
  cases event with
  | storeQueuedActions actions => exact absurd hidle hbusy
  | requestActor =>
    dsimp only [stepQueue] at hidle
    split at hidle
    · exact ActorPhase.noConfusion hidle
    · exact absurd hidle hbusy
  | runDatabase order =>
    dsimp only [stepQueue] at hidle
    split at hidle
    · exact absurd hidle hbusy
    · next job jobs hq =>
      cases job with
      | storeQueuedActions actions =>
        have hrest := (storeRows_step { s with databaseQueue := jobs } actions).rest
        change (storeRows actions { s with databaseQueue := jobs }).phase = .idle at hidle
        rw [hrest] at hidle
        exact absurd hidle hbusy
      | confirmQueuedActions actions full origin => exact absurd hidle hbusy
      | loadQueuedActions => exact ActorPhase.noConfusion hidle
  | runStage records =>
    dsimp only [stepQueue] at hidle
    split at hidle
    · next loaded hph =>
      have hstep := startBatch_step s records loaded records.firstKey
      revert hidle hstep
      generalize s.startBatch records loaded (nextBatch records.firstKey loaded.rows) = s'
      intro hidle hstep
      cases hstep with
      | sends | confirms => exact ActorPhase.noConfusion hidle
      | completes hnothing => exact ⟨loaded, hph, (nextBatch_rows_eq_nil hnothing).2⟩
    · exact absurd hidle hbusy
  | answer index answer =>
    dsimp only [stepQueue] at hidle
    split at hidle
    · exact absurd hidle hbusy
    · next pending hidx =>
      have hstep : AnswerStep (s.removeRequest index pending) pending answer _ :=
        handleAnswer_step answer (h.waiting pending (mem_of_getElem? hidx)).prepared
      revert hidle hstep
      generalize (s.removeRequest index pending).handleAnswer pending answer = s'
      intro hidle hstep
      cases hstep <;> exact ActorPhase.noConfusion hidle

/-! ## The number of rows -/

/-- The table after the jobs of the queue, where they store nothing. -/
def settledTable (jobs : List DatabaseJob) (table : List ActionRow) : List ActionRow :=
  jobs.foldl (fun table job =>
    match job with
    | .confirmQueuedActions actions requireFullMatch _ => confirmRows actions requireFullMatch table
    | _ => table) table

/-- Each confirmation of the queue will find a row. -/
def AllFind : List DatabaseJob → List ActionRow → Prop
  | [], _ => True
  | .confirmQueuedActions actions requireFullMatch _ :: jobs, table =>
    (∃ row ∈ table, ∃ action ∈ actions, action.confirms requireFullMatch row.action = true) ∧
      AllFind jobs (confirmRows actions requireFullMatch table)
  | _ :: jobs, table => AllFind jobs table

theorem settledTable_append (jobs more : List DatabaseJob) (table : List ActionRow) :
    settledTable (jobs ++ more) table = settledTable more (settledTable jobs table) :=
  foldl_append

variable {jobs : List DatabaseJob} {table : List ActionRow}

theorem allFind_append {more : List DatabaseJob} :
    AllFind (jobs ++ more) table ↔ AllFind jobs table ∧ AllFind more (settledTable jobs table) := by
  induction jobs generalizing table with
  | nil => simp [AllFind, settledTable]
  | cons job jobs ih =>
    cases job with
    | storeQueuedActions actions | loadQueuedActions => exact ih
    | confirmQueuedActions actions full origin =>
      change _ ∧ AllFind (jobs ++ more) _ ↔ (_ ∧ AllFind jobs _) ∧ _
      rw [ih, and_assoc]
      rfl

theorem settledTable_subset (h : row ∈ settledTable jobs table) : row ∈ table := by
  induction jobs generalizing table with
  | nil => exact h
  | cons job jobs ih =>
    cases job with
    | storeQueuedActions actions | loadQueuedActions => exact ih h
    | confirmQueuedActions actions full origin => exact mem_of_mem_filter (ih h)

/-- The queue of the database while nothing is stored, and the rows that the actor holds, which are in the table. -/
def ShrinkingPhase (s : ActionQueue) : Prop :=
  match s.phase with
  | .idle => s.databaseQueue = []
  | .loading =>
    ∃ confirmations, s.databaseQueue = confirmations ++ [.loadQueuedActions] ∧
      ∀ job ∈ confirmations, job.isConfirm = true
  | .loaded loaded => s.databaseQueue = [] ∧ ∀ row ∈ loaded.rows, row ∈ s.table
  | .waiting requests =>
    (∀ job ∈ s.databaseQueue, job.isConfirm = true) ∧
      ∀ pending ∈ requests, ∀ row ∈ pending.origin.builtFrom, row ∈ settledTable s.databaseQueue s.table

structure ShrinkingInv (s : ActionQueue) : Prop extends SettledInv s where
  phase : s.ShrinkingPhase
  allFind : AllFind s.databaseQueue s.table

namespace ShrinkingInv

variable {s : ActionQueue}

theorem rowsDecrease (h : ShrinkingInv s) (event : ActionQueueEvent) : s.RowsDecrease event := by
  rintro order actions full origin jobs rfl hq
  have hfind := h.allFind
  rw [hq] at hfind
  obtain ⟨⟨row, hrow, action, hact, hconf⟩, -⟩ := hfind
  dsimp only [stepQueue]
  rw [hq]
  refine length_filter_lt_length_iff_exists.mpr ⟨row, hrow, ?_⟩
  simpa using ⟨action, hact, hconf⟩

variable {jobs : List DatabaseJob}

theorem runConfirm (h : ShrinkingInv s) {actions : List TGDatabaseAction} {full : Bool} {origin : Origin}
    (hq : s.databaseQueue = .confirmQueuedActions actions full origin :: jobs) :
    ShrinkingInv { s with databaseQueue := jobs, table := confirmRows actions full s.table } := by
  have hph := h.phase
  have hfind := h.allFind
  rw [hq] at hfind
  refine ⟨h.toSettledInv.runConfirm hq, ?_, hfind.2⟩
  unfold ShrinkingPhase at hph ⊢
  dsimp only
  split at hph
  · next hidle => exact absurd (hph.symm.trans hq) (cons_ne_nil _ _).symm
  · obtain ⟨confirmations, hconfs, hall⟩ := hph
    rw [hq] at hconfs
    cases confirmations with
    | nil => simp at hconfs
    | cons first others =>
      exact ⟨others, (List.cons.inj hconfs).2, fun job hjob => hall job (mem_cons_of_mem first hjob)⟩
  · exact absurd (hph.1.symm.trans hq) (cons_ne_nil _ _).symm
  · rw [hq] at hph
    exact ⟨fun job hjob => hph.1 job (mem_cons_of_mem _ hjob), hph.2⟩

theorem runLoad (h : ShrinkingInv s) (hq : s.databaseQueue = .loadQueuedActions :: jobs)
    (order : RowOrder ActionRow) :
    ShrinkingInv { s with databaseQueue := jobs, phase := .loaded ⟨order.read s.table, s.nextStamp⟩ } := by
  have hph := h.phase
  unfold ShrinkingPhase at hph
  rw [(h.requests_eq_nil_of_load hq).1] at hph
  obtain ⟨confirmations, hconfs, hall⟩ := hph
  have hjobs : jobs = [] := by
    rw [hq] at hconfs
    cases confirmations with
    | nil => simpa using hconfs
    | cons first others =>
      obtain ⟨rfl, -⟩ := List.cons.inj hconfs
      exact absurd (hall _ mem_cons_self) Bool.false_ne_true
  refine ⟨h.toSettledInv.runLoad hq order, ⟨hjobs, fun row hrow => (order.perm s.table).mem_iff.mp hrow⟩, ?_⟩
  rw [hjobs]
  trivial

theorem runDatabase (h : ShrinkingInv s) (order : RowOrder ActionRow) : ShrinkingInv (s.stepQueue (.runDatabase order)) := by
  dsimp only [stepQueue]
  split
  · exact h
  · next job jobs hq =>
    cases job with
    | storeQueuedActions actions =>
      -- no store stands in the queue
      have hph := h.phase
      unfold ShrinkingPhase at hph
      split at hph
      · rw [hq] at hph
        exact absurd hph (cons_ne_nil _ _)
      · obtain ⟨confirmations, hconfs, hall⟩ := hph
        rw [hq] at hconfs
        cases confirmations with
        | nil => simp at hconfs
        | cons first others =>
          obtain ⟨rfl, -⟩ := List.cons.inj hconfs
          exact absurd (hall _ mem_cons_self) Bool.false_ne_true
      · rw [hq] at hph
        exact absurd hph.1 (cons_ne_nil _ _)
      · rw [hq] at hph
        exact absurd (hph.1 _ mem_cons_self) Bool.false_ne_true
    | confirmQueuedActions actions full origin => exact h.runConfirm hq
    | loadQueuedActions => exact h.runLoad hq order

variable {s' : ActionQueue}

theorem startBatch (h : ShrinkingInv s) {loaded : LoadedActions} (hph : s.phase = .loaded loaded)
    {records : PeerRecords} {batch : Batch} (hbatch : ∀ row ∈ batch.rows, row ∈ loaded.rows)
    (hstep : BatchStep s records loaded batch s') : ShrinkingInv s' := by
  have hsettled := h.toSettledInv.startBatch hph hbatch hstep
  have hshrinking := h.phase
  unfold ShrinkingPhase at hshrinking
  rw [hph] at hshrinking
  obtain ⟨hq, hrows⟩ := hshrinking
  cases hstep with
  | sends memory requests hne hprep horigin =>
    refine ⟨hsettled, ⟨fun job hjob => ?_, fun p hp row hrow => ?_⟩, h.allFind⟩
    · change job ∈ s.databaseQueue at hjob
      rw [hq] at hjob
      exact absurd hjob not_mem_nil
    · change row ∈ settledTable s.databaseQueue s.table
      rw [hq]
      exact hrows row (hbatch row ((horigin p hp).2 row hrow))
  | confirms memory messages actions full builtFrom hsome hsent hbuilt hconf =>
    refine ⟨hsettled, ⟨[.confirmQueuedActions actions full ⟨loaded, builtFrom⟩], ?_, by simp [DatabaseJob.isConfirm]⟩, ?_⟩
    · simp [execute, confirmQueuedActions, hq]
    · obtain ⟨row, hrow⟩ := exists_mem_of_ne_nil _ hsome
      change AllFind (s.databaseQueue ++ [_] ++ [_]) s.table
      rw [hq]
      exact ⟨⟨row, hrows row (hbatch row hrow), hconf row hrow⟩, trivial⟩
  | completes => exact ⟨hsettled, hq, h.allFind⟩

theorem answer (h : ShrinkingInv s) {index : Nat} {answer : Answer} (hidx : s.requests[index]? = some pending)
    (hsucceeds : pending.request.isDeleteMessages = true → answer ≠ .error)
    (hstep : AnswerStep (s.removeRequest index pending) pending answer s') : ShrinkingInv s' := by
  have hsettled := h.toSettledInv.answer hidx hsucceeds hstep
  have hm := mem_of_getElem? hidx
  have hshrinking := h.phase
  unfold ShrinkingPhase at hshrinking
  rw [phase_of_mem_requests hm] at hshrinking
  obtain ⟨hqueue, hrows⟩ := hshrinking
  have hfind {actions : List TGDatabaseAction} {full : Bool} (more : List DatabaseJob)
      (hconf : Confirms actions full pending.origin.builtFrom) (hmore : ∀ table, AllFind more table) :
      AllFind (s.databaseQueue ++ .confirmQueuedActions actions full pending.origin :: more) s.table := by
    obtain ⟨row, hrow⟩ := exists_mem_of_ne_nil _ (h.waiting pending hm).prepared.ne_nil
    exact allFind_append.mpr ⟨h.allFind, ⟨row, hrows pending hm row hrow, hconf row hrow⟩, hmore _⟩
  cases hstep with
  | continues next hcontinues horigin =>
    refine ⟨hsettled, ⟨hqueue, fun p hp row hrow => ?_⟩, h.allFind⟩
    obtain rfl := mem_singleton.mp hp
    exact hrows pending hm row (horigin ▸ hrow)
  | settles actions full hconf =>
    refine ⟨hsettled, ⟨s.databaseQueue ++ [.confirmQueuedActions actions full pending.origin], rfl, fun job hjob => ?_⟩, ?_⟩
    · rcases mem_append.mp hjob with hold | hnew
      · exact hqueue job hold
      · obtain rfl := mem_singleton.mp hnew
        rfl
    · change AllFind (s.databaseQueue ++ [_] ++ [_]) s.table
      rw [append_assoc]
      exact hfind _ hconf fun _ => trivial
  | settlesPart actions full hconf hcovers =>
    refine ⟨hsettled, ⟨fun job hjob => ?_, fun q hq row hrow => ?_⟩, hfind [] hconf fun _ => trivial⟩
    · rcases mem_append.mp hjob with hold | hnew
      · exact hqueue job hold
      · obtain rfl := mem_singleton.mp hnew
        rfl
    · have hleft := hrows q (mem_of_mem_eraseIdx hq) row hrow
      change row ∈ settledTable (s.databaseQueue ++ [_]) s.table
      rw [settledTable_append]
      refine mem_filter.mpr ⟨hleft, ?_⟩
      simp only [Bool.not_eq_true', any_eq_false]
      intro action hact hconfirms'
      obtain ⟨built, hbuilt, hkey⟩ := hcovers action hact
      have hsame : row = built :=
        h.table.keys row (settledTable_subset hleft) built (settledTable_subset (hrows pending hm built hbuilt))
          ((key_of_confirms hconfirms').trans hkey.symm)
      have hdisj := pairwise_cons.mp
        ((removeRequest_perm hidx).symm.pairwise h.disjoint fun hpq _ hq hp => hpq hp hq)
      exact hdisj.1 q hq hbuilt (hsame ▸ hrow)
  | dropsLast hdelete herror | drops hdelete herror => exact absurd herror (hsucceeds hdelete)

theorem step (h : ShrinkingInv s) {event : ActionQueueEvent} (hsucceed : s.DeletionsSucceed event)
    (hstore : event.isStore = false) : ShrinkingInv (s.stepQueue event) := by
  cases event with
  | storeQueuedActions actions => exact absurd hstore.symm Bool.false_ne_true
  | requestActor =>
    dsimp only [stepQueue]
    split
    · next hidle =>
      have hph := h.phase
      unfold ShrinkingPhase at hph
      rw [hidle] at hph
      refine ⟨h.toSettledInv.requestActor hidle, ⟨[], by simp [execute, hph], by simp⟩, ?_⟩
      simp [execute, hph, AllFind]
    · exact h
  | runDatabase order => exact h.runDatabase order
  | runStage records =>
    dsimp only [stepQueue]
    split
    · next loaded hph =>
      exact h.startBatch hph (fun _ hrow => (mem_nextBatch hrow).1) (startBatch_step s records loaded records.firstKey)
    · exact h
  | answer index answer =>
    dsimp only [stepQueue]
    split
    · exact h
    · next pending hidx =>
      exact h.answer hidx (hsucceed pending hidx)
        (handleAnswer_step answer (h.waiting pending (mem_of_getElem? hidx)).prepared)

end ShrinkingInv

theorem shrinkingInv_init : ShrinkingInv (initActionQueue actions) := by
  have hstep := storeRows_step ⟨[], [], .idle, ⟨0, 0, 0, 0, false⟩, 0, [], []⟩ actions
  have hinit : initActionQueue actions = storeRows actions ⟨[], [], .idle, ⟨0, 0, 0, 0, false⟩, 0, [], []⟩ := rfl
  refine ⟨settledInv_init actions, ?_, ?_⟩
  · rw [hinit, hstep.rest]
    rfl
  · rw [hinit, hstep.rest]
    trivial

/-- **Answered actions are settled**, over any table, in any order of steps and with any answers, as long as the deletions
of messages succeed; and while nothing is stored every confirmation takes a row away. -/
theorem answeredActions_settled (actions : List TGDatabaseAction) {events : List ActionQueueEvent}
    (h : AllSteps stepQueue DeletionsSucceed (initActionQueue actions) events) :
    AllSteps stepQueue (Settles Request.Continues) (initActionQueue actions) events ∧
      ((∀ event ∈ events, event.isStore = false) → AllSteps stepQueue RowsDecrease (initActionQueue actions) events) := by
  refine ⟨?_, fun hstore => ?_⟩
  · have hstep : ∀ s event, SettledInv s → s.DeletionsSucceed event → SettledInv (s.stepQueue event) :=
      fun _ _ hinv hsucceed => hinv.step hsucceed
    exact AllSteps.of_invariant hstep (fun _ _ hinv hsucceed => settles hinv hsucceed) (settledInv_init actions) h
  · have hstep : ∀ s event, ShrinkingInv s → s.DeletionsSucceed event ∧ event.isStore = false →
        ShrinkingInv (s.stepQueue event) := fun _ _ hinv hcond => hinv.step hcond.1 hcond.2
    exact AllSteps.of_invariant hstep (fun _ event hinv _ => hinv.rowsDecrease event) (shrinkingInv_init actions)
      (h.and (allSteps_of_forall hstore _))

def deleteOneMessage : TGDatabaseAction := ⟨.deleteMessage, 5, 0, 0, fun _ => by decide⟩

def deleteGroup : TGDatabaseAction := ⟨.deleteConversation, -7, 30, 0, nofun⟩

def noSecretChats : PeerRecords := ⟨fun _ => 0, fun _ => 0, fun _ => 0, fun _ => [], 0⟩

/-- A deletion that succeeds, after which the actor completes. -/
theorem answeredActions_settled_deletion :
    AllSteps stepQueue (Settles Request.Continues) (initActionQueue [deleteOneMessage])
      [.requestActor, .runDatabase .asStored, .runStage noSecretChats, .answer 0 (.success 0), .runDatabase .asStored,
        .runDatabase .asStored, .runStage noSecretChats] := by
  apply And.left
  apply answeredActions_settled
  exact ⟨trivial, trivial, trivial, fun _ _ _ => Answer.noConfusion, trivial, trivial, trivial, trivial⟩

/-- A deletion of messages that fails leaves its row, which is loaded again; and a group is left and then deleted with two
requests for one row. -/
theorem settles_fails :
    ¬AllSteps stepQueue (Settles Request.ContinuesFromOffset) (initActionQueue [deleteOneMessage])
        [.requestActor, .runDatabase .asStored, .runStage noSecretChats, .answer 0 .error, .runDatabase .asStored] ∧
      ¬AllSteps stepQueue (Settles Request.ContinuesFromOffset) (initActionQueue [deleteGroup])
        [.requestActor, .runDatabase .asStored, .runStage noSecretChats, .answer 0 (.success 0),
          .answer 0 (.success 0)] := by
  constructor
  · rintro ⟨-, -, -, -, hload, -⟩
    exact hload.confirmed .asStored [] rfl rfl ⟨0, deleteOneMessage⟩ (by decide) (Or.inl ⟨_, mem_singleton_self _, by decide⟩)
  · rintro ⟨-, -, -, -, hagain, -⟩
    have hpair := (pairwise_cons.mp hagain.sentOnce).1 _ (mem_singleton_self _)
    exact hpair ⟨0, deleteGroup⟩ (by decide) (by decide)

end ActionQueue

end TelegramClient.Database
