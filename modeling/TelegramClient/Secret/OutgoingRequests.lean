import TelegramClient.Secret.OutgoingQueue
import TelegramClient.Lib.Runs

/-!
# Which outgoing messages of a secret chat are requested

The rows of the two tables, the messages and those to be sent again, have ids of their own, while the actor remembers
the ids of its requests in one set, from which only a failed request is taken out.

* `IdleRowsSent` : a poll issues one request for every row that has no request under way;
* `idleRowsSent_iff` : the polls of a run issue what they should exactly if they meet the condition.
-/

namespace TelegramClient.Secret
open List

open OutgoingQueue

/-! ## What a poll should do -/

def OutgoingSnapshot.rowsOf (snapshot : OutgoingSnapshot) : Bool → List OutgoingRow
  | false => snapshot.actions
  | true => snapshot.resendActions

def OutgoingRequest.isFor (isResend : Bool) (row : OutgoingRow) (request : OutgoingRequest) : Bool :=
  request.isResend == isResend && request.actionId == row.actionId

def OutgoingQueue.Idle (s : OutgoingQueue) (isResend : Bool) (row : OutgoingRow) : Prop :=
  ∀ request ∈ s.requests, request.isFor isResend row = false

/-- The requests that an event adds to those under way. -/
def OutgoingQueue.issued (s : OutgoingQueue) (event : OutgoingEvent) : List OutgoingRequest :=
  (stepOutgoing s event).requests.drop s.requests.length

/-- A poll issues one request for every row that it has read and that has no request under way. -/
def IdleRowsSent (s : OutgoingQueue) : OutgoingEvent → Prop
  | .runStage => ∀ snapshot, s.stageQueue.head? = some snapshot → ∀ isResend, ∀ row ∈ snapshot.rowsOf isResend,
      s.Idle isResend row →
        (s.issued .runStage).filter (·.isFor isResend row) = [outgoingRequest snapshot.actor isResend row]
  | _ => True

/-! ## What the actors have sent -/

/-- A queue, and the requests that the actors have sent, without those whose id a failure has freed since. -/
structure OutgoingTrace where
  queue : OutgoingQueue
  sent : List OutgoingRequest

def initTrace (peerLayer : Nat) : OutgoingTrace := ⟨initOutgoing peerLayer, []⟩

def stepTrace (t : OutgoingTrace) (event : OutgoingEvent) : OutgoingTrace where
  queue := stepOutgoing t.queue event
  sent :=
    match event with
    | .runStage => t.sent ++ t.queue.issued .runStage
    | .completed index true =>
      match t.queue.requests[index]? with
      | none => t.sent
      | some failed => t.sent.filter fun request => ¬(request.actor = failed.actor ∧ request.actionId = failed.actionId)
    | _ => t.sent

/-- No row that should get a request has the id of one that the actor has sent. -/
def IdsUnused (t : OutgoingTrace) : OutgoingEvent → Prop
  | .runStage => ∀ snapshot, t.queue.stageQueue.head? = some snapshot → ∀ isResend, ∀ row ∈ snapshot.rowsOf isResend,
      t.queue.Idle isResend row →
        ∀ request ∈ t.sent, request.actor = snapshot.actor → request.actionId ≠ row.actionId
  | _ => True

/-! ## The ids of the rows -/

def Numbered (rows : List OutgoingRow) (next : Nat) : Prop :=
  (rows.map (·.actionId)).Nodup ∧ ∀ row ∈ rows, row.actionId < next

variable {rows : List OutgoingRow} {next : Nat}

theorem Numbered.filter (h : Numbered rows next) (p : OutgoingRow → Bool) : Numbered (rows.filter p) next :=
  ⟨h.1.sublist (filter_sublist.map _), fun row hrow => h.2 row (mem_of_mem_filter hrow)⟩

variable {row : OutgoingRow}

theorem Numbered.concat (h : Numbered rows next) (hid : row.actionId = next) : Numbered (rows ++ [row]) (next + 1) := by
  obtain ⟨hnd, hlt⟩ := h
  constructor
  · rw [map_append, map_singleton, nodup_append]
    refine ⟨hnd, nodup_singleton _, fun id hid id' hid' => ?_⟩
    obtain ⟨row', hrow', rfl⟩ := mem_map.mp hid
    have := hlt row' hrow'
    rw [mem_singleton.mp hid']
    omega
  · intro row' hrow'
    rcases mem_append.mp hrow' with hm | hm
    · have := hlt row' hm
      omega
    · rw [mem_singleton.mp hm]
      omega

theorem Numbered.append (h : Numbered rows next) (actions : List OutgoingRow) :
    Numbered (rows ++ actions.mapIdx fun i row => { row with actionId := next + i }) (next + actions.length) := by
  induction actions generalizing rows next with
  | nil => simpa using h
  | cons action actions ih =>
    have hconcat : Numbered (rows ++ [{ action with actionId := next }]) (next + 1) := h.concat rfl
    have hnext := ih hconcat
    have hmap : (action :: actions).mapIdx (fun i row => { row with actionId := next + i }) =
        { action with actionId := next } :: actions.mapIdx fun i row => { row with actionId := next + 1 + i } := by
      rw [mapIdx_cons]
      simp only [Nat.add_zero, Nat.add_assoc, Nat.add_comm 1]
    rw [hmap, append_cons, length_cons, show next + (actions.length + 1) = next + 1 + actions.length by omega]
    exact hnext

/-- The ids of a table differ, and so do those that a poll has read. -/
structure TablesNumbered (s : OutgoingQueue) : Prop where
  rows : Numbered s.rows s.nextActionId
  resendRows : Numbered s.resendRows s.nextResendActionId
  snapshots : ∀ snapshot ∈ s.stageQueue, ∀ isResend, ((snapshot.rowsOf isResend).map (·.actionId)).Nodup

variable (executing : List Nat) (peerLayer : Nat)

theorem tablesNumbered_init : TablesNumbered (initOutgoing peerLayer) where
  rows := ⟨nodup_nil, by simp [initOutgoing]⟩
  resendRows := ⟨nodup_nil, by simp [initOutgoing]⟩
  snapshots := by simp [initOutgoing]

variable {s : OutgoingQueue}

theorem TablesNumbered.poll (h : TablesNumbered s) : TablesNumbered s.poll where
  rows := h.rows
  resendRows := h.resendRows
  snapshots := by
    intro snapshot hm isResend
    rcases mem_append.mp hm with hold | hnew
    · exact h.snapshots snapshot hold isResend
    · rw [mem_singleton.mp hnew]
      cases isResend with
      | false => exact (h.rows.filter _).1
      | true => exact h.resendRows.1

theorem TablesNumbered.requestCompleted (h : TablesNumbered s) (request : OutgoingRequest) (error : Bool) :
    TablesNumbered (s.requestCompleted request error) := by
  unfold OutgoingQueue.requestCompleted OutgoingQueue.actionCompletedWithId
  split
  · exact ⟨h.rows, h.resendRows, h.snapshots⟩
  · split
    · exact ⟨h.rows, h.resendRows.filter _, h.snapshots⟩
    · split
      · exact ⟨h.rows, h.resendRows, h.snapshots⟩
      · exact ⟨h.rows.filter _, h.resendRows, h.snapshots⟩

theorem TablesNumbered.step (h : TablesNumbered s) (event : OutgoingEvent) : TablesNumbered (stepOutgoing s event) := by
  cases event with
  | enqueue action => exact ⟨h.rows.concat rfl, h.resendRows, h.snapshots⟩
  | enqueueResend fromSeq toSeq => exact ⟨h.rows, h.resendRows.append _, h.snapshots⟩
  | applyPeerSeqIn seqIn => exact ⟨h.rows, h.resendRows, h.snapshots⟩
  | poll => exact h.poll
  | runStage =>
    simp only [stepOutgoing]
    split
    · exact h
    · next snapshot snapshots hstage =>
      exact ⟨h.rows, h.resendRows, fun _ hm => h.snapshots _ (hstage ▸ mem_cons_of_mem _ hm)⟩
  | completed index error =>
    simp only [stepOutgoing]
    split
    · exact h
    · next request _ =>
      have hq : TablesNumbered { s with requests := s.requests.eraseIdx index } :=
        ⟨h.rows, h.resendRows, h.snapshots⟩
      exact hq.requestCompleted request error
  | confirm seqOut => exact ⟨h.rows.filter _, h.resendRows, h.snapshots⟩
  | restart => exact TablesNumbered.poll ⟨h.rows, h.resendRows, h.snapshots⟩
  | relaunch => exact TablesNumbered.poll ⟨h.rows, h.resendRows, by simp⟩

/-! ## What the actors remember -/

/-- The set of an actor has the ids of the requests that it has sent. -/
def OutgoingTrace.Remembers (t : OutgoingTrace) : Prop :=
  ∀ actor id, id ∈ t.queue.executingRequestsActionIds actor ↔
    ∃ request ∈ t.sent, request.actor = actor ∧ request.actionId = id

def newRequests (executing : List Nat) (snapshot : OutgoingSnapshot) : List OutgoingRequest :=
  (snapshot.actions.filter fun action => !executing.contains action.actionId).map
      (outgoingRequest snapshot.actor false) ++
    (snapshot.resendActions.filter fun action => !executing.contains action.actionId).map
      (outgoingRequest snapshot.actor true)

section
variable {s : OutgoingQueue} {snapshot : OutgoingSnapshot}

theorem issued_runStage (hhead : s.stageQueue.head? = some snapshot) :
    s.issued .runStage = newRequests (s.executingRequestsActionIds snapshot.actor) snapshot := by
  obtain ⟨snapshots, hstage⟩ := head?_eq_some_iff.mp hhead
  have hstep : stepOutgoing s .runStage = { s with stageQueue := snapshots }.sendRequests snapshot := by
    simp only [stepOutgoing, hstage]
  rw [OutgoingQueue.issued, hstep]
  exact drop_left

theorem executing_runStage (hhead : s.stageQueue.head? = some snapshot) :
    (stepOutgoing s .runStage).executingRequestsActionIds =
      Function.update s.executingRequestsActionIds snapshot.actor
        (s.executingRequestsActionIds snapshot.actor ++ (s.issued .runStage).map (·.actionId)) := by
  obtain ⟨snapshots, hstage⟩ := head?_eq_some_iff.mp hhead
  rw [issued_runStage hhead]
  simp only [stepOutgoing, hstage]
  rfl

theorem actor_of_mem_newRequests {executing : List Nat} {request : OutgoingRequest}
    (h : request ∈ newRequests executing snapshot) : request.actor = snapshot.actor := by
  rcases mem_append.mp h with hm | hm
  · obtain ⟨row, -, rfl⟩ := mem_map.mp hm
    rfl
  · obtain ⟨row, -, rfl⟩ := mem_map.mp hm
    rfl

end

theorem remembers_init : (initTrace peerLayer).Remembers := by
  intro actor id
  simp [initTrace, initOutgoing]

variable {t : OutgoingTrace}

theorem OutgoingTrace.Remembers.of_eq {t' : OutgoingTrace} (h : t.Remembers)
    (hexec : t'.queue.executingRequestsActionIds = t.queue.executingRequestsActionIds) (hsent : t'.sent = t.sent) :
    t'.Remembers := by
  intro actor id
  rw [hexec, hsent]
  exact h actor id

theorem OutgoingTrace.Remembers.runStage (h : t.Remembers) : (stepTrace t .runStage).Remembers := by
  cases hhead : t.queue.stageQueue.head? with
  | none =>
    have hstep : stepOutgoing t.queue .runStage = t.queue := by
      simp only [stepOutgoing, head?_eq_none_iff.mp hhead]
    have hsent : (stepTrace t .runStage).sent = t.sent := by
      show t.sent ++ t.queue.issued .runStage = t.sent
      rw [OutgoingQueue.issued, hstep, drop_length, append_nil]
    exact h.of_eq (congrArg _ hstep) hsent
  | some snapshot =>
    intro actor id
    have hactor : ∀ request ∈ t.queue.issued .runStage, request.actor = snapshot.actor := by
      rw [issued_runStage hhead]
      exact fun _ => actor_of_mem_newRequests
    show id ∈ (stepOutgoing t.queue .runStage).executingRequestsActionIds actor ↔
      ∃ request ∈ t.sent ++ t.queue.issued .runStage, request.actor = actor ∧ request.actionId = id
    rw [executing_runStage hhead]
    by_cases heq : actor = snapshot.actor
    · subst heq
      rw [Function.update_self, mem_append, h snapshot.actor id, mem_map]
      constructor
      · rintro (⟨request, hm, hrest⟩ | ⟨request, hm, hid⟩)
        · exact ⟨request, mem_append_left _ hm, hrest⟩
        · exact ⟨request, mem_append_right _ hm, hactor request hm, hid⟩
      · rintro ⟨request, hm, hrest⟩
        rcases mem_append.mp hm with hold | hnew
        · exact .inl ⟨request, hold, hrest⟩
        · exact .inr ⟨request, hnew, hrest.2⟩
    · rw [Function.update_of_ne heq, h actor id]
      constructor
      · rintro ⟨request, hm, hrest⟩
        exact ⟨request, mem_append_left _ hm, hrest⟩
      · rintro ⟨request, hm, hrest⟩
        rcases mem_append.mp hm with hold | hnew
        · exact ⟨request, hold, hrest⟩
        · exact absurd (hrest.1.symm.trans (hactor request hnew)) heq

theorem OutgoingTrace.Remembers.completed (h : t.Remembers) (index : Nat) (error : Bool) :
    (stepTrace t (.completed index error)).Remembers := by
  cases hreq : t.queue.requests[index]? with
  | none =>
    refine h.of_eq ?_ ?_
    · simp only [stepTrace, stepOutgoing, hreq]
    · cases error <;> simp only [stepTrace, hreq]
  | some failed =>
    cases error with
    | false =>
      refine h.of_eq ?_ rfl
      simp only [stepTrace, stepOutgoing, hreq, OutgoingQueue.requestCompleted, OutgoingQueue.actionCompletedWithId]
      split
      · contradiction
      · split
        · rfl
        · split <;> rfl
    | true =>
      intro actor id
      have hexec : (stepTrace t (.completed index true)).queue.executingRequestsActionIds =
          Function.update t.queue.executingRequestsActionIds failed.actor
            ((t.queue.executingRequestsActionIds failed.actor).filter (· ≠ failed.actionId)) := by
        simp only [stepTrace, stepOutgoing, hreq, OutgoingQueue.requestCompleted, if_pos]
      have hsent : (stepTrace t (.completed index true)).sent = t.sent.filter fun request =>
          ¬(request.actor = failed.actor ∧ request.actionId = failed.actionId) := by
        simp only [stepTrace, hreq]
      rw [hexec, hsent]
      simp only [mem_filter, decide_eq_true_eq]
      by_cases heq : actor = failed.actor
      · subst heq
        rw [Function.update_self, mem_filter, h failed.actor id, decide_eq_true_eq]
        constructor
        · rintro ⟨⟨request, hm, hactor, rfl⟩, hne⟩
          exact ⟨request, ⟨hm, fun hboth => hne hboth.2⟩, hactor, rfl⟩
        · rintro ⟨request, ⟨hm, hnot⟩, hactor, rfl⟩
          exact ⟨⟨request, hm, hactor, rfl⟩, fun hid => hnot ⟨hactor, hid⟩⟩
      · rw [Function.update_of_ne heq, h actor id]
        constructor
        · rintro ⟨request, hm, hactor, hid⟩
          exact ⟨request, ⟨hm, fun hboth => heq (hactor.symm.trans hboth.1)⟩, hactor, hid⟩
        · rintro ⟨request, ⟨hm, -⟩, hrest⟩
          exact ⟨request, hm, hrest⟩

theorem OutgoingTrace.Remembers.step (h : t.Remembers) (event : OutgoingEvent) : (stepTrace t event).Remembers := by
  cases event with
  | runStage => exact h.runStage
  | completed index error => exact h.completed index error
  | _ => exact h.of_eq rfl rfl

/-! ## When a poll does what it should -/

theorem isFor_outgoingRequest (isResend : Bool) (row : OutgoingRow) (actor : Nat) (isResend' : Bool)
    (row' : OutgoingRow) :
    (outgoingRequest actor isResend' row').isFor isResend row =
      (isResend' == isResend && row'.actionId == row.actionId) := rfl

theorem filter_actionId (hnd : (rows.map (·.actionId)).Nodup) (hrow : row ∈ rows) :
    rows.filter (·.actionId == row.actionId) = [row] := by
  induction rows with
  | nil => cases hrow
  | cons first rows ih =>
    rw [map_cons, nodup_cons] at hnd
    rcases mem_cons.mp hrow with rfl | hm
    · have hnone : rows.filter (·.actionId == row.actionId) = [] := by
        rw [filter_eq_nil_iff]
        intro row' hrow' heq
        exact hnd.1 (mem_map.mpr ⟨row', hrow', beq_iff_eq.mp heq⟩)
      rw [filter_cons_of_pos (by simp), hnone]
    · have hne : first.actionId ≠ row.actionId := fun heq => hnd.1 (mem_map.mpr ⟨row, hm, heq.symm⟩)
      rw [filter_cons_of_neg (by simpa using hne), ih hnd.2 hm]

theorem filter_isFor (actor : Nat) (isResend isResend' : Bool) (hnd : (rows.map (·.actionId)).Nodup)
    (hrow : isResend' = isResend → row ∈ rows) :
    ((rows.filter fun action => !executing.contains action.actionId).map (outgoingRequest actor isResend')).filter
        (·.isFor isResend row) =
      if isResend' = isResend ∧ row.actionId ∉ executing then [outgoingRequest actor isResend row] else [] := by
  rw [filter_map, filter_filter]
  by_cases heq : isResend' = isResend
  · subst heq
    have hswap : (rows.filter fun action => ((fun request : OutgoingRequest => request.isFor isResend' row) ∘
          outgoingRequest actor isResend') action && !executing.contains action.actionId) =
        (rows.filter (·.actionId == row.actionId)).filter fun action => !executing.contains action.actionId := by
      rw [filter_filter]
      apply filter_congr
      intro action _
      simp only [Function.comp_apply, isFor_outgoingRequest, beq_self_eq_true, Bool.true_and]
      exact Bool.and_comm _ _
    rw [hswap, filter_actionId hnd (hrow rfl)]
    by_cases hm : row.actionId ∈ executing
    · simp [hm]
    · simp [hm]
  · have hnone : (rows.filter fun action => ((fun request : OutgoingRequest => request.isFor isResend row) ∘
          outgoingRequest actor isResend') action && !executing.contains action.actionId) = [] := by
      rw [filter_eq_nil_iff]
      intro action _
      simp [isFor_outgoingRequest, heq]
    rw [hnone, if_neg (fun h => heq h.1)]
    rfl

theorem filter_newRequests {snapshot : OutgoingSnapshot}
    (hnd : ∀ isResend, ((snapshot.rowsOf isResend).map (·.actionId)).Nodup) (isResend : Bool)
    (hrow : row ∈ snapshot.rowsOf isResend) : (newRequests executing snapshot).filter (·.isFor isResend row) =
      if row.actionId ∈ executing then [] else [outgoingRequest snapshot.actor isResend row] := by
  have hactions := @filter_isFor _ row executing snapshot.actor isResend false (hnd false) (fun heq => heq ▸ hrow)
  have hresend := @filter_isFor _ row executing snapshot.actor isResend true (hnd true) (fun heq => heq ▸ hrow)
  simp only [OutgoingSnapshot.rowsOf] at hactions hresend
  rw [newRequests, filter_append, hactions, hresend]
  cases isResend <;> by_cases hm : row.actionId ∈ executing <;> simp [hm]

theorem idleRowsSent_step_iff (htables : TablesNumbered t.queue) (hremembers : t.Remembers) (event : OutgoingEvent) :
    IdleRowsSent t.queue event ↔ IdsUnused t event := by
  cases event with
  | runStage =>
    refine forall_congr' fun snapshot => forall_congr' fun hhead => forall_congr' fun isResend =>
      forall_congr' fun row => forall_congr' fun hrow => forall_congr' fun _ => ?_
    have hnd := htables.snapshots snapshot (mem_of_head? hhead)
    rw [issued_runStage hhead, filter_newRequests _ hnd isResend hrow]
    have hm := hremembers snapshot.actor row.actionId
    constructor
    · intro heq request hsent hactor hid
      rw [if_pos (hm.mpr ⟨request, hsent, hactor, hid⟩)] at heq
      cases heq
    · intro hunused
      apply if_neg
      intro hin
      obtain ⟨request, hsent, hactor, hid⟩ := hm.mp hin
      exact hunused request hsent hactor hid
  | _ => exact Iff.rfl

/-- Every poll of a run issues one request for each row that it has read and that has none under way exactly if, at each
poll, no such row has the id of a request that the actor has sent and that has not failed since. -/
theorem idleRowsSent_iff (peerLayer : Nat) (events : List OutgoingEvent) :
    AllSteps stepOutgoing IdleRowsSent (initOutgoing peerLayer) events ↔
      AllSteps stepTrace IdsUnused (initTrace peerLayer) events := by
  have hview : AllSteps stepTrace (fun t event => IdleRowsSent t.queue event) (initTrace peerLayer) events ↔
      AllSteps stepOutgoing IdleRowsSent (initOutgoing peerLayer) events :=
    allSteps_view fun _ _ => rfl
  have hstep : ∀ t event, True → TablesNumbered t.queue ∧ t.Remembers → IdsUnused t event →
      TablesNumbered (stepTrace t event).queue ∧ (stepTrace t event).Remembers :=
    fun _ event _ hinv _ => ⟨hinv.1.step event, hinv.2.step event⟩
  have hiff : ∀ t event, True → TablesNumbered t.queue ∧ t.Remembers →
      (IdleRowsSent t.queue event ↔ IdsUnused t event) :=
    fun _ event _ hinv => idleRowsSent_step_iff hinv.1 hinv.2 event
  rw [← hview]
  exact allSteps_iff hstep hiff ⟨tablesNumbered_init peerLayer, remembers_init peerLayer⟩
    (allSteps_of_forall (fun _ _ => trivial) _)

/-- A message is sent and answered, and the peer asks for it again. -/
def resendRun : List OutgoingEvent :=
  [.enqueue ⟨73, 5, [1]⟩, .poll, .runStage, .completed 0 false, .enqueueResend 0 0, .poll, .runStage]

/-- The row of the other table has the id 1 as well and is skipped, at this poll and at the later ones. -/
theorem resend_skipped :
    ¬AllSteps stepOutgoing IdleRowsSent (initOutgoing 73) resendRun ∧
      (runOutgoing 73 resendRun).resendRows.map (·.actionId) = [1] ∧
      (runOutgoing 73 resendRun).requests.map (·.actionId) = [] ∧
      (runOutgoing 73 (resendRun ++ [.poll, .runStage])).requests.map (·.actionId) = [] ∧
      (runOutgoing 73 (resendRun ++ [.restart, .runStage])).requests.map (·.actionId) = [1] := by
  refine ⟨fun hsent => ?_, by decide, by decide, by decide, by decide⟩
  obtain ⟨-, -, -, -, -, -, hlast, -⟩ := hsent
  have hskipped := hlast ⟨0, [], [⟨1, ⟨73, 5, [1]⟩, 0, 0⟩]⟩ rfl true ⟨1, ⟨73, 5, [1]⟩, 0, 0⟩ mem_cons_self
    (by intro request hrequest; cases hrequest)
  cases hskipped

end TelegramClient.Secret
