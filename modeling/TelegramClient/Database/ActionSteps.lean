import TelegramClient.Database.ActionQueue

/-!
# The steps of the actor of the action queue

What taking up a batch does, and what the answer of a request does, said once for all branches of `execute:` and all
handlers.

* `Request.IsFor`, `SecretServiceMessage.IsFor` : what of a row a request carries;
* `AnswerStep`, `handleAnswer_step` : after an answer a deletion goes on, or the rows are confirmed.
-/

namespace TelegramClient.Database
open List
open TGDatabaseAction (key)

/-! ## What a request is made of -/

def Request.IsFor (request : Request) (action : TGDatabaseAction) : Prop :=
  match request with
  | .conversationReadHistory conversationId maxMid =>
    action.type = .readConversation ∧ action.subject = conversationId ∧ action.arg0 = maxMid
  | .readEncryptedHistory _ _ maxDate => action.type = .readConversation ∧ action.arg0 = maxDate
  | .deleteMessages ids revoke =>
    action.type = .deleteMessage ∧ action.subject ∈ ids ∧ decide (action.arg0 % 2 = 1) = revoke
  | .deleteConversationMember conversationId =>
    action.type = .deleteConversation ∧ action.subject = conversationId
  | .rejectEncryptedChat _ => action.type = .deleteConversation
  | .deleteConversation conversationId onlyClear maxId _ =>
    action.type = (if onlyClear then .clearConversation else .deleteConversation) ∧ action.subject = conversationId ∧
      -- after a group was left, all of its history goes
      (action.arg0 = maxId ∨ maxId = 0 ∧ peerIdIsGroup conversationId = true)
  | .channelDeleteHistory conversationId maxId =>
    action.type = .clearConversation ∧ action.subject = conversationId ∧ action.arg0 = maxId
  | .readMessageContents ids => action.type = .readMessageContents ∧ action.subject ∈ ids
  | .channelReadMessageContents peerId ids =>
    action.type = .readMessageContents ∧ action.subject ∈ ids ∧ channelPeerId action = peerId
  | .sendScreenshotNotification conversationId replyToMsgId =>
    action.type = .screenshotMessage ∧ action.subject = conversationId ∧ action.arg0 = replyToMsgId

def SecretServiceMessage.IsFor (message : SecretServiceMessage) (peerId : Int) (action : TGDatabaseAction) : Prop :=
  match message with
  | .deleteMessages _ => action.type = .deleteSecretMessage
  | .flushHistory => action.type = .clearSecretConversation ∧ action.subject = peerId

def Request.isDeleteMessages : Request → Bool
  | .deleteMessages .. => true
  | _ => false

/-- The offset continuation of the deletion of a history. -/
def Request.ContinuesFromOffset (request earlier : Request) : Prop :=
  match earlier, request with
  | .deleteConversation conversationId onlyClear _ _, .deleteConversation conversationId' onlyClear' _ offset =>
    conversationId' = conversationId ∧ onlyClear' = onlyClear ∧ 0 < offset
  | _, _ => False

/-- The request goes on with the deletion that an earlier one began: from an offset, or after a group was left. -/
def Request.Continues (request earlier : Request) : Prop :=
  match earlier, request with
  | .deleteConversation .., .deleteConversation .. => request.ContinuesFromOffset earlier
  | .deleteConversationMember conversationId, .deleteConversation conversationId' onlyClear' _ _ =>
    conversationId' = conversationId ∧ onlyClear' = false
  | _, _ => False

/-! ## What the actor takes up -/

def Batch.rows : Batch → List ActionRow
  | .deleteMessages rows | .deleteSecretMessages _ rows | .readMessageContents rows
  | .channelReadMessageContents _ rows => rows
  | .readConversation row | .deleteConversation row | .clearConversation row | .clearSecretConversation row
  | .screenshotMessage row => [row]
  | .nothing => []

def Batch.type : Batch → TGDatabaseActionType
  | .readConversation _ => .readConversation
  | .deleteMessages _ => .deleteMessage
  | .deleteSecretMessages _ _ => .deleteSecretMessage
  | .deleteConversation _ => .deleteConversation
  | .clearConversation _ => .clearConversation
  | .clearSecretConversation _ => .clearSecretConversation
  | .readMessageContents _ | .channelReadMessageContents _ _ => .readMessageContents
  | .screenshotMessage _ | .nothing => .screenshotMessage

/-- The actor sends something to a peer: the secret chat has an id (and, for reading, an access hash), there is data for
its layer, and what is cleared is not a secret chat. -/
def Batch.makesRequest (records : PeerRecords) : Batch → Bool
  | .readConversation row =>
    decide (int32Min < row.action.subject) || (decide (records.encryptedConversationId row.action.subject ≠ 0) &&
      decide (records.encryptedConversationAccessHash row.action.subject ≠ 0))
  | .deleteSecretMessages peerId _ => ActionQueue.hasMessageData records peerId
  | .deleteConversation row =>
    decide (int32Min < row.action.subject) || decide (records.encryptedConversationId row.action.subject ≠ 0)
  | .clearConversation row => peerIdIsChannel row.action.subject || decide (int32Min < row.action.subject)
  | .clearSecretConversation row => ActionQueue.hasMessageData records row.action.subject
  | _ => true

variable {rows : List ActionRow} {row : ActionRow}

@[simp] theorem mem_rowsOf {type : TGDatabaseActionType} :
    row ∈ rowsOf type rows ↔ row ∈ rows ∧ row.action.type = type := by
  simp [rowsOf]

/-- One step of `secretBatch`. -/
def takeSecretRow (batch : Int × List ActionRow) (row : ActionRow) : Int × List ActionRow :=
  if batch.1 = 0 ∨ secretPeerId row.action = batch.1 then (secretPeerId row.action, batch.2 ++ [row]) else batch

theorem secretBatch_eq_foldl (rows : List ActionRow) : secretBatch rows = rows.foldl takeSecretRow (0, []) := rfl

theorem mem_foldl_takeSecretRow {batch : Int × List ActionRow} (h : row ∈ (rows.foldl takeSecretRow batch).2) :
    row ∈ batch.2 ∨ row ∈ rows := by
  induction rows generalizing batch with
  | nil => exact Or.inl h
  | cons first rows ih =>
    have hstep := ih h
    unfold takeSecretRow at hstep
    split at hstep
    · simp only [mem_append, mem_cons, not_mem_nil, or_false] at hstep ⊢
      tauto
    · simp only [mem_cons]
      tauto

theorem mem_secretBatch (h : row ∈ (secretBatch rows).2) : row ∈ rows := by
  rw [secretBatch_eq_foldl] at h
  simpa using mem_foldl_takeSecretRow h

theorem prefix_takeSecretRow (batch : Int × List ActionRow) (row : ActionRow) :
    batch.2 <+: (takeSecretRow batch row).2 := by
  unfold takeSecretRow
  split
  · exact prefix_append _ _
  · exact prefix_refl _

theorem prefix_foldl_takeSecretRow (rows : List ActionRow) (batch : Int × List ActionRow) :
    batch.2 <+: (rows.foldl takeSecretRow batch).2 := by
  induction rows generalizing batch with
  | nil => exact prefix_refl _
  | cons row rows ih => exact (prefix_takeSecretRow batch row).trans (ih _)

theorem head_mem_secretBatch (row : ActionRow) (rows : List ActionRow) : row ∈ (secretBatch (row :: rows)).2 := by
  rw [secretBatch_eq_foldl, foldl_cons]
  exact (prefix_foldl_takeSecretRow rows _).subset (by simp [takeSecretRow])

variable {firstKey : Nat}

variable {first : ActionRow}

theorem mem_contentsBatch (h : row ∈ (contentsBatch firstKey first rows).rows) : row ∈ first :: rows := by
  unfold contentsBatch at h
  split at h
  · next regular others heq =>
    have hm : row ∈ (first :: rows).filter fun row => row.action.arg1 ≠ 1 := by
      rw [heq]
      exact h
    exact mem_of_mem_filter hm
  · dsimp only [Batch.rows] at h
    exact mem_of_mem_filter h

theorem type_contentsBatch (firstKey : Nat) (first : ActionRow) (rows : List ActionRow) :
    (contentsBatch firstKey first rows).type = .readMessageContents := by
  unfold contentsBatch
  split <;> rfl

theorem contentsBatch_rows_ne_nil (firstKey : Nat) (first : ActionRow) (rows : List ActionRow) :
    (contentsBatch firstKey first rows).rows ≠ [] := by
  unfold contentsBatch
  split
  · exact cons_ne_nil _ _
  · have hlt : firstKey % (rows.length + 1) < (first :: rows).length := Nat.mod_lt _ (Nat.succ_pos _)
    have hm : (first :: rows).getD (firstKey % (rows.length + 1)) first ∈ first :: rows := by
      rw [List.getD, getElem?_eq_getElem hlt]
      exact getElem_mem hlt
    exact ne_nil_of_mem (mem_filter.mpr ⟨hm, by simp⟩)

theorem mem_nextBatch (h : row ∈ (nextBatch firstKey rows).rows) :
    row ∈ rows ∧ row.action.type = (nextBatch firstKey rows).type := by
  have of_head {type : TGDatabaseActionType} {first : ActionRow} {others : List ActionRow}
      (heq : rowsOf type rows = first :: others) {row : ActionRow} (hrow : row ∈ first :: others) :
      row ∈ rows ∧ row.action.type = type := by
    rw [← heq] at hrow
    exact mem_rowsOf.mp hrow
  unfold nextBatch at h ⊢
  split at h
  · next heq => exact of_head heq (by simpa [Batch.rows] using Or.inl h)
  split at h
  · next heq => exact of_head heq h
  split at h
  · next heq => exact of_head heq (mem_secretBatch h)
  split at h
  · next heq => exact of_head heq (by simpa [Batch.rows] using Or.inl h)
  split at h
  · next heq => exact of_head heq (by simpa [Batch.rows] using Or.inl h)
  split at h
  · next heq => exact of_head heq (by simpa [Batch.rows] using Or.inl h)
  split at h
  · next heq =>
    have hrow := of_head heq (mem_contentsBatch h)
    exact ⟨hrow.1, by rw [hrow.2, type_contentsBatch]⟩
  split at h
  · next heq => exact of_head heq (by simpa [Batch.rows] using Or.inl h)
  · exact absurd h not_mem_nil

theorem nextBatch_rows_eq_nil (h : (nextBatch firstKey rows).rows = []) :
    nextBatch firstKey rows = .nothing ∧ rows = [] := by
  have none_of {type : TGDatabaseActionType} (heq : rowsOf type rows = []) :
      ∀ row ∈ rows, row.action.type ≠ type := by
    intro row hrow htype
    exact ne_nil_of_mem (mem_rowsOf.mpr ⟨hrow, htype⟩) heq
  unfold nextBatch at h ⊢
  split at h
  · exact absurd h (cons_ne_nil _ _)
  split at h
  · exact absurd h (cons_ne_nil _ _)
  split at h
  · next row others heq => exact absurd h (ne_nil_of_mem (head_mem_secretBatch row others))
  split at h
  · exact absurd h (cons_ne_nil _ _)
  split at h
  · exact absurd h (cons_ne_nil _ _)
  split at h
  · exact absurd h (cons_ne_nil _ _)
  split at h
  · exact absurd h (contentsBatch_rows_ne_nil _ _ _)
  split at h
  · exact absurd h (cons_ne_nil _ _)
  · next h1 _ h2 _ h3 _ h4 _ h5 _ h6 _ h7 _ h8 =>
    refine ⟨rfl, eq_nil_iff_forall_not_mem.mpr fun row hrow => ?_⟩
    cases htype : row.action.type with
    | readConversation => exact none_of h1 row hrow htype
    | deleteMessage => exact none_of h2 row hrow htype
    | deleteSecretMessage => exact none_of h3 row hrow htype
    | deleteConversation => exact none_of h4 row hrow htype
    | clearConversation => exact none_of h5 row hrow htype
    | clearSecretConversation => exact none_of h6 row hrow htype
    | readMessageContents => exact none_of h7 row hrow htype
    | screenshotMessage => exact none_of h8 row hrow htype

variable {chosen : List ActionRow} {peerId : Int}

theorem channelPeerId_of_contentsBatch
    (h : contentsBatch firstKey first rows = .channelReadMessageContents peerId chosen) (hrow : row ∈ chosen) :
    channelPeerId row.action = peerId := by
  unfold contentsBatch at h
  split at h
  · exact Batch.noConfusion h
  · obtain ⟨rfl, rfl⟩ := Batch.channelReadMessageContents.inj h
    exact of_decide_eq_true (mem_filter.mp hrow).2

theorem channelPeerId_of_nextBatch (h : nextBatch firstKey rows = .channelReadMessageContents peerId chosen)
    (hrow : row ∈ chosen) : channelPeerId row.action = peerId := by
  unfold nextBatch at h
  repeat' split at h
  all_goals first | exact Batch.noConfusion h | exact channelPeerId_of_contentsBatch h hrow

/-! ## What the handlers of the answers will find -/

/-- Every action of a confirmation is of the key of a row that the request was built from. -/
def Covers (actions : List TGDatabaseAction) (origin : Origin) : Prop :=
  ∀ action ∈ actions, ∃ row ∈ origin.builtFrom, row.action.key = action.key

/-- Every row is found by an action of the confirmation. -/
def Confirms (actions : List TGDatabaseAction) (requireFullMatch : Bool) (rows : List ActionRow) : Prop :=
  ∀ row ∈ rows, ∃ action ∈ actions, action.confirms requireFullMatch row.action = true

variable {action stored : TGDatabaseAction}

theorem confirms_of_key (h : stored.key = action.key) : action.confirms false stored = true := by
  simp [TGDatabaseAction.confirms, h]

theorem confirms_self (action : TGDatabaseAction) (requireFullMatch : Bool) :
    action.confirms requireFullMatch action = true := by
  simp [TGDatabaseAction.confirms]

theorem key_of_confirms {requireFullMatch : Bool} (h : action.confirms requireFullMatch stored = true) :
    stored.key = action.key := by
  simp only [TGDatabaseAction.confirms, Bool.and_eq_true, decide_eq_true_eq] at h
  exact h.1

theorem confirms_actions (requireFullMatch : Bool) (rows : List ActionRow) :
    Confirms (rows.map fun row => row.action) requireFullMatch rows :=
  fun row hrow => ⟨row.action, mem_map_of_mem hrow, confirms_self row.action requireFullMatch⟩

theorem covers_actions (loaded : LoadedActions) (rows : List ActionRow) :
    Covers (rows.map fun row => row.action) ⟨loaded, rows⟩ := by
  intro action hact
  obtain ⟨row, hrow, rfl⟩ := mem_map.mp hact
  exact ⟨row, hrow, rfl⟩

namespace ActorMemory

def ReadRow (memory : ActorMemory) (origin : Origin) : Prop :=
  ∃ row, origin.builtFrom = [row] ∧ row.action.key = memory.readAction.key

def HistoryRow (memory : ActorMemory) (origin : Origin) : Prop :=
  ∃ row, origin.builtFrom = [row] ∧ row.action.key = memory.historyAction.key ∧
    row.action.arg0 = memory.currentDeleteConversationTopMessageId

/-- What the handlers of the answer of a request will use. -/
def Remembers (memory : ActorMemory) (pending : PendingRequest) : Prop :=
  match pending.request with
  | .conversationReadHistory .. | .readEncryptedHistory .. => memory.ReadRow pending.origin
  | .deleteMessages ids _ =>
    ids = ActionQueue.messageIds pending.origin.builtFrom ∧
      ∀ row ∈ pending.origin.builtFrom, row.action.type = .deleteMessage
  | .deleteConversationMember conversationId =>
    memory.HistoryRow pending.origin ∧ memory.currentClearConversation = false ∧ peerIdIsGroup conversationId = true ∧
      conversationId = memory.currentDeleteConversationId
  | .deleteConversation conversationId onlyClear _ _ =>
    memory.HistoryRow pending.origin ∧ conversationId = memory.currentDeleteConversationId ∧
      onlyClear = memory.currentClearConversation
  | .rejectEncryptedChat _ | .channelDeleteHistory .. => memory.HistoryRow pending.origin
  | .readMessageContents .. | .channelReadMessageContents .. | .sendScreenshotNotification .. =>
    pending.captured = pending.origin.builtFrom.map fun row => row.action

end ActorMemory

/-- A request on its way: it is made of its rows, and the memory of the actor is about them. -/
structure PendingRequest.Prepared (memory : ActorMemory) (pending : PendingRequest) : Prop where
  ne_nil : pending.origin.builtFrom ≠ []
  isFor : ∀ row ∈ pending.origin.builtFrom, pending.request.IsFor row.action
  remembers : memory.Remembers pending

section
variable {memory : ActorMemory} {origin : Origin}

theorem ActorMemory.ReadRow.covers (h : memory.ReadRow origin) : Covers [memory.readAction] origin := by
  intro action hact
  obtain rfl := mem_singleton.mp hact
  obtain ⟨row, hbuilt, hkey⟩ := h
  exact ⟨row, by simp [hbuilt], hkey⟩

theorem ActorMemory.ReadRow.confirms (h : memory.ReadRow origin) :
    Confirms [memory.readAction] false origin.builtFrom := by
  intro row hrow
  obtain ⟨only, hbuilt, hkey⟩ := h
  rw [hbuilt] at hrow
  obtain rfl := mem_singleton.mp hrow
  exact ⟨memory.readAction, mem_singleton_self _, confirms_of_key hkey⟩

theorem ActorMemory.HistoryRow.covers (h : memory.HistoryRow origin) : Covers [memory.historyAction] origin := by
  intro action hact
  obtain rfl := mem_singleton.mp hact
  obtain ⟨row, hbuilt, hkey, -⟩ := h
  exact ⟨row, by simp [hbuilt], hkey⟩

theorem ActorMemory.HistoryRow.confirms (h : memory.HistoryRow origin) :
    Confirms [memory.historyAction] false origin.builtFrom := by
  intro row hrow
  obtain ⟨only, hbuilt, hkey, -⟩ := h
  rw [hbuilt] at hrow
  obtain rfl := mem_singleton.mp hrow
  exact ⟨memory.historyAction, mem_singleton_self _, confirms_of_key hkey⟩

theorem type_of_historyAction (hkey : row.action.key = memory.historyAction.key) :
    row.action.type = (if memory.currentClearConversation then .clearConversation else .deleteConversation) ∧
      row.action.subject = memory.currentDeleteConversationId := by
  unfold ActorMemory.historyAction at hkey
  split at hkey <;> simpa [key, *] using hkey

theorem ActorMemory.HistoryRow.prepared (h : memory.HistoryRow origin) {maxId : Int} (offset : Int)
    (hmax : maxId = memory.currentDeleteConversationTopMessageId ∨
      maxId = 0 ∧ peerIdIsGroup memory.currentDeleteConversationId = true) : PendingRequest.Prepared memory
      ⟨.deleteConversation memory.currentDeleteConversationId memory.currentClearConversation maxId offset, [], origin⟩ := by
  refine ⟨?_, fun row hrow => ?_, h, rfl, rfl⟩
  · obtain ⟨row, hbuilt, -⟩ := h
    simp [hbuilt]
  · obtain ⟨only, hbuilt, hkey, htop⟩ := h
    rw [show origin.builtFrom = [only] from hbuilt] at hrow
    obtain rfl := mem_singleton.mp hrow
    obtain ⟨htype, hsubject⟩ := type_of_historyAction hkey
    refine ⟨htype, hsubject, ?_⟩
    rcases hmax with rfl | hgroup
    · exact Or.inl htop
    · exact Or.inr hgroup

end

theorem mem_messageIds (hrow : row ∈ rows) (htype : row.action.type.isOnMessage = true) :
    row.action.subject ∈ ActionQueue.messageIds rows :=
  mem_map.mpr ⟨row, hrow, toInt32_of_isInt32 (row.action.subjectFits htype)⟩

theorem key_deleteMessageAction (htype : row.action.type = .deleteMessage) :
    row.action.key = (ActionQueue.deleteMessageAction (toInt32 row.action.subject)).key := by
  have hfits := row.action.subjectFits (by rw [htype]; rfl)
  simp [key, ActionQueue.deleteMessageAction, htype, toInt32_of_isInt32 hfits]

section
variable {rows : List ActionRow} (htype : ∀ row ∈ rows, row.action.type = .deleteMessage)
include htype

theorem covers_deleteMessages (loaded : LoadedActions) :
    Covers ((ActionQueue.messageIds rows).map ActionQueue.deleteMessageAction) ⟨loaded, rows⟩ := by
  intro action hact
  obtain ⟨id, hid, rfl⟩ := mem_map.mp hact
  obtain ⟨row, hrow, rfl⟩ := mem_map.mp hid
  exact ⟨row, hrow, key_deleteMessageAction (htype row hrow)⟩

theorem confirms_deleteMessages :
    Confirms ((ActionQueue.messageIds rows).map ActionQueue.deleteMessageAction) false rows := by
  intro row hrow
  refine ⟨_, mem_map_of_mem (mem_map_of_mem hrow), confirms_of_key (key_deleteMessageAction (htype row hrow))⟩

end

namespace ActionQueue

/-! ## Taking up a batch -/

/-- The actor sends requests for the rows of a batch, or confirms them at once, or there are none and it completes. -/
inductive BatchStep (s : ActionQueue) (records : PeerRecords) (loaded : LoadedActions) (batch : Batch) :
    ActionQueue → Prop
  | sends (memory : ActorMemory) (requests : List PendingRequest) (hne : requests ≠ [])
      (hprepared : ∀ pending ∈ requests, pending.Prepared memory)
      (horigin : ∀ pending ∈ requests, pending.origin.loaded = loaded ∧
        ∀ row ∈ pending.origin.builtFrom, row ∈ batch.rows)
      (halone : ∀ pending ∈ requests, pending.request.isDeleteMessages = true ∨ requests = [pending])
      (hdisjoint : requests.Pairwise fun p q => p.origin.builtFrom.Disjoint q.origin.builtFrom) :
      BatchStep s records loaded batch ({ s with memory := memory }.send requests)
  | confirms (memory : ActorMemory) (messages : List (Int × SecretServiceMessage × List ActionRow))
      (actions : List TGDatabaseAction) (requireFullMatch : Bool) (builtFrom : List ActionRow)
      (hrows : batch.rows ≠ [])
      (hsent : ∀ message ∈ messages, ∀ row ∈ message.2.2, row ∈ batch.rows ∧ message.2.1.IsFor message.1 row.action)
      (hbuilt : ∀ row ∈ builtFrom, ∃ message ∈ messages, row ∈ message.2.2)
      (hconfirms : Confirms actions requireFullMatch batch.rows)
      (hcovers : batch.makesRequest records = true → Covers actions ⟨loaded, builtFrom⟩) :
      BatchStep s records loaded batch
        ({ s with memory := memory, serviceMessages := s.serviceMessages ++ messages }.confirmQueuedActions actions
          requireFullMatch ⟨loaded, builtFrom⟩).execute
  | completes (hnothing : batch.rows = []) : BatchStep s records loaded batch { s with phase := .idle }

section
variable {s : ActionQueue} {records : PeerRecords} {loaded : LoadedActions} {batch : Batch} {memory : ActorMemory}

theorem BatchStep.sendsOne {request : Request} {captured : List TGDatabaseAction} (hrows : batch.rows ≠ [])
    (hfor : ∀ row ∈ batch.rows, request.IsFor row.action)
    (hremembers : memory.Remembers ⟨request, captured, ⟨loaded, batch.rows⟩⟩) : BatchStep s records loaded batch
      ({ s with memory := memory }.send [⟨request, captured, ⟨loaded, batch.rows⟩⟩]) := by
  refine .sends memory _ (cons_ne_nil _ _) (fun pending hp => ?_) (fun pending hp => ?_) (fun pending hp => ?_)
    (pairwise_singleton _ _)
  · obtain rfl := mem_singleton.mp hp
    exact ⟨hrows, hfor, hremembers⟩
  · obtain rfl := mem_singleton.mp hp
    exact ⟨rfl, fun _ hrow => hrow⟩
  · obtain rfl := mem_singleton.mp hp
    exact Or.inr rfl

theorem BatchStep.confirmsSilently {actions : List TGDatabaseAction} {requireFullMatch : Bool} (hrows : batch.rows ≠ [])
    (hconf : Confirms actions requireFullMatch batch.rows) (hsilent : batch.makesRequest records ≠ true) :
    BatchStep s records loaded batch
      ({ s with memory := memory }.confirmQueuedActions actions requireFullMatch ⟨loaded, []⟩).execute := by
  have hstep : BatchStep s records loaded batch _ :=
    .confirms memory [] actions requireFullMatch [] hrows (fun _ hm => absurd hm not_mem_nil)
      (fun _ hrow => absurd hrow not_mem_nil) hconf fun hmakes => absurd hmakes hsilent
  rw [append_nil] at hstep
  exact hstep

end

section
variable (s : ActionQueue) (records : PeerRecords) (loaded : LoadedActions) {row : ActionRow} {rows : List ActionRow}

theorem readConversation_step (htype : row.action.type = .readConversation) :
    BatchStep s records loaded (.readConversation row) (s.readConversation records loaded row) := by
  have hread : ActorMemory.ReadRow
      { s.memory with currentReadConversationId := row.action.subject, currentReadMaxMid := row.action.arg0 }
      ⟨loaded, [row]⟩ := ⟨row, rfl, by simp [key, ActorMemory.readAction, htype]⟩
  have hrows : (Batch.readConversation row).rows ≠ [] := cons_ne_nil _ _
  unfold readConversation
  dsimp only
  split
  · next hsecret =>
    split
    · exact .sendsOne hrows (by simpa [Batch.rows, Request.IsFor] using htype) hread
    · next hsilent =>
      refine .confirmsSilently hrows hread.confirms fun hmakes => hsilent ?_
      simp only [Batch.makesRequest, Bool.or_eq_true, Bool.and_eq_true, decide_eq_true_eq] at hmakes
      exact hmakes.resolve_left (Int.not_lt.mpr hsecret)
  · exact .sendsOne hrows (by simpa [Batch.rows, Request.IsFor] using htype) hread

theorem mem_deleteRequest {revoke : Bool} {pending : PendingRequest} (h : pending ∈ deleteRequest loaded rows revoke) :
    rows.filter (fun row => forEveryone row = revoke) ≠ [] ∧
      pending = ⟨.deleteMessages (messageIds (rows.filter fun row => forEveryone row = revoke)) revoke, [],
        ⟨loaded, rows.filter fun row => forEveryone row = revoke⟩⟩ := by
  unfold deleteRequest at h
  split at h
  · exact absurd h not_mem_nil
  · next chosen hchosen => exact ⟨hchosen, mem_singleton.mp h⟩

theorem deleteRequest_ne_nil (hrow : row ∈ rows) : deleteRequest loaded rows (forEveryone row) ≠ [] := by
  unfold deleteRequest
  split
  · next hnone => exact absurd hnone (ne_nil_of_mem (mem_filter.mpr ⟨hrow, by simp⟩))
  · exact cons_ne_nil _ _

theorem deleteRequest_pairwise (revoke : Bool) :
    (deleteRequest loaded rows revoke).Pairwise fun p q => p.origin.builtFrom.Disjoint q.origin.builtFrom := by
  unfold deleteRequest
  split
  · exact List.Pairwise.nil
  · exact pairwise_singleton _ _

theorem deleteMessages_step (hne : rows ≠ []) (htype : ∀ row ∈ rows, row.action.type = .deleteMessage) :
    BatchStep s records loaded (.deleteMessages rows) (s.deleteMessages loaded rows) := by
  have of_mem {pending : PendingRequest}
      (hp : pending ∈ deleteRequest loaded rows false ++ deleteRequest loaded rows true) :
      ∃ revoke, pending ∈ deleteRequest loaded rows revoke := by
    rcases mem_append.mp hp with hself | heveryone
    · exact ⟨false, hself⟩
    · exact ⟨true, heveryone⟩
  refine .sends s.memory _ ?_ (fun pending hp => ?_) (fun pending hp => ?_) (fun pending hp => ?_) ?_
  · obtain ⟨row, others, rfl⟩ := exists_cons_of_ne_nil hne
    have hsome := deleteRequest_ne_nil loaded (mem_cons_self : row ∈ row :: others)
    rw [Ne, append_eq_nil_iff]
    cases hrevoke : forEveryone row <;> rw [hrevoke] at hsome <;> tauto
  · obtain ⟨revoke, hm⟩ := of_mem hp
    obtain ⟨hchosen, rfl⟩ := mem_deleteRequest loaded hm
    refine ⟨hchosen, fun row hrow => ?_, rfl, fun row hrow => htype row (mem_of_mem_filter hrow)⟩
    have hmatch := mem_filter.mp hrow
    have hdelete := htype row hmatch.1
    exact ⟨hdelete, mem_messageIds hrow (by rw [hdelete]; rfl), of_decide_eq_true hmatch.2⟩
  · obtain ⟨revoke, hm⟩ := of_mem hp
    obtain ⟨-, rfl⟩ := mem_deleteRequest loaded hm
    exact ⟨rfl, fun row hrow => mem_of_mem_filter hrow⟩
  · obtain ⟨revoke, hm⟩ := of_mem hp
    obtain ⟨-, rfl⟩ := mem_deleteRequest loaded hm
    exact Or.inl rfl
  · refine pairwise_append.mpr ⟨deleteRequest_pairwise loaded _, deleteRequest_pairwise loaded _, fun p hp q hq => ?_⟩
    obtain ⟨-, rfl⟩ := mem_deleteRequest loaded hp
    obtain ⟨-, rfl⟩ := mem_deleteRequest loaded hq
    intro row hself heveryone
    simp only [mem_filter, decide_eq_true_eq] at hself heveryone
    rw [hself.2] at heveryone
    exact Bool.false_ne_true heveryone.2

theorem sendServiceMessage_step {batch : Batch} {message : SecretServiceMessage} (hne : batch.rows ≠ [])
    (hfor : ∀ row ∈ batch.rows, message.IsFor peerId row.action)
    (hmakes : batch.makesRequest records = hasMessageData records peerId) :
    BatchStep s records loaded batch (s.sendServiceMessage records loaded peerId message batch.rows) := by
  unfold sendServiceMessage
  by_cases hdata : hasMessageData records peerId = true
  · rw [if_pos hdata]
    refine .confirms s.memory [(peerId, message, batch.rows)] _ true batch.rows hne (fun entry hentry row hrow => ?_)
      (fun row hrow => ⟨_, mem_singleton_self _, hrow⟩) (confirms_actions true _) fun _ => covers_actions loaded _
    obtain rfl := mem_singleton.mp hentry
    exact ⟨hrow, hfor row hrow⟩
  · rw [if_neg hdata]
    exact .confirmsSilently hne (confirms_actions true _) (hmakes ▸ hdata)

theorem deleteConversation_step (htype : row.action.type = .deleteConversation) :
    BatchStep s records loaded (.deleteConversation row) (s.deleteConversation records loaded row) := by
  have hhist : ActorMemory.HistoryRow
      { s.memory with
        currentDeleteConversationId := row.action.subject
        currentDeleteConversationTopMessageId := row.action.arg0
        currentClearConversation := false } ⟨loaded, [row]⟩ :=
    ⟨row, rfl, by simp [key, ActorMemory.historyAction, htype], rfl⟩
  have hrows : (Batch.deleteConversation row).rows ≠ [] := cons_ne_nil _ _
  unfold deleteConversation
  dsimp only
  split
  · next hnegative =>
    split
    · next hsecret =>
      split
      · exact .sendsOne hrows (by simpa [Batch.rows, Request.IsFor] using htype) hhist
      · next hsilent =>
        refine .confirmsSilently hrows hhist.confirms fun hmakes => hsilent ?_
        simp only [Batch.makesRequest, Bool.or_eq_true, decide_eq_true_eq] at hmakes
        exact hmakes.resolve_left (Int.not_lt.mpr hsecret)
    · next hgroup =>
      have hisGroup : peerIdIsGroup row.action.subject = true := by
        simp only [peerIdIsGroup, Bool.and_eq_true, decide_eq_true_eq]
        exact ⟨hnegative, Int.not_le.mp hgroup⟩
      exact .sendsOne hrows (by simpa [Batch.rows, Request.IsFor] using htype) ⟨hhist, rfl, hisGroup, rfl⟩
  · exact .sendsOne hrows (by simpa [Batch.rows, Request.IsFor] using htype) ⟨hhist, rfl, rfl⟩

theorem clearConversation_step (htype : row.action.type = .clearConversation) :
    BatchStep s records loaded (.clearConversation row) (s.clearConversation loaded row) := by
  have hhist : ActorMemory.HistoryRow
      { s.memory with
        currentDeleteConversationId := row.action.subject
        currentDeleteConversationTopMessageId := row.action.arg0
        currentClearConversation := true } ⟨loaded, [row]⟩ :=
    ⟨row, rfl, by simp [key, ActorMemory.historyAction, htype], rfl⟩
  have hrows : (Batch.clearConversation row).rows ≠ [] := cons_ne_nil _ _
  unfold clearConversation
  dsimp only
  split
  · exact .sendsOne hrows (by simpa [Batch.rows, Request.IsFor] using htype) hhist
  · next hchannel =>
    split
    · next hsecret =>
      refine .confirmsSilently hrows hhist.confirms fun hmakes => ?_
      simp only [Batch.makesRequest, Bool.or_eq_true, decide_eq_true_eq] at hmakes
      exact Int.not_lt.mpr hsecret (hmakes.resolve_left hchannel)
    · exact .sendsOne hrows (by simpa [Batch.rows, Request.IsFor] using htype) ⟨hhist, rfl, rfl⟩

theorem startBatch_step (firstKey : Nat) : BatchStep s records loaded (nextBatch firstKey loaded.rows)
      (s.startBatch records loaded (nextBatch firstKey loaded.rows)) := by
  have htaken : ∀ row ∈ (nextBatch firstKey loaded.rows).rows,
      row.action.type = (nextBatch firstKey loaded.rows).type := fun _ hrow => (mem_nextBatch hrow).2
  have hne : nextBatch firstKey loaded.rows ≠ .nothing → (nextBatch firstKey loaded.rows).rows ≠ [] :=
    fun h hnil => h (nextBatch_rows_eq_nil hnil).1
  unfold startBatch
  cases hbatch : nextBatch firstKey loaded.rows with
  | readConversation row =>
    rw [hbatch] at htaken
    exact readConversation_step s records loaded (htaken row (mem_singleton_self row))
  | deleteMessages rows =>
    rw [hbatch] at htaken hne
    exact deleteMessages_step s records loaded (hne Batch.noConfusion) htaken
  | deleteSecretMessages peerId rows =>
    rw [hbatch] at htaken hne
    exact sendServiceMessage_step s records loaded (hne Batch.noConfusion) htaken rfl
  | deleteConversation row =>
    rw [hbatch] at htaken
    exact deleteConversation_step s records loaded (htaken row (mem_singleton_self row))
  | clearConversation row =>
    rw [hbatch] at htaken
    exact clearConversation_step s records loaded (htaken row (mem_singleton_self row))
  | clearSecretConversation row =>
    rw [hbatch] at htaken hne
    refine sendServiceMessage_step s records loaded (hne Batch.noConfusion) (fun row' hrow' => ?_) rfl
    obtain rfl := mem_singleton.mp hrow'
    exact ⟨htaken row' hrow', rfl⟩
  | readMessageContents rows =>
    rw [hbatch] at htaken hne
    refine .sendsOne (hne Batch.noConfusion) (fun row hrow => ?_) rfl
    have htype := htaken row hrow
    exact ⟨htype, mem_messageIds hrow (by rw [htype]; rfl)⟩
  | channelReadMessageContents peerId rows =>
    rw [hbatch] at htaken hne
    refine .sendsOne (hne Batch.noConfusion) (fun row hrow => ?_) rfl
    have htype := htaken row hrow
    exact ⟨htype, mem_messageIds hrow (by rw [htype]; rfl), channelPeerId_of_nextBatch hbatch hrow⟩
  | screenshotMessage row =>
    rw [hbatch] at htaken hne
    refine .sendsOne (hne Batch.noConfusion) (fun row' hrow' => ?_) rfl
    obtain rfl := mem_singleton.mp hrow'
    exact ⟨htaken row' hrow', rfl, rfl⟩
  | nothing => exact .completes rfl

end

/-! ## Answers -/

/-- After an answer the deletion of a history goes on, or the rows are confirmed unless a deletion of messages has
failed. -/
inductive AnswerStep (s : ActionQueue) (pending : PendingRequest) (answer : Answer) : ActionQueue → Prop
  | continues (next : PendingRequest) (hcontinues : next.request.Continues pending.request)
      (horigin : next.origin = pending.origin) (hprepared : next.Prepared s.memory)
      (halone : pending.request.isDeleteMessages = false) :
      AnswerStep s pending answer (s.send [next])
  | settles (actions : List TGDatabaseAction) (requireFullMatch : Bool)
      (hconfirms : Confirms actions requireFullMatch pending.origin.builtFrom) (hcovers : Covers actions pending.origin)
      (hlast : pending.request.isDeleteMessages = true → s.requests = []) :
      AnswerStep s pending answer (s.confirmQueuedActions actions requireFullMatch pending.origin).execute
  | settlesPart (actions : List TGDatabaseAction) (requireFullMatch : Bool)
      (hconfirms : Confirms actions requireFullMatch pending.origin.builtFrom) (hcovers : Covers actions pending.origin)
      (hrest : s.requests ≠ []) :
      AnswerStep s pending answer (s.confirmQueuedActions actions requireFullMatch pending.origin)
  | dropsLast (hdelete : pending.request.isDeleteMessages = true) (herror : answer = .error) (hlast : s.requests = []) :
      AnswerStep s pending answer s.execute
  | drops (hdelete : pending.request.isDeleteMessages = true) (herror : answer = .error) (hrest : s.requests ≠ []) :
      AnswerStep s pending answer s

/-- The two blocks of a deletion of messages: `onError:` is never called. -/
theorem onNextAndError_answer (onNext onError : ActionQueue → ActionQueue) (answer : Answer) (s : ActionQueue) :
    onNextAndError onNext onError (catchAndComplete (requestSignal answer)) s =
      match answer with
      | .success _ => onNext s
      | .error => s := by
  cases answer <;> rfl

section
variable {s : ActionQueue} {pending : PendingRequest} (answer : Answer)

theorem deleteMessagesAnswered_step (hdelete : pending.request.isDeleteMessages = true)
    (htype : ∀ row ∈ pending.origin.builtFrom, row.action.type = .deleteMessage) :
    AnswerStep s pending answer (s.deleteMessagesAnswered (messageIds pending.origin.builtFrom) pending.origin answer) := by
  unfold deleteMessagesAnswered
  dsimp only
  rw [onNextAndError_answer]
  have hconf := confirms_deleteMessages htype
  have hcovers := covers_deleteMessages htype pending.origin.loaded
  cases answer with
  | error =>
    dsimp only
    split
    · next hlast => exact .dropsLast hdelete rfl hlast
    · next hrest => exact .drops hdelete rfl hrest
  | success offset =>
    dsimp only
    split
    · next hlast => exact .settles _ false hconf hcovers fun _ => hlast
    · next hrest => exact .settlesPart _ false hconf hcovers hrest

theorem deleteHistorySuccess_step (hhist : s.memory.HistoryRow pending.origin)
    (halone : pending.request.isDeleteMessages = false) {offset : Int}
    (hcontinues : 0 < offset → ∀ maxId, (Request.deleteConversation s.memory.currentDeleteConversationId
      s.memory.currentClearConversation maxId offset).Continues pending.request) :
    AnswerStep s pending answer (s.deleteHistorySuccess offset pending.origin) := by
  unfold deleteHistorySuccess
  split
  · next hoff => exact .continues _ (hcontinues hoff _) rfl (hhist.prepared offset (Or.inl rfl)) halone
  · exact .settles _ false hhist.confirms hhist.covers fun hdelete => absurd (halone.symm.trans hdelete) Bool.false_ne_true

theorem handleAnswer_step (hprep : pending.Prepared s.memory) :
    AnswerStep s pending answer (s.handleAnswer pending answer) := by
  obtain ⟨request, captured, origin⟩ := pending
  obtain ⟨-, -, hremembers⟩ := hprep
  have hnot : ∀ P : Prop, false = true → P := fun _ h => absurd h Bool.false_ne_true
  cases request with
  | conversationReadHistory | readEncryptedHistory =>
    have hread : s.memory.ReadRow origin := hremembers
    exact .settles _ false hread.confirms hread.covers (hnot _)
  | deleteMessages =>
    obtain ⟨hids, htype⟩ := hremembers
    change _ = messageIds origin.builtFrom at hids
    subst hids
    exact deleteMessagesAnswered_step answer rfl htype
  | deleteConversationMember =>
    obtain ⟨hhist, hclear, hgroup, hid⟩ := hremembers
    have hnext := hhist.prepared 0 (Or.inr ⟨rfl, hid ▸ hgroup⟩)
    rw [hclear] at hnext
    exact .continues _ ⟨hid.symm, rfl⟩ rfl hnext rfl
  | rejectEncryptedChat | channelDeleteHistory =>
    exact deleteHistorySuccess_step answer hremembers rfl fun h => absurd h (Int.lt_irrefl 0)
  | deleteConversation =>
    obtain ⟨hhist, hid, hclear⟩ := hremembers
    exact deleteHistorySuccess_step answer hhist rfl fun hoff _ => ⟨hid.symm, hclear.symm, hoff⟩
  | readMessageContents | channelReadMessageContents | sendScreenshotNotification =>
    have hcaptured : captured = origin.builtFrom.map fun row => row.action := hremembers
    subst hcaptured
    exact .settles _ true (confirms_actions true _) (covers_actions origin.loaded _) (hnot _)

end

/-! ## What stays -/

section
variable {s s' : ActionQueue}

theorem BatchStep.table {records : PeerRecords} {loaded : LoadedActions} {batch : Batch}
    (h : BatchStep s records loaded batch s') : s'.table = s.table := by
  cases h <;> rfl

theorem AnswerStep.table {pending : PendingRequest} {answer : Answer} (h : AnswerStep s pending answer s') :
    s'.table = s.table := by
  cases h <;> rfl

end

variable {s : ActionQueue}

theorem requests_of_loaded {loaded : LoadedActions} (h : s.phase = .loaded loaded) : s.requests = [] := by
  simp [requests, h]

variable {pending : PendingRequest}

theorem phase_of_mem_requests (h : pending ∈ s.requests) : s.phase = .waiting s.requests := by
  unfold requests at h ⊢
  split at h
  · assumption
  · exact absurd h not_mem_nil

variable {index : Nat}

theorem removeRequest_perm (h : s.requests[index]? = some pending) :
    (pending :: s.requests.eraseIdx index).Perm s.requests := by
  obtain ⟨hlt, hget⟩ := List.getElem?_eq_some_iff.mp h
  exact hget ▸ getElem_cons_eraseIdx_perm hlt

theorem removeRequest_of_alone {only : PendingRequest} (h : s.requests[index]? = some pending)
    (halone : s.requests = [only]) : s.requests.eraseIdx index = [] := by
  have hlen := (removeRequest_perm h).length_eq
  have hone : s.requests.length = 1 := by rw [halone]; rfl
  rw [hone, length_cons] at hlen
  exact length_eq_zero_iff.mp (by omega)

/-! ## The table -/

/-- One row for a key, and no stamp that is still to be given. -/
structure TableInv (table : List ActionRow) (nextStamp : Nat) : Prop where
  stamps : ∀ row ∈ table, row.stamp < nextStamp
  keys : ∀ row ∈ table, ∀ row' ∈ table, row.action.key = row'.action.key → row = row'

variable {table : List ActionRow}

variable {nextStamp : Nat}

theorem TableInv.filter (h : TableInv table nextStamp) (keep : ActionRow → Bool) :
    TableInv (table.filter keep) nextStamp :=
  ⟨fun row hrow => h.stamps row (mem_of_mem_filter hrow),
    fun row hrow row' hrow' => h.keys row (mem_of_mem_filter hrow) row' (mem_of_mem_filter hrow')⟩

theorem mem_insertRow {new : ActionRow} :
    row ∈ insertRow table new ↔ row ∈ table ∧ row.action.key ≠ new.action.key ∨ row = new := by
  simp [insertRow]

theorem TableInv.insertRow (h : TableInv table nextStamp) (action : TGDatabaseAction) :
    TableInv (insertRow table ⟨nextStamp, action⟩) (nextStamp + 1) := by
  refine ⟨fun row hrow => ?_, fun row hrow row' hrow' hkey => ?_⟩
  · rcases mem_insertRow.mp hrow with ⟨hold, -⟩ | rfl
    · exact (h.stamps row hold).trans (Nat.lt_succ_self _)
    · exact Nat.lt_succ_self _
  · rcases mem_insertRow.mp hrow with ⟨hold, hne⟩ | rfl <;> rcases mem_insertRow.mp hrow' with ⟨hold', hne'⟩ | rfl
    · exact h.keys row hold row' hold' hkey
    · exact absurd hkey hne
    · exact absurd hkey.symm hne'
    · rfl

def storeRows (actions : List TGDatabaseAction) (s : ActionQueue) : ActionQueue :=
  actions.foldl (fun s action => s.storeRow action) s

/-- What a store does: the rows that it leaves are old ones of other keys, or newly stamped. -/
structure StoreStep (s : ActionQueue) (actions : List TGDatabaseAction) (s' : ActionQueue) : Prop where
  rest : s' = { s with table := s'.table, nextStamp := s'.nextStamp }
  table : TableInv s.table s.nextStamp → TableInv s'.table s'.nextStamp
  stamp_le : s.nextStamp ≤ s'.nextStamp
  old_or_new : ∀ row ∈ s'.table, row ∈ s.table ∨ s.nextStamp ≤ row.stamp
  kept_or_replaced : ∀ row ∈ s.table, row ∈ s'.table ∨ ∃ action ∈ actions, action.key = row.action.key

theorem storeRow_step (s : ActionQueue) (action : TGDatabaseAction) : StoreStep s [action] (s.storeRow action) := by
  refine ⟨rfl, fun h => h.insertRow action, Nat.le_succ _, fun row hrow => ?_, fun row hrow => ?_⟩
  · rcases mem_insertRow.mp hrow with ⟨hold, -⟩ | rfl
    · exact Or.inl hold
    · exact Or.inr (Nat.le_refl _)
  · by_cases hkey : row.action.key = action.key
    · exact Or.inr ⟨action, mem_singleton_self _, hkey.symm⟩
    · exact Or.inl (mem_insertRow.mpr (Or.inl ⟨hrow, hkey⟩))

theorem storeRows_step (s : ActionQueue) (actions : List TGDatabaseAction) :
    StoreStep s actions (s.storeRows actions) := by
  induction actions generalizing s with
  | nil => exact ⟨rfl, id, Nat.le_refl _, fun _ hrow => Or.inl hrow, fun _ hrow => Or.inl hrow⟩
  | cons action actions ih =>
    have hfirst := storeRow_step s action
    have hrest := ih (s.storeRow action)
    change StoreStep s (action :: actions) ((s.storeRow action).storeRows actions)
    refine ⟨?_, hrest.table ∘ hfirst.table, hfirst.stamp_le.trans hrest.stamp_le, fun row hrow => ?_, fun row hrow => ?_⟩
    · conv_lhs => rw [hrest.rest]
      rfl
    · rcases hrest.old_or_new row hrow with hold | hnew
      · exact hfirst.old_or_new row hold
      · exact Or.inr (hfirst.stamp_le.trans hnew)
    · rcases hfirst.kept_or_replaced row hrow with hkept | ⟨action', haction', hkey⟩
      · rcases hrest.kept_or_replaced row hkept with hlater | ⟨action', haction', hkey⟩
        · exact Or.inl hlater
        · exact Or.inr ⟨action', mem_cons_of_mem action haction', hkey⟩
      · obtain rfl := mem_singleton.mp haction'
        exact Or.inr ⟨action', mem_cons_self, hkey⟩

end ActionQueue

end TelegramClient.Database
