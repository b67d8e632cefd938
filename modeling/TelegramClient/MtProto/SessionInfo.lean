import TelegramClient.Lib.Bytes

/-!
# `MTSessionInfo`

The ids and counters of one session: the client's message ids and sequence numbers, the ids that were processed,
the confirmations that are due, and which messages went out in which container.

* `mem_scheduleMessageConfirmation` : what is scheduled afterwards;
* `mem_removeScheduledMessageConfirmations` : removing only removes.

Transaction ids are numbers, and so are the sizes (`NSInteger`).
-/

namespace TelegramClient.MtProto

structure MTScheduledMessageConfirmation where
  messageId : BitVec 64
  size : Int
  transactionIds : List Nat
deriving DecidableEq

def MTScheduledMessageConfirmation.addTransactionId (confirmation : MTScheduledMessageConfirmation)
    (transactionId : Nat) : MTScheduledMessageConfirmation :=
  if transactionId ∈ confirmation.transactionIds then confirmation
  else { confirmation with transactionIds := confirmation.transactionIds ++ [transactionId] }

def MTScheduledMessageConfirmation.containedInTransactionId (confirmation : MTScheduledMessageConfirmation)
    (transactionId : Nat) : Bool :=
  decide (transactionId ∈ confirmation.transactionIds)

structure MTSessionInfo where
  sessionId : BitVec 64
  lastClientMessageId : BitVec 64
  seqNo : BitVec 32
  processedMessageIds : List (BitVec 64)
  scheduledConfirmations : List MTScheduledMessageConfirmation
  containerMessagesMapping : List (BitVec 64 × List (BitVec 64))
deriving DecidableEq

namespace MTSessionInfo

def initWithSessionId (sessionId : BitVec 64) : MTSessionInfo := ⟨sessionId, 0, 0, [], [], []⟩

/-! ## Message ids and sequence numbers -/

/-- `while (messageId % 4 != 0) messageId++`; three steps are enough. -/
def alignMessageId : Nat → BitVec 64 → BitVec 64
  | 0, messageId => messageId
  | steps + 1, messageId =>
    if messageId.toInt.tmod 4 ≠ 0 then alignMessageId steps (messageId + 1) else messageId

/-- `generateClientMessageId:`, with the server's time in units of `2^-32` seconds. The flag is raised where the
time went backwards. -/
def generateClientMessageId (session : MTSessionInfo) (now : BitVec 64) : BitVec 64 × Bool × MTSessionInfo :=
  let monotonityViolated := decide (now.toInt < session.lastClientMessageId.toInt)
  let messageId := if now = session.lastClientMessageId then session.lastClientMessageId + 1 else now
  let messageId := alignMessageId 3 messageId
  (messageId, monotonityViolated, { session with lastClientMessageId := messageId })

def takeSeqNo (session : MTSessionInfo) (messageIsMeaningful : Bool) : BitVec 32 × MTSessionInfo :=
  if messageIsMeaningful then (session.seqNo + 1, { session with seqNo := session.seqNo + 2 })
  else (session.seqNo, session)

/-! ## Containers -/

/-- A container that is added again replaces the one before. -/
def addContainerMessageIdMapping (session : MTSessionInfo) (containerMessageId : BitVec 64)
    (childMessageIds : List (BitVec 64)) : MTSessionInfo :=
  { session with
    containerMessagesMapping := (containerMessageId, childMessageIds) ::
      session.containerMessagesMapping.filter fun entry => entry.1 ≠ containerMessageId }

def messageIdsInContainer (session : MTSessionInfo) (containerMessageId : BitVec 64) : Option (List (BitVec 64)) :=
  session.containerMessagesMapping.lookup containerMessageId

/-- `messageIdsInContainersAfterMessageId:`, in the order in which the dictionary is walked here. -/
def messageIdsInContainersAfterMessageId (session : MTSessionInfo) (firstMessageId : BitVec 64) : List (BitVec 64) :=
  session.containerMessagesMapping.flatMap fun entry => entry.2.filter fun messageId =>
    entry.1.toInt ≥ firstMessageId.toInt ∨ messageId.toInt ≥ firstMessageId.toInt

/-! ## Processed messages -/

def messageProcessed (session : MTSessionInfo) (messageId : BitVec 64) : Bool :=
  decide (messageId ∈ session.processedMessageIds)

def setMessageProcessed (session : MTSessionInfo) (messageId : BitVec 64) : MTSessionInfo :=
  { session with processedMessageIds := session.processedMessageIds.insert messageId }

/-! ## Confirmations -/

def scheduleMessageConfirmation (session : MTSessionInfo) (messageId : BitVec 64) (size : Int) : MTSessionInfo :=
  if session.scheduledConfirmations.any fun confirmation => confirmation.messageId = messageId then session
  else { session with scheduledConfirmations := session.scheduledConfirmations ++ [⟨messageId, size, []⟩] }

/-- `scheduledMessageConfirmations`: the ids; the source returns `nil` for none. -/
def scheduledMessageConfirmations (session : MTSessionInfo) : List (BitVec 64) :=
  session.scheduledConfirmations.map fun confirmation => confirmation.messageId

def scheduledMessageConfirmationsExceed (session : MTSessionInfo) (sizeLimit : Int) (countLimit : Nat) : Bool :=
  if session.scheduledConfirmations.length > countLimit then true
  else if session.scheduledConfirmations.length = 0 then false
  else
    let completeSize := (session.scheduledConfirmations.map fun confirmation => confirmation.size).sum
    !decide (completeSize ≤ sizeLimit)

def assignTransactionId (session : MTSessionInfo) (transactionId : Nat) (messageIds : List (BitVec 64)) :
    MTSessionInfo :=
  { session with
    scheduledConfirmations := session.scheduledConfirmations.map fun confirmation =>
      if confirmation.messageId ∈ messageIds then confirmation.addTransactionId transactionId else confirmation }

/-- `removeScheduledMessageConfirmationsWithTransactionIds:`; its index loop visits every confirmation once. -/
def removeScheduledMessageConfirmations (session : MTSessionInfo) (transactionIds : List Nat) : MTSessionInfo :=
  { session with
    scheduledConfirmations := session.scheduledConfirmations.filter fun confirmation =>
      !transactionIds.any fun transactionId => confirmation.containedInTransactionId transactionId }

/-! ## What is scheduled -/

variable (session : MTSessionInfo) (messageId : BitVec 64)

variable (size : Int) (id : BitVec 64)

theorem mem_scheduleMessageConfirmation :
    id ∈ (session.scheduleMessageConfirmation messageId size).scheduledMessageConfirmations ↔
      id ∈ session.scheduledMessageConfirmations ∨ id = messageId := by
  unfold scheduleMessageConfirmation
  split
  · next h =>
    obtain ⟨confirmation, hm, heq⟩ := List.any_eq_true.mp h
    constructor
    · exact Or.inl
    · rintro (hid | rfl)
      · exact hid
      · unfold scheduledMessageConfirmations
        rw [List.mem_map]
        exact ⟨confirmation, hm, by simpa using heq⟩
  · simp [scheduledMessageConfirmations]

theorem mem_removeScheduledMessageConfirmations {session : MTSessionInfo} {transactionIds : List Nat} {id : BitVec 64}
    (h : id ∈ (session.removeScheduledMessageConfirmations transactionIds).scheduledMessageConfirmations) :
    id ∈ session.scheduledMessageConfirmations := by
  unfold scheduledMessageConfirmations removeScheduledMessageConfirmations at h
  unfold scheduledMessageConfirmations
  rw [List.mem_map] at h ⊢
  obtain ⟨confirmation, hm, heq⟩ := h
  exact ⟨confirmation, (List.mem_filter.mp hm).1, heq⟩

theorem scheduledMessageConfirmations_assignTransactionId (transactionId : Nat) (messageIds : List (BitVec 64)) :
    (session.assignTransactionId transactionId messageIds).scheduledMessageConfirmations =
      session.scheduledMessageConfirmations := by
  have hid (confirmation : MTScheduledMessageConfirmation) :
      (confirmation.addTransactionId transactionId).messageId = confirmation.messageId := by
    unfold MTScheduledMessageConfirmation.addTransactionId
    split <;> rfl
  unfold scheduledMessageConfirmations assignTransactionId
  rw [List.map_map]
  apply List.map_congr_left
  intro confirmation _
  dsimp only [Function.comp]
  split
  · exact hid confirmation
  · rfl

theorem messageProcessed_setMessageProcessed : (session.setMessageProcessed messageId).messageProcessed id = true ↔
      id = messageId ∨ session.messageProcessed id = true := by
  simp [messageProcessed, setMessageProcessed]

@[simp] theorem messageProcessed_scheduleMessageConfirmation :
    (session.scheduleMessageConfirmation messageId size).messageProcessed id = session.messageProcessed id := by
  unfold scheduleMessageConfirmation
  split <;> rfl

end MTSessionInfo

end TelegramClient.MtProto
