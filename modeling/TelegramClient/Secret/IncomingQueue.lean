import TelegramClient.Lib.Bytes

/-!
# The incoming queue of a secret chat

Messages of a secret chat are stored in two tables, one for messages that could be read when they came and one for the
others. `TGSecretIncomingQueueActor._poll` reads both on the queue of the database, and later, on the stage queue, hands
the messages whose turn it is to `_processIncomingMessage`; what is done with the tables then waits on the queue of the
database again.

* `IncomingQueue` : the tables of one peer, the two queues, and ghosts;
* `QueueEvent`, `stepQueue`, `runQueue` : messages that come, polls that begin, and the queues that advance.

The parsers of the decrypted messages are generated code for every layer, and a parameter.
-/

namespace TelegramClient.Secret

/-! ## Messages -/

/-- The dictionaries of `parseDecryptedAction`. -/
inductive ServiceAction where
  | readMessages (randomIds : List (BitVec 64))
  | screenshotMessages (randomIds : List (BitVec 64)) (date : BitVec 32) (layer : Nat)
  | deleteMessages (randomIds : List (BitVec 64))
  | updateLayer (layer : Nat)
  | flushHistory
  | resendActions (fromSeq toSeq : BitVec 32)
  | requestKey (exchangeId : BitVec 64) (gA : Bytes)
  | acceptKey (exchangeId : BitVec 64) (gB : Bytes) (keyFingerprint : BitVec 64)
  | commitKey (exchangeId keyFingerprint : BitVec 64)
  | abortKey (exchangeId : BitVec 64)
  deriving DecidableEq

/-- A message that was decrypted, with the numbers in its header. -/
structure DecryptedMessage where
  layer : Nat
  data : Bytes
  date : BitVec 32
  inSeqNo : BitVec 32
  outSeqNo : BitVec 32
  deriving DecidableEq

/-- `value / 2`. -/
def DecryptedMessage.seqIn (message : DecryptedMessage) : Int := message.inSeqNo.toInt.tdiv 2

def DecryptedMessage.seqOut (message : DecryptedMessage) : Int := message.outSeqNo.toInt.tdiv 2

/-- `TGStoredIncomingEncryptedDataSecretAction`. -/
structure EncryptedAction where
  keyId : BitVec 64
  randomId : BitVec 64
  chatId : BitVec 64
  date : BitVec 32
  encryptedData : Bytes
  deriving DecidableEq

inductive ActionIdType where
  | generic
  | encrypted
  deriving DecidableEq

structure ActionId where
  type : ActionIdType
  value : Nat
  deriving DecidableEq

/-- `TGStoredSecretActionWithSeq`. -/
structure StoredAction where
  actionId : ActionId
  message : DecryptedMessage
  deriving DecidableEq

def StoredAction.le (action1 action2 : StoredAction) : Bool :=
  if action1.message.seqOut ≠ action2.message.seqOut then decide (action1.message.seqOut < action2.message.seqOut)
  else decide (action1.actionId.value ≤ action2.actionId.value)

/-- `sortUsingComparator:`. It is not said what happens to actions that compare equal. -/
structure ActionSort where
  sort : List StoredAction → List StoredAction
  perm : ∀ actions, (sort actions).Perm actions
  sorted : ∀ actions, (sort actions).Pairwise fun action1 action2 => action1.le action2 = true

/-! ## The queues -/

inductive DatabaseJob where
  | enqueueActions (actions : List DecryptedMessage)
  | enqueueEncryptedActions (actions : List EncryptedAction)
  | dequeue
  | deleteActions (actionIds : List Nat)
  | deleteEncryptedActions (actionIds : List Nat)
  | applySeqIn (seqIn : Int)

/-- What `dequeuePeerIncomingActions` passes to its completion. -/
structure Snapshot where
  actions : List StoredAction
  nextExpectedSeqOut : Int
  encryptedActions : List (Nat × EncryptedAction)

/-- A message that was passed to `_processIncomingMessage`: in which poll, and whether it was its turn. -/
structure HandedMessage where
  poll : Nat
  action : StoredAction
  inTurn : Bool
  deriving DecidableEq

/-- A message that a poll drops from its table, and the number that was stored then. -/
structure DroppedMessage where
  poll : Nat
  action : StoredAction
  storedSeqIn : Int
  deriving DecidableEq

/-- The tables of one peer, both queues, and from `polls` on ghosts. Ids are given out once (`AUTOINCREMENT`). -/
structure IncomingQueue where
  rows : List (Nat × DecryptedMessage)
  encryptedRows : List (Nat × EncryptedAction)
  nextActionId : Nat
  nextEncryptedActionId : Nat
  /-- The property `seq_in`, which is zero at first. -/
  seqIn : Int
  databaseQueue : List DatabaseJob
  stageQueue : List Snapshot
  polls : Nat
  handed : List HandedMessage
  dropped : List DroppedMessage
  executed : List (ActionId × ServiceAction)
  /-- The values that `applyPeerSeqIn` has written. -/
  applied : List Int
  /-- The ranges that the peer was asked to send again. -/
  resendRequests : List (Int × Int)
  /-- The arguments of `confirmPeerSeqOut`. -/
  confirmed : List Int

def initQueue : IncomingQueue := ⟨[], [], 1, 1, 0, [], [], 0, [], [], [], [], [], []⟩

/-! ## A poll -/

/-- An `int32_t`. -/
def int32 (value : Int) : Int := value.bmod (2 ^ 32)

def INT32_MAX : Int := 2 ^ 31 - 1

/-- The variables of the loop over the stored messages. Those to process are marked where it is their turn. -/
structure PollState where
  nextExpectedSeqOut : Int
  currentPeerLayer : Nat
  minLocalSeqOut : Int
  maxSeqIn : Int
  actionsToProcess : List (StoredAction × Bool)
  removedActions : List StoredAction

section
variable (parseDecryptedAction : DecryptedMessage → Option ServiceAction)

def isResendAction (message : DecryptedMessage) : Bool :=
  match parseDecryptedAction message with
  | some (.resendActions _ _) => true
  | _ => false

def takeInSequence (action : StoredAction) (state : PollState) : PollState :=
  let state := { state with minLocalSeqOut := min state.minLocalSeqOut action.message.seqOut }
  if action.message.seqOut = state.nextExpectedSeqOut then
    { state with
      actionsToProcess := state.actionsToProcess ++ [(action, true)]
      nextExpectedSeqOut := int32 (state.nextExpectedSeqOut + 1)
      maxSeqIn := max state.maxSeqIn action.message.seqIn }
  else if action.message.seqOut < state.nextExpectedSeqOut then
    { state with removedActions := state.removedActions ++ [action] }
  else if isResendAction parseDecryptedAction action.message then
    { state with actionsToProcess := state.actionsToProcess ++ [(action, false)] }
  else state

/-- A round of the loop over the stored messages. -/
def considerAction (state : PollState) (action : StoredAction) : PollState :=
  if 17 ≤ state.currentPeerLayer then takeInSequence parseDecryptedAction action state
  else if 17 ≤ action.message.layer then
    takeInSequence parseDecryptedAction action { state with currentPeerLayer := action.message.layer }
  else { state with actionsToProcess := state.actionsToProcess ++ [(action, false)] }

def pollLoop (nextExpectedSeqOut : Int) (currentPeerLayer : Nat) (mergedActions : List StoredAction) : PollState :=
  mergedActions.foldl (considerAction parseDecryptedAction) ⟨nextExpectedSeqOut, currentPeerLayer, INT32_MAX, -1, [], []⟩

def decryptActions (decrypt : EncryptedAction → Option DecryptedMessage) (encryptedActions : List (Nat × EncryptedAction)) :
    List StoredAction :=
  encryptedActions.filterMap fun encryptedAction =>
    (decrypt encryptedAction.2).map fun message => ⟨⟨.encrypted, encryptedAction.1⟩, message⟩

def actionIdsOf (type : ActionIdType) (actions : List StoredAction) : List Nat :=
  actions.filterMap fun action => if action.actionId.type = type then some action.actionId.value else none

/-- `currentLayer`, the last of the layers for which there is a message that asks for messages. -/
def currentLayer : Nat := 73

def resendLayers : List Nat := [17, 20, 23, 46, 66, currentLayer]

/-- What the peer is asked to send again, where something is left in the table of the messages that can be read. For other
layers there is no message to ask with. -/
def resendRequest (isCreator : Bool) (snapshot : Snapshot) (state : PollState) (removed : List StoredAction) :
    Option (Int × Int) :=
  if (actionIdsOf .generic removed).length < snapshot.actions.length ∧
      min state.currentPeerLayer currentLayer ∈ resendLayers then
    let minLocalSeqOut :=
      if state.minLocalSeqOut = INT32_MAX then int32 (state.nextExpectedSeqOut + 1) else state.minLocalSeqOut
    let parity : Int := if isCreator then 0 else 1
    some (int32 (state.nextExpectedSeqOut * 2 + parity), int32 ((minLocalSeqOut - 1) * 2 + parity))
  else none

def processSnapshot (sort : ActionSort) (decrypt : EncryptedAction → Option DecryptedMessage) (peerLayer : Nat)
    (isCreator : Bool) (snapshot : Snapshot) (s : IncomingQueue) : IncomingQueue :=
  let mergedActions := sort.sort (snapshot.actions ++ decryptActions decrypt snapshot.encryptedActions)
  let state := pollLoop parseDecryptedAction snapshot.nextExpectedSeqOut peerLayer mergedActions
  let removed := state.removedActions ++ state.actionsToProcess.map Prod.fst
  { s with
    databaseQueue := s.databaseQueue ++ [.deleteActions (actionIdsOf .generic removed),
      .deleteEncryptedActions (actionIdsOf .encrypted removed), .applySeqIn state.nextExpectedSeqOut]
    polls := s.polls + 1
    handed := s.handed ++ state.actionsToProcess.map fun processed => ⟨s.polls, processed.1, processed.2⟩
    dropped := s.dropped ++ removed.map fun action => ⟨s.polls, action, s.seqIn⟩
    executed := s.executed ++ state.actionsToProcess.filterMap fun processed =>
      (parseDecryptedAction processed.1.message).map fun action => (processed.1.actionId, action)
    resendRequests := s.resendRequests ++ (resendRequest isCreator snapshot state removed).toList
    confirmed := if state.maxSeqIn > 0 then s.confirmed ++ [state.maxSeqIn - 1] else s.confirmed }

/-! ## Events -/

def insertAction (s : IncomingQueue) (action : DecryptedMessage) : IncomingQueue :=
  { s with rows := s.rows ++ [(s.nextActionId, action)], nextActionId := s.nextActionId + 1 }

def insertEncryptedAction (s : IncomingQueue) (action : EncryptedAction) : IncomingQueue :=
  { s with
    encryptedRows := s.encryptedRows ++ [(s.nextEncryptedActionId, action)]
    nextEncryptedActionId := s.nextEncryptedActionId + 1 }

/-- `dequeuePeerIncomingActions`. -/
def takeSnapshot (sort : ActionSort) (s : IncomingQueue) : Snapshot where
  actions := sort.sort (s.rows.map fun row => ⟨⟨.generic, row.1⟩, row.2⟩)
  nextExpectedSeqOut := s.seqIn
  encryptedActions := s.encryptedRows

def runDatabaseJob (sort : ActionSort) (s : IncomingQueue) : DatabaseJob → IncomingQueue
  | .enqueueActions actions => actions.foldl insertAction s
  | .enqueueEncryptedActions actions => actions.foldl insertEncryptedAction s
  | .dequeue => { s with stageQueue := s.stageQueue ++ [takeSnapshot sort s] }
  | .deleteActions actionIds => { s with rows := s.rows.filter fun row => !actionIds.contains row.1 }
  | .deleteEncryptedActions actionIds =>
    { s with encryptedRows := s.encryptedRows.filter fun row => !actionIds.contains row.1 }
  | .applySeqIn seqIn => { s with seqIn := seqIn, applied := s.applied ++ [seqIn] }

inductive QueueEvent where
  | enqueueIncomingMessages (actions : List DecryptedMessage)
  | enqueueIncomingEncryptedMessages (actions : List EncryptedAction)
  /-- `execute:`, `watcherJoined:`, or the end of a poll that has stored a key. -/
  | poll
  /-- The database runs its next job. -/
  | runDatabase
  /-- The stage runs its next job, with the keys and the layer of that moment. -/
  | runStage (decrypt : EncryptedAction → Option DecryptedMessage) (peerLayer : Nat) (isCreator : Bool)

def stepQueue (sort : ActionSort) (s : IncomingQueue) : QueueEvent → IncomingQueue
  | .enqueueIncomingMessages actions => { s with databaseQueue := s.databaseQueue ++ [.enqueueActions actions] }
  | .enqueueIncomingEncryptedMessages actions =>
    { s with databaseQueue := s.databaseQueue ++ [.enqueueEncryptedActions actions] }
  | .poll => { s with databaseQueue := s.databaseQueue ++ [.dequeue] }
  | .runDatabase =>
    match s.databaseQueue with
    | [] => s
    | job :: jobs => runDatabaseJob sort { s with databaseQueue := jobs } job
  | .runStage decrypt peerLayer isCreator =>
    match s.stageQueue with
    | [] => s
    | snapshot :: snapshots =>
      processSnapshot parseDecryptedAction sort decrypt peerLayer isCreator snapshot { s with stageQueue := snapshots }

def runQueue (sort : ActionSort) (events : List QueueEvent) : IncomingQueue :=
  events.foldl (stepQueue parseDecryptedAction sort) initQueue

end

end TelegramClient.Secret
