import TelegramClient.Database.PeerIds
import TelegramClient.Lib.KeyedTable

/-!
# The queue of user actions

What the user does (reading, deleting, clearing) is stored in a table, with one row for each type and subject, and
`TGSynchronizeActionQueueActor` asks the server for it: it loads the rows on the queue of the database, takes up some of
them on the stage queue, sends requests for them, confirms the rows when the answers come, and executes again. It
completes when it has loaded nothing.

* `TGDatabaseAction`, `ActionRow` : the rows; `confirms` : the two rules by which a confirmation finds its rows;
* `ActionQueueEvent`, `stepQueue` : what can happen, in any order.

The actors of the paths `(global)` and `(bypass)` are never executed at once (both stand behind the queue `messages`),
so there is one actor here.
-/

namespace TelegramClient.Database

/-! ## Actions -/

inductive TGDatabaseActionType where
  | readConversation
  | deleteMessage
  | deleteConversation
  | clearConversation
  | deleteSecretMessage
  | clearSecretConversation
  | readMessageContents
  | screenshotMessage
deriving DecidableEq

/-- The actions on messages have the message id as subject, the others the id of the peer. -/
def TGDatabaseActionType.isOnMessage : TGDatabaseActionType → Bool
  | .deleteMessage | .deleteSecretMessage | .readMessageContents => true
  | _ => false

structure TGDatabaseAction where
  type : TGDatabaseActionType
  subject : Int
  arg0 : Int
  arg1 : Int
  subjectFits : type.isOnMessage = true → IsInt32 subject
deriving DecidableEq

/-- The type and the subject, the primary key of the table. -/
def TGDatabaseAction.key (action : TGDatabaseAction) : TGDatabaseActionType × Int := (action.type, action.subject)

/-- A row of the table. Every row that is stored has a stamp of its own (a ghost). -/
structure ActionRow where
  stamp : Nat
  action : TGDatabaseAction
deriving DecidableEq

/-- `DELETE ... WHERE action_type=? AND action_subject=?`, and `AND arg0=?` where a full match is required. -/
def TGDatabaseAction.confirms (action : TGDatabaseAction) (requireFullMatch : Bool) (stored : TGDatabaseAction) : Bool :=
  stored.key = action.key && (!requireFullMatch || stored.arg0 = action.arg0)

/-- `INSERT OR REPLACE`. -/
def insertRow (table : List ActionRow) (row : ActionRow) : List ActionRow :=
  table.filter (fun stored => stored.action.key ≠ row.action.key) ++ [row]

def confirmRows (actions : List TGDatabaseAction) (requireFullMatch : Bool) (table : List ActionRow) : List ActionRow :=
  table.filter fun row => !actions.any fun action => action.confirms requireFullMatch row.action

/-! ## Requests -/

/-- The requests, with what they are made of. `doDeleteConversation` is given an offset, which it does not send. -/
inductive Request where
  | conversationReadHistory (conversationId maxMid : Int)
  | readEncryptedHistory (encryptedConversationId accessHash maxDate : Int)
  | deleteMessages (ids : List Int) (revoke : Bool)
  | deleteConversationMember (conversationId : Int)
  | rejectEncryptedChat (encryptedConversationId : Int)
  | deleteConversation (conversationId : Int) (onlyClear : Bool) (maxId offset : Int)
  | channelDeleteHistory (conversationId maxId : Int)
  | readMessageContents (ids : List Int)
  | channelReadMessageContents (peerId : Int) (ids : List Int)
  | sendScreenshotNotification (conversationId replyToMsgId : Int)
deriving DecidableEq

/-- A message to the peer of a secret chat, which goes into the outgoing queue of the chat. -/
inductive SecretServiceMessage where
  | deleteMessages (randomIds : List Int)
  | flushHistory
deriving DecidableEq

/-- What the completion of `loadQueuedActions` is given, and the first stamp that it cannot hold. -/
structure LoadedActions where
  rows : List ActionRow
  bound : Nat

/-- Where a request comes from (a ghost): what was loaded, and the rows that it was built from. -/
structure Origin where
  loaded : LoadedActions
  builtFrom : List ActionRow

/-- A request that waits for its answer, and the actions that its completion blocks hold. -/
structure PendingRequest where
  request : Request
  captured : List TGDatabaseAction
  origin : Origin

inductive Answer where
  | error
  /-- `offset` is the one of `TLmessages_AffectedHistory`. -/
  | success (offset : Int)
deriving DecidableEq

/-! ## What the actor takes up -/

/-- What one execution takes up; `peerId` is the peer of a secret chat or of a channel. -/
inductive Batch where
  | readConversation (row : ActionRow)
  | deleteMessages (rows : List ActionRow)
  | deleteSecretMessages (peerId : Int) (rows : List ActionRow)
  | deleteConversation (row : ActionRow)
  | clearConversation (row : ActionRow)
  | clearSecretConversation (row : ActionRow)
  | readMessageContents (rows : List ActionRow)
  | channelReadMessageContents (peerId : Int) (rows : List ActionRow)
  | screenshotMessage (row : ActionRow)
  | nothing

/-- The peer that the two arguments of `TGDatabaseActionDeleteSecretMessage` are the halves of. -/
def secretPeerId (action : TGDatabaseAction) : Int := action.arg1 * 2 ^ 32 + action.arg0 % 2 ^ 32

/-- The messages of the first peer: a row is passed over when its peer is not the current one, once there is one. -/
def secretBatch (rows : List ActionRow) : Int × List ActionRow :=
  rows.foldl (fun (current, taken) row =>
    if current = 0 ∨ secretPeerId row.action = current then (secretPeerId row.action, taken ++ [row])
    else (current, taken)) (0, [])

def channelPeerId (action : TGDatabaseAction) : Int := peerIdFromChannelId action.arg0

/-- The messages of all chats that are not channels, or else of one channel. `firstKey` stands for the order of the keys
of a dictionary. -/
def contentsBatch (firstKey : Nat) (row : ActionRow) (rows : List ActionRow) : Batch :=
  match (row :: rows).filter fun row => row.action.arg1 ≠ 1 with
  | regular :: others => .readMessageContents (regular :: others)
  | [] =>
    let peerId := channelPeerId ((row :: rows).getD (firstKey % (rows.length + 1)) row).action
    .channelReadMessageContents peerId ((row :: rows).filter fun row => channelPeerId row.action = peerId)

def rowsOf (type : TGDatabaseActionType) (rows : List ActionRow) : List ActionRow :=
  rows.filter fun row => row.action.type = type

def nextBatch (firstKey : Nat) (rows : List ActionRow) : Batch :=
  match rowsOf .readConversation rows with
  | row :: _ => .readConversation row
  | [] =>
  match rowsOf .deleteMessage rows with
  | row :: others => .deleteMessages (row :: others)
  | [] =>
  match rowsOf .deleteSecretMessage rows with
  | row :: others => .deleteSecretMessages (secretBatch (row :: others)).1 (secretBatch (row :: others)).2
  | [] =>
  match rowsOf .deleteConversation rows with
  | row :: _ => .deleteConversation row
  | [] =>
  match rowsOf .clearConversation rows with
  | row :: _ => .clearConversation row
  | [] =>
  match rowsOf .clearSecretConversation rows with
  | row :: _ => .clearSecretConversation row
  | [] =>
  match rowsOf .readMessageContents rows with
  | row :: others => contentsBatch firstKey row others
  | [] =>
  match rowsOf .screenshotMessage rows with
  | row :: _ => .screenshotMessage row
  | [] => .nothing

/-! ## The state -/

structure PeerRecords where
  encryptedConversationId : Int → Int
  encryptedConversationAccessHash : Int → Int
  peerLayer : Int → Nat
  randomIdsForMessageIds : List Int → List Int
  firstKey : Nat

inductive DatabaseJob where
  | storeQueuedActions (actions : List TGDatabaseAction)
  | confirmQueuedActions (actions : List TGDatabaseAction) (requireFullMatch : Bool) (origin : Origin)
  | loadQueuedActions

inductive ActorPhase where
  | idle
  | loading
  /-- The completion of the load waits for the stage queue. -/
  | loaded (loaded : LoadedActions)
  | waiting (requests : List PendingRequest)

/-- What the actor remembers for the handlers of the answers. -/
structure ActorMemory where
  currentReadConversationId : Int
  currentReadMaxMid : Int
  currentDeleteConversationId : Int
  currentDeleteConversationTopMessageId : Int
  currentClearConversation : Bool
deriving DecidableEq

namespace ActorMemory

/-- The action that `readMessagesSuccess:` and `readMessagesFailed` confirm. -/
def readAction (memory : ActorMemory) : TGDatabaseAction :=
  ⟨.readConversation, memory.currentReadConversationId, memory.currentReadMaxMid, 0, nofun⟩

/-- The action that `deleteHistorySuccess:` confirms. -/
def historyAction (memory : ActorMemory) : TGDatabaseAction :=
  if memory.currentClearConversation then
    ⟨.clearConversation, memory.currentDeleteConversationId, memory.currentDeleteConversationTopMessageId, 0, nofun⟩
  else
    ⟨.deleteConversation, memory.currentDeleteConversationId, memory.currentDeleteConversationTopMessageId, 0, nofun⟩

end ActorMemory

/-- The table, the queue of the database and the actor; from `nextStamp` on ghosts. -/
structure ActionQueue where
  table : List ActionRow
  databaseQueue : List DatabaseJob
  phase : ActorPhase
  memory : ActorMemory
  nextStamp : Nat
  answered : List PendingRequest
  /-- What went to the peers of secret chats, with the rows that it was built from. -/
  serviceMessages : List (Int × SecretServiceMessage × List ActionRow)

namespace ActionQueue

def requests (s : ActionQueue) : List PendingRequest :=
  match s.phase with
  | .waiting requests => requests
  | _ => []

def confirmQueuedActions (actions : List TGDatabaseAction) (requireFullMatch : Bool) (origin : Origin)
    (s : ActionQueue) : ActionQueue :=
  { s with databaseQueue := s.databaseQueue ++ [.confirmQueuedActions actions requireFullMatch origin] }

/-- `execute:`, up to the completion of the load. -/
def execute (s : ActionQueue) : ActionQueue :=
  { s with databaseQueue := s.databaseQueue ++ [.loadQueuedActions], phase := .loading }

def send (requests : List PendingRequest) (s : ActionQueue) : ActionQueue := { s with phase := .waiting requests }

/-! ## The handlers -/

/-- `readMessagesSuccess:`; `readMessagesFailed` does the same. -/
def readMessagesSuccess (origin : Origin) (s : ActionQueue) : ActionQueue :=
  (s.confirmQueuedActions [s.memory.readAction] false origin).execute

/-- `doDeleteConversation` with the remembered conversation. -/
def doDeleteConversation (onlyClear : Bool) (maxId offset : Int) (origin : Origin) (s : ActionQueue) : ActionQueue :=
  s.send [⟨.deleteConversation s.memory.currentDeleteConversationId onlyClear maxId offset, [], origin⟩]

/-- `deleteHistorySuccess:`, with the offset of its argument, which is 0 for `nil`. -/
def deleteHistorySuccess (offset : Int) (origin : Origin) (s : ActionQueue) : ActionQueue :=
  if offset > 0 then
    s.doDeleteConversation s.memory.currentClearConversation s.memory.currentDeleteConversationTopMessageId offset origin
  else (s.confirmQueuedActions [s.memory.historyAction] false origin).execute

def rejectEncryptedChatSuccess (origin : Origin) (s : ActionQueue) : ActionQueue := s.deleteHistorySuccess 0 origin

/-! ## The branches of `execute:` -/

def readConversation (records : PeerRecords) (loaded : LoadedActions) (row : ActionRow) (s : ActionQueue) :
    ActionQueue :=
  let s := { s with memory := { s.memory with
    currentReadConversationId := row.action.subject
    currentReadMaxMid := row.action.arg0 } }
  if row.action.subject ≤ int32Min then
    let encryptedConversationId := records.encryptedConversationId row.action.subject
    let accessHash := records.encryptedConversationAccessHash row.action.subject
    if encryptedConversationId ≠ 0 ∧ accessHash ≠ 0 then
      s.send [⟨.readEncryptedHistory encryptedConversationId accessHash row.action.arg0, [], ⟨loaded, [row]⟩⟩]
    else s.readMessagesSuccess ⟨loaded, []⟩
  else s.send [⟨.conversationReadHistory row.action.subject row.action.arg0, [], ⟨loaded, [row]⟩⟩]

def messageIds (rows : List ActionRow) : List Int := rows.map fun row => toInt32 row.action.subject

/-- `action.arg0 & 1`: the message is deleted for everyone. -/
def forEveryone (row : ActionRow) : Bool := row.action.arg0 % 2 = 1

def deleteRequest (loaded : LoadedActions) (rows : List ActionRow) (revoke : Bool) : List PendingRequest :=
  match rows.filter fun row => forEveryone row = revoke with
  | [] => []
  | chosen => [⟨.deleteMessages (messageIds chosen) revoke, [], ⟨loaded, chosen⟩⟩]

/-- `deleteForSelf` and `deleteForEveryone`, merged. -/
def deleteMessages (loaded : LoadedActions) (rows : List ActionRow) (s : ActionQueue) : ActionQueue :=
  s.send (deleteRequest loaded rows false ++ deleteRequest loaded rows true)

/-- The layers that `decryptedServiceMessageActionWithLayer:` makes data for. -/
def serializedLayers : List Nat := [1, 17, 20, 23, 46, 66, 73]

/-- `TGModernSendSecretMessageActor.currentLayer`. -/
def currentLayer : Nat := 73

def hasMessageData (records : PeerRecords) (peerId : Int) : Bool :=
  min (records.peerLayer peerId) currentLayer ∈ serializedLayers

/-- `enqueueOutgoingServiceMessageForPeerId`, where there is data for the layer, and then the confirmation. -/
def sendServiceMessage (records : PeerRecords) (loaded : LoadedActions) (peerId : Int) (message : SecretServiceMessage)
    (rows : List ActionRow) (s : ActionQueue) : ActionQueue :=
  let (s, builtFrom) :=
    if hasMessageData records peerId then
      ({ s with serviceMessages := s.serviceMessages ++ [(peerId, message, rows)] }, rows)
    else (s, [])
  (s.confirmQueuedActions (rows.map fun row => row.action) true ⟨loaded, builtFrom⟩).execute

def deleteConversation (records : PeerRecords) (loaded : LoadedActions) (row : ActionRow) (s : ActionQueue) :
    ActionQueue :=
  let s := { s with memory := { s.memory with
    currentDeleteConversationId := row.action.subject
    currentDeleteConversationTopMessageId := row.action.arg0
    currentClearConversation := false } }
  if row.action.subject < 0 then
    if row.action.subject ≤ int32Min then
      let encryptedConversationId := records.encryptedConversationId row.action.subject
      if encryptedConversationId ≠ 0 then
        s.send [⟨.rejectEncryptedChat encryptedConversationId, [], ⟨loaded, [row]⟩⟩]
      else s.rejectEncryptedChatSuccess ⟨loaded, []⟩
    else s.send [⟨.deleteConversationMember row.action.subject, [], ⟨loaded, [row]⟩⟩]
  else s.doDeleteConversation false row.action.arg0 0 ⟨loaded, [row]⟩

def clearConversation (loaded : LoadedActions) (row : ActionRow) (s : ActionQueue) : ActionQueue :=
  let s := { s with memory := { s.memory with
    currentDeleteConversationId := row.action.subject
    currentDeleteConversationTopMessageId := row.action.arg0
    currentClearConversation := true } }
  if peerIdIsChannel row.action.subject then
    s.send [⟨.channelDeleteHistory row.action.subject row.action.arg0, [], ⟨loaded, [row]⟩⟩]
  else if row.action.subject ≤ int32Min then s.deleteHistorySuccess 0 ⟨loaded, []⟩
  else s.doDeleteConversation true row.action.arg0 0 ⟨loaded, [row]⟩

/-- A request whose completion blocks hold the actions of its rows. -/
def sendCapturing (request : Request) (loaded : LoadedActions) (rows : List ActionRow) (s : ActionQueue) : ActionQueue :=
  s.send [⟨request, rows.map fun row => row.action, ⟨loaded, rows⟩⟩]

def startBatch (records : PeerRecords) (loaded : LoadedActions) (batch : Batch) (s : ActionQueue) : ActionQueue :=
  match batch with
  | .readConversation row => s.readConversation records loaded row
  | .deleteMessages rows => s.deleteMessages loaded rows
  | .deleteSecretMessages peerId rows =>
    s.sendServiceMessage records loaded peerId (.deleteMessages (records.randomIdsForMessageIds (messageIds rows))) rows
  | .deleteConversation row => s.deleteConversation records loaded row
  | .clearConversation row => s.clearConversation loaded row
  | .clearSecretConversation row => s.sendServiceMessage records loaded row.action.subject .flushHistory [row]
  | .readMessageContents rows => s.sendCapturing (.readMessageContents (messageIds rows)) loaded rows
  | .channelReadMessageContents peerId rows =>
    s.sendCapturing (.channelReadMessageContents peerId (messageIds rows)) loaded rows
  | .screenshotMessage row =>
    s.sendCapturing (.sendScreenshotNotification row.action.subject row.action.arg0) loaded [row]
  | .nothing => { s with phase := .idle }

/-! ## Answers -/

inductive SignalEvent where
  | next
  | error
  | completed
deriving DecidableEq

/-- What `requestSignal:` emits for an answer. -/
def requestSignal : Answer → List SignalEvent
  | .error => [.error]
  | .success _ => [.next, .completed]

/-- `catch:` with a block that returns `[SSignal complete]`. -/
def catchAndComplete (events : List SignalEvent) : List SignalEvent :=
  events.map fun event => if event = .error then .completed else event

/-- The side effects of `onNext:` and `onError:`, for the events that reach them. -/
def onNextAndError (onNext onError : ActionQueue → ActionQueue) (events : List SignalEvent) (s : ActionQueue) :
    ActionQueue :=
  events.foldl (fun s event =>
    match event with
    | .next => onNext s
    | .error => onError s
    | .completed => s) s

/-- The action that the blocks of `deleteForSelf` and `deleteForEveryone` confirm for a message. -/
def deleteMessageAction (id : Int) : TGDatabaseAction :=
  ⟨.deleteMessage, toInt32 id, 0, 0, fun _ => isInt32_toInt32 id⟩

/-- The answer of one of the merged requests; when both have completed the actor executes again. -/
def deleteMessagesAnswered (ids : List Int) (origin : Origin) (answer : Answer) (s : ActionQueue) : ActionQueue :=
  let confirm (s : ActionQueue) := s.confirmQueuedActions (ids.map deleteMessageAction) false origin
  let s := onNextAndError confirm confirm (catchAndComplete (requestSignal answer)) s
  match s.requests with
  | [] => s.execute
  | _ => s

/-- The offset of an answer; a failed deletion of a history is handled as `deleteHistorySuccess:nil`. -/
def Answer.affectedOffset : Answer → Int
  | .error => 0
  | .success offset => offset

def handleAnswer (pending : PendingRequest) (answer : Answer) (s : ActionQueue) : ActionQueue :=
  match pending.request with
  | .conversationReadHistory .. | .readEncryptedHistory .. => s.readMessagesSuccess pending.origin
  | .deleteMessages ids _ => s.deleteMessagesAnswered ids pending.origin answer
  | .deleteConversationMember _ => s.doDeleteConversation false 0 0 pending.origin
  | .rejectEncryptedChat _ => s.rejectEncryptedChatSuccess pending.origin
  | .deleteConversation .. => s.deleteHistorySuccess (Answer.affectedOffset answer) pending.origin
  | .channelDeleteHistory .. => s.deleteHistorySuccess 0 pending.origin
  | .readMessageContents .. | .channelReadMessageContents .. | .sendScreenshotNotification .. =>
    (s.confirmQueuedActions pending.captured true pending.origin).execute

/-! ## Steps -/

/-- `storeQueuedActions`, on the queue of the database. -/
def storeRow (action : TGDatabaseAction) (s : ActionQueue) : ActionQueue :=
  { s with table := insertRow s.table ⟨s.nextStamp, action⟩, nextStamp := s.nextStamp + 1 }

def runJob (order : RowOrder ActionRow) (job : DatabaseJob) (s : ActionQueue) : ActionQueue :=
  match job with
  | .storeQueuedActions actions => actions.foldl (fun s action => s.storeRow action) s
  | .confirmQueuedActions actions requireFullMatch _ =>
    { s with table := confirmRows actions requireFullMatch s.table }
  | .loadQueuedActions => { s with phase := .loaded ⟨order.read s.table, s.nextStamp⟩ }

def removeRequest (index : Nat) (pending : PendingRequest) (s : ActionQueue) : ActionQueue :=
  { s with phase := .waiting (s.requests.eraseIdx index), answered := s.answered ++ [pending] }

inductive ActionQueueEvent where
  | storeQueuedActions (actions : List TGDatabaseAction)
  /-- `requestActor` of the path; an actor that is executed already is joined. -/
  | requestActor
  /-- The first job of the queue of the database. -/
  | runDatabase (order : RowOrder ActionRow)
  /-- The completion of the load, on the stage queue. -/
  | runStage (records : PeerRecords)
  | answer (index : Nat) (answer : Answer)

def stepQueue (s : ActionQueue) : ActionQueueEvent → ActionQueue
  | .storeQueuedActions actions => { s with databaseQueue := s.databaseQueue ++ [.storeQueuedActions actions] }
  | .requestActor =>
    match s.phase with
    | .idle => s.execute
    | _ => s
  | .runDatabase order =>
    match s.databaseQueue with
    | [] => s
    | job :: jobs => { s with databaseQueue := jobs }.runJob order job
  | .runStage records =>
    match s.phase with
    | .loaded loaded => s.startBatch records loaded (nextBatch records.firstKey loaded.rows)
    | _ => s
  | .answer index answer =>
    match s.requests[index]? with
    | none => s
    | some pending => (s.removeRequest index pending).handleAnswer pending answer

end ActionQueue

/-- An idle actor over a table: the rows are stamped in the order in which they stand. -/
def initActionQueue (actions : List TGDatabaseAction) : ActionQueue :=
  actions.foldl (fun s action => s.storeRow action) ⟨[], [], .idle, ⟨0, 0, 0, 0, false⟩, 0, [], []⟩

end TelegramClient.Database
