import TelegramClient.Database.StoredMessages

/-!
# Conversations

The conversations with users, groups and secret chats, with what they count: the unread messages and the unseen mentions.

* `TGConversation`, `isMessageUnread`, `mergeMessage` : a conversation, what is unread in it, and its last message;
* `ChatState` : the state of a transaction, with the conversations it has loaded and those it has modified.
-/

namespace TelegramClient.Database

structure TGConversation where
  conversationId : Int
  unreadCount : Nat
  serviceUnreadCount : Int
  unreadMark : Bool
  /-- The id of the last incoming message that is read, 0 if it is not known. -/
  maxReadMessageId : Nat
  maxOutgoingReadMessageId : Int
  maxKnownMessageId : Int
  maxReadDate : Int
  maxOutgoingReadDate : Int
  isDeactivated : Bool
deriving DecidableEq

namespace TGConversation

def initWithConversationId (conversationId : Int) : TGConversation := ⟨conversationId, 0, 0, false, 0, 0, 0, 0, 0, false⟩

/-- `isMessageUnread:`, of a conversation that is no channel. -/
def isMessageUnread (conversation : TGConversation) (message : TGMessage) : Bool :=
  if peerIdIsSecretChat conversation.conversationId then
    if message.outgoing then message.date > conversation.maxOutgoingReadDate else message.date > conversation.maxReadDate
  else if message.outgoing then
    message.mid < messageLocalMidBaseline → message.mid > conversation.maxOutgoingReadMessageId
  else message.mid < messageLocalMidBaseline ∧ message.mid > conversation.maxReadMessageId

def mergeMessage (conversation : TGConversation) (message : TGMessage) : TGConversation :=
  let maxKnownMessageId :=
    if conversation.maxKnownMessageId > messageLocalMidBaseline then 0 else conversation.maxKnownMessageId
  { conversation with
    maxKnownMessageId :=
      if message.mid < messageLocalMidBaseline ∧ message.mid > maxKnownMessageId then message.mid else maxKnownMessageId }

/-- Of what `mergeConversation:` takes over. -/
def mergeConversation (conversation updated : TGConversation) : TGConversation :=
  { conversation with isDeactivated := updated.isDeactivated }

end TGConversation

abbrev ConversationTable := KeyedTable TGConversation.conversationId

/-- The count of unseen mentions of a chat. Mentions up to the last id are in it without a row in the table. -/
structure TGUnseenPeerMentionsState where
  peerId : Int
  count : Nat
  maxIdWithPrecalculatedCount : Int
deriving DecidableEq

structure ChatDatabase where
  messages : MessageTable
  randomIds : List Int
  conversations : ConversationTable
  /-- The rows are a peer id and a message id. -/
  mentionMessageIds : KeyedTable (id : Int × Int → Int × Int)
  mentionStates : KeyedTable TGUnseenPeerMentionsState.peerId
  /-- The messages of the queued `ReadMessageContents` actions. -/
  queuedReadMessageContents : List Int
  /-- `databaseState.unreadCount`. -/
  unreadCount : Nat
  unreadChatsCount : Nat

def initChatDatabase : ChatDatabase := ⟨.empty, [], .empty, .empty, .empty, [], 0, 0⟩

/-! ## Queries -/

def chatMessages (messages : MessageTable) (peerId : Int) : List TGMessage :=
  messages.rows.filter fun message => message.cid = peerId

/-- `SELECT MAX(mid) ... WHERE cid=? AND mid<?`, read as 0 if there is no row. -/
def topMessageId (messages : MessageTable) (peerId : Int) : Int :=
  (((chatMessages messages peerId).map TGMessage.mid).filter fun mid => mid < messageLocalMidBaseline).max?.getD 0

def topMessageDate (messages : MessageTable) (peerId : Int) : Int :=
  ((chatMessages messages peerId).map TGMessage.date).max?.getD 0

def incomingMessageCount (messages : MessageTable) (peerId minId maxId : Int) : Nat :=
  (chatMessages messages peerId).countP fun message => message.mid > minId ∧ message.mid < maxId ∧ ¬message.outgoing

/-- The message with the last date, the first one of these in the order of the rows. -/
def topMessage (order : RowOrder TGMessage) (messages : MessageTable) (peerId : Int) : Option TGMessage :=
  (order.read ((chatMessages messages peerId).filter fun message => message.date ≠ int32Max)).foldl (fun top message =>
    match top with
    | none => some message
    | some last => if last.date < message.date then some message else some last) none

/-! ## Mentions -/

namespace ChatDatabase

def unseenMentionCount (db : ChatDatabase) (peerId : Int) : Nat :=
  (db.mentionStates.find peerId).elim 0 TGUnseenPeerMentionsState.count

/-- `_addUnreadMention`. -/
def addUnreadMention (db : ChatDatabase) (peerId mid : Int) : ChatDatabase :=
  if db.mentionMessageIds.Has (peerId, mid) then db
  else
    let state := match db.mentionStates.find peerId with
      | some current =>
        if mid > current.maxIdWithPrecalculatedCount then { current with count := current.count + 1 } else current
      | none => ⟨peerId, 1, 0⟩
    { db with
      mentionStates := db.mentionStates.insertOrReplace state
      mentionMessageIds := db.mentionMessageIds.insertOrIgnore (peerId, mid) }

/-- `_markMentionsAsRead`. The count falls by the number of ids that are asked for. -/
def markMentionsAsRead (db : ChatDatabase) (peerId : Int) (mids : List Int) : ChatDatabase :=
  { db with
    mentionMessageIds := db.mentionMessageIds.deleteWhere fun row => row.1 = peerId ∧ row.2 ∈ mids
    mentionStates := match db.mentionStates.find peerId with
      | some current => db.mentionStates.insertOrReplace { current with count := current.count - mids.length }
      | none => db.mentionStates }

end ChatDatabase

/-! ## The state of a transaction -/

structure ChatState where
  db : ChatDatabase
  peers : ConversationTable
  modifiedPeerIds : List Int
  /-- `markMessageIdsAsReadMentions` and `markMessageIdsAsUnreadMentions`, as pairs of a peer id and a message id. -/
  markAsRead : List (Int × Int)
  markAsUnread : List (Int × Int)

namespace ChatState

def addModified (peerId : Int) (s : ChatState) : ChatState := { s with modifiedPeerIds := s.modifiedPeerIds ++ [peerId] }

def setPeer (conversation : TGConversation) (s : ChatState) : ChatState :=
  { s with peers := s.peers.insertOrReplace conversation }.addModified conversation.conversationId

def setMessages (messages : MessageTable) (s : ChatState) : ChatState := { s with db := { s.db with messages := messages } }

end ChatState

end TelegramClient.Database
