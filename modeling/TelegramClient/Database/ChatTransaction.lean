import TelegramClient.Database.Conversations

/-!
# Transactions on chats

`transactionAddMessages:...` applies a set of changes to the messages and the conversations: it loads the conversations that
are concerned, does its parts in a fixed order, and stores the conversations that were modified.

* `ChatTransaction` : the arguments, as far as they concern users, groups and secret chats;
* `transaction`, `reportedDeleted` : the whole, and the conversations that it tells to be deleted.

Of what is queued for the server there are the `ReadMessageContents` actions.
-/

namespace TelegramClient.Database

inductive TGDatabaseUpdateMessage where
  | deliveredInBackground (messageId updatedMessageId : Int)
  | contentsRead (messageId : Int)
  | mentionUnread (messageId : Int)
  | withMessage (messageId : Int) (message : TGMessage)

def TGDatabaseUpdateMessage.messageId : TGDatabaseUpdateMessage → Int
  | .deliveredInBackground messageId _ | .contentsRead messageId | .mentionUnread messageId | .withMessage messageId _ =>
    messageId

structure TGReadPeerMessagesRequest where
  peerId : Int
  length : Nat
  unread : Bool

structure TGPeerReadState where
  maxReadMessageId : Nat
  maxOutgoingReadMessageId : Int
  maxKnownMessageId : Int
  unreadCount : Nat
  unreadMark : Bool

structure ChatTransaction where
  addMessages : List TGMessage
  /-- By peer ids; under 0 stand messages whose peer is to be looked up. -/
  removeMessages : List (Int × List Int)
  removeMessagesInteractive : List (Int × List Int)
  updateMessages : Option (List TGDatabaseUpdateMessage)
  updateConversationDatas : List TGConversation
  applyMaxIncomingReadIds : List (Int × Int)
  applyMaxOutgoingReadIds : List (Int × Int)
  applyMaxOutgoingReadDates : List (Int × Int)
  applyUnreadMarks : List (Int × Bool)
  readHistoryForPeerIds : List TGReadPeerMessagesRequest
  resetPeerReadStates : List (Int × TGPeerReadState)
  clearConversationsWithPeerIds : List Int
  removeConversationsWithPeerIds : List Int
  readMessageContentsInteractive : KeyedTable (Prod.fst : Int × List Int → Int)
  /-- `_automaticallyReadPeerIds` at the time of the transaction. -/
  automaticallyReadPeerIds : List Int
  /-- The orders in which dictionaries and tables are read. -/
  peerOrder : RowOrder Int
  messageOrder : RowOrder TGMessage

def noChange : ChatTransaction :=
  ⟨[], [], [], none, [], [], [], [], [], [], [], [], [], .empty, [], .asStored, .asStored⟩

namespace ChatTransaction

variable (t : ChatTransaction)

/-! ## Messages that are read when they arrive -/

def isReadOnArrival (message : TGMessage) : Bool :=
  message.containsUnseenMention && message.cid ∈ t.automaticallyReadPeerIds

def addedMessages : List TGMessage := t.addMessages.map fun message =>
  if t.isReadOnArrival message then { message with containsUnseenMention := false } else message

/-- `readMessageContentsInteractive` after the pass over the added messages: the list of a peer is each time a new one. -/
def readMessageContents : KeyedTable (Prod.fst : Int × List Int → Int) :=
  (t.addMessages.filter t.isReadOnArrival).foldl (fun contents message =>
    contents.insertOrReplace (message.cid, [message.mid])) t.readMessageContentsInteractive

def allUpdates : List TGDatabaseUpdateMessage :=
  (t.updateMessages.elim [] fun updates =>
    updates ++ (t.addMessages.filter t.isReadOnArrival).map fun message => .contentsRead message.mid) ++
  t.readMessageContents.rows.flatMap fun contents => contents.2.map .contentsRead

/-! ## Preparation -/

/-- The messages that are neither stored nor known by their random id. -/
def freshMessages (db : ChatDatabase) : List TGMessage :=
  t.addedMessages.filter fun message =>
    ¬db.messages.Has message.mid ∧ (message.randomId = 0 ∨ message.randomId ∉ db.randomIds)

end ChatTransaction

def cidOf (db : ChatDatabase) (mid : Int) : Option Int := (db.messages.find mid).map TGMessage.cid

def removalPeerIds (db : ChatDatabase) (removals : List (Int × List Int)) : List Int :=
  removals.flatMap fun removal => if toInt32 removal.1 = 0 then removal.2.filterMap (cidOf db) else [removal.1]

/-- The ids of the messages that are removed for a peer. -/
def removalIds (db : ChatDatabase) (removals : List (Int × List Int)) (peerId : Int) : List Int :=
  removals.flatMap fun removal =>
    if toInt32 removal.1 = 0 then removal.2.filter fun mid => cidOf db mid = some peerId
    else if removal.1 = peerId then removal.2 else []

namespace ChatTransaction

variable (t : ChatTransaction)

def allRemovals : List (Int × List Int) := t.removeMessages ++ t.removeMessagesInteractive

def removeEmptyConversations (db : ChatDatabase) : List Int :=
  removalPeerIds db t.removeMessages ++ t.removeConversationsWithPeerIds

def loadedPeerIds (db : ChatDatabase) : List Int :=
  (t.freshMessages db).map TGMessage.cid ++ t.allUpdates.filterMap (fun update => cidOf db update.messageId) ++
  removalPeerIds db t.allRemovals ++ t.updateConversationDatas.map TGConversation.conversationId ++
  t.applyMaxIncomingReadIds.map Prod.fst ++ t.applyMaxOutgoingReadIds.map Prod.fst ++
  t.applyMaxOutgoingReadDates.map Prod.fst ++ t.applyUnreadMarks.map Prod.fst ++ t.resetPeerReadStates.map Prod.fst ++
  t.readHistoryForPeerIds.map TGReadPeerMessagesRequest.peerId ++ t.clearConversationsWithPeerIds ++
  t.removeConversationsWithPeerIds

def loadPeers (db : ChatDatabase) : ConversationTable :=
  db.conversations.deleteWhere fun conversation => conversation.conversationId ∉ t.loadedPeerIds db

end ChatTransaction

/-! ## The parts of a transaction -/

namespace ChatState

def resetPeerReadState (s : ChatState) (reset : Int × TGPeerReadState) : ChatState :=
  match s.peers.find reset.1 with
  | none => s
  | some conversation => s.setPeer { conversation with
      maxReadMessageId := reset.2.maxReadMessageId
      maxOutgoingReadMessageId := reset.2.maxOutgoingReadMessageId
      maxKnownMessageId := reset.2.maxKnownMessageId
      unreadCount := reset.2.unreadCount
      serviceUnreadCount := 0
      unreadMark := reset.2.unreadMark }

/-- A conversation that is marked as unread, or whose messages are read up to the top one. -/
def readConversation (request : TGReadPeerMessagesRequest) (topMessageId topMessageDate : Int)
    (conversation : TGConversation) : TGConversation :=
  if request.unread then { conversation with unreadMark := true }
  else { conversation with
    unreadCount :=
      if topMessageId = conversation.maxKnownMessageId then 0
      else if request.length > 0 then conversation.unreadCount - request.length else 0
    serviceUnreadCount := 0
    maxReadMessageId := max topMessageId.toNat conversation.maxReadMessageId
    unreadMark := false
    maxReadDate := max topMessageDate conversation.maxReadDate }

/-- `_readPeersHistories` for one request. -/
def readPeerHistory (s : ChatState) (request : TGReadPeerMessagesRequest) : ChatState :=
  match s.peers.find request.peerId with
  | none => s
  | some conversation =>
    let secret := peerIdIsSecretChat request.peerId
    let topId := topMessageId s.db.messages request.peerId
    let topDate := if secret then topMessageDate s.db.messages request.peerId else 0
    if conversation.unreadCount ≠ 0 ∨ conversation.serviceUnreadCount ≠ 0 ∨ conversation.maxReadMessageId < topId ∨
        (secret ∧ topDate ≠ 0) ∨
        (request.unread ∧ conversation.unreadCount = 0 ∧ conversation.serviceUnreadCount = 0) ∨
        (¬request.unread ∧ conversation.unreadMark) then
      s.setPeer (readConversation request topId topDate conversation)
    else s

/-! ### Adding messages -/

def countsAsUnread (conversation : Option TGConversation) (message : TGMessage) : Bool :=
  conversation.any fun conversation => !message.outgoing &&
    (((peerIdIsSecretChat message.cid || message.mid > conversation.maxKnownMessageId) && conversation.isMessageUnread message) ||
      (message.mid ≥ messageLocalMidBaseline && message.cid = 777000))

/-- The rows of one message. A message whose id is taken is not stored. -/
def addMessage (peerId : Int) (db : ChatDatabase) (message : TGMessage) : ChatDatabase :=
  let db := { db with
    messages := db.messages.insertOrIgnore message
    randomIds := if message.randomId ≠ 0 then message.randomId :: db.randomIds else db.randomIds }
  if !message.outgoing && message.containsUnseenMention then db.addUnreadMention peerId message.mid else db

/-- `_addMessages` for one peer. A message that clears the chat is passed over. -/
def addPeerMessages (peerId : Int) (messages : List TGMessage) (s : ChatState) : ChatState :=
  let conversation := s.peers.find peerId
  let stored := messages.filter fun message => !message.clearsChat
  let addedUnreadCount := stored.countP (countsAsUnread conversation)
  let s := { s with db := stored.foldl (addMessage peerId) s.db }.addModified peerId
  match conversation with
  | some conversation =>
    if addedUnreadCount ≠ 0 ∧ (conversation.maxReadMessageId ≠ 0 ∨ peerIdIsSecretChat conversation.conversationId) then
      s.setPeer { conversation with unreadCount := conversation.unreadCount + addedUnreadCount }
    else s
  | none => if peerIdIsUser peerId then s.setPeer (.initWithConversationId peerId) else s

/-! ### Removing messages -/

/-- The ids of the unread messages and of those with an unseen mention among the ids, each looked up before it is removed. -/
def removedOf (p : TGMessage → Bool) (messages : MessageTable) : List Int → List Int
  | [] => []
  | mid :: mids =>
    let rest := removedOf p (messages.deleteWhere fun message => message.mid = mid) mids
    if (messages.find mid).any p then mid :: rest else rest

def removedUnread (conversation : Option TGConversation) (message : TGMessage) : Bool :=
  conversation.any fun conversation => !message.outgoing && conversation.isMessageUnread message

/-- `_removeMessages` for one peer. -/
def removePeerMessages (peerId : Int) (mids : List Int) (s : ChatState) : ChatState :=
  let conversation := s.peers.find peerId
  let removedUnreadCount := (removedOf (removedUnread conversation) s.db.messages mids).length
  let removeUnseenMentionIds := removedOf TGMessage.containsUnseenMention s.db.messages mids
  let s := (s.addModified peerId).setMessages (s.db.messages.deleteWhere fun message => message.mid ∈ mids)
  let s := match conversation with
    | some conversation =>
      if removedUnreadCount ≠ 0 ∧ conversation.maxReadMessageId ≠ 0 then
        s.setPeer { conversation with unreadCount := conversation.unreadCount - removedUnreadCount }
      else s
    | none => s
  { s with db := s.db.markMentionsAsRead peerId removeUnseenMentionIds }

/-! ### Updating messages -/

/-- The row of a message is written, unless its new id is taken. The text goes to the row that has the new id then. -/
def storeUpdated (message updated : TGMessage) (s : ChatState) : ChatState :=
  let messages := if message.mid = updated.mid then
      s.db.messages.modify message.mid (fun row => row.updateTo updated) fun _ => rfl
    else (s.db.messages.changeKey message.mid updated.mid (fun row => row.moveTo updated) fun _ => rfl).modify updated.mid
      (fun row => row.setText message updated) (TGMessage.mid_setText message updated)
  (s.setMessages messages).addModified message.cid

/-- `_updateMessages` for one update. -/
def updateMessage (s : ChatState) (update : TGDatabaseUpdateMessage) : ChatState :=
  match s.db.messages.find update.messageId with
  | none => s
  | some message =>
    match update with
    | .deliveredInBackground _ updatedMessageId => s.storeUpdated message { message with mid := updatedMessageId }
    | .contentsRead messageId =>
      if !message.contentsRead || message.containsUnseenMention then
        let marked := !message.outgoing && message.containsUnseenMention
        let updated := { message with
          contentsRead := true
          containsUnseenMention := if marked then false else message.containsUnseenMention }
        let updated := if message.messageLifetime ≠ 0 ∧ ¬peerIdIsSecretChat message.cid then
          updated.filterOutExpiredMedia else updated
        let s := if marked then { s with markAsRead := s.markAsRead ++ [(message.cid, messageId)] } else s
        s.storeUpdated message updated
      else s
    | .mentionUnread messageId =>
      -- the test is made of a message that is not there yet, and always holds
      { s with markAsUnread := s.markAsUnread ++ [(message.cid, messageId)] }.storeUpdated message
        { message with containsUnseenMention := true }
    | .withMessage messageId updated =>
      let s := if message.containsUnseenMention = updated.containsUnseenMention then s
        else if message.containsUnseenMention then { s with markAsRead := s.markAsRead ++ [(message.cid, messageId)] }
        else { s with markAsUnread := s.markAsUnread ++ [(message.cid, messageId)] }
      s.storeUpdated message updated

/-! ### Read ids, marks and whole conversations -/

/-- `_applyMaxIncomingReadIds` for one peer. -/
def applyMaxIncomingReadId (s : ChatState) (read : Int × Int) : ChatState :=
  match s.peers.find read.1 with
  | none => s
  | some conversation =>
    if conversation.maxReadMessageId ≠ 0 ∧ conversation.maxReadMessageId < read.2 then
      let topId := topMessageId s.db.messages read.1
      let count := if topId ≠ 0 ∧ read.2 = topId then conversation.unreadCount
        else incomingMessageCount s.db.messages read.1 conversation.maxReadMessageId (toInt32 (read.2 + 1))
      s.setPeer { conversation with
        unreadMark := false
        unreadCount := conversation.unreadCount - count
        maxReadMessageId := read.2.toNat }
    else s

def applyMaxOutgoingReadId (s : ChatState) (read : Int × Int) : ChatState :=
  match s.peers.find read.1 with
  | none => s
  | some conversation =>
    if conversation.maxOutgoingReadMessageId < read.2 then
      s.setPeer { conversation with maxOutgoingReadMessageId := read.2 }
    else s

def applyMaxOutgoingReadDate (s : ChatState) (read : Int × Int) : ChatState :=
  match s.peers.find read.1 with
  | none => s
  | some conversation =>
    if conversation.maxOutgoingReadDate < read.2 then s.setPeer { conversation with maxOutgoingReadDate := read.2 } else s

def applyUnreadMark (s : ChatState) (mark : Int × Bool) : ChatState :=
  match s.peers.find mark.1 with
  | none => s
  | some conversation =>
    if conversation.unreadMark ≠ mark.2 then s.setPeer { conversation with unreadMark := mark.2 } else s

/-- The deactivated groups with unread messages are read. -/
def readDeactivated (s : ChatState) : ChatState :=
  ((s.peers.rows.filter fun conversation => conversation.isDeactivated ∧ conversation.unreadCount ≠ 0).map fun conversation =>
    (⟨conversation.conversationId, 0, false⟩ : TGReadPeerMessagesRequest)).foldl readPeerHistory s

/-- `_removeMessagesFromConversationsWithPeerIds` for one peer. -/
def removeMessagesFromConversation (s : ChatState) (peerId : Int) : ChatState :=
  let s := s.setMessages (s.db.messages.deleteWhere fun message => message.cid = peerId)
  match s.peers.find peerId with
  | none => s
  | some conversation => s.setPeer { conversation with unreadCount := 0, serviceUnreadCount := 0 }

def clearConversation (s : ChatState) (peerId : Int) : ChatState :=
  (s.removeMessagesFromConversation peerId).addModified peerId

/-- `_removeConversationsWithPeerIds`: the messages of all peers, then the rows of the conversations. -/
def removeConversations (s : ChatState) (peerIds : List Int) : ChatState :=
  let s := peerIds.foldl removeMessagesFromConversation s
  { s with db := { s.db with
    conversations := s.db.conversations.deleteWhere fun conversation => conversation.conversationId ∈ peerIds } }

def updateConversationData (s : ChatState) (updated : TGConversation) : ChatState :=
  match s.peers.find updated.conversationId with
  | none => s.setPeer updated
  | some current => s.setPeer (current.mergeConversation updated)

/-- The marks of the updates: first all that are unread again, then all that are read. -/
def applyMentionMarks (peerOrder : RowOrder Int) (s : ChatState) : ChatState :=
  let db := s.markAsUnread.foldl (fun db mark => db.addUnreadMention mark.1 mark.2) s.db
  let db := (peerOrder.read (s.markAsRead.map Prod.fst).dedup).foldl (fun db peerId =>
    db.markMentionsAsRead peerId ((s.markAsRead.filter fun mark => mark.1 = peerId).map Prod.snd)) db
  { s with db := db }

end ChatState

/-! ## The transaction -/

namespace ChatTransaction

variable (t : ChatTransaction)

def beginChanges (db : ChatDatabase) : ChatState := ⟨db, t.loadPeers db, [], [], []⟩

def readHistories (s : ChatState) : ChatState :=
  t.readHistoryForPeerIds.foldl ChatState.readPeerHistory (t.resetPeerReadStates.foldl ChatState.resetPeerReadState s)

def addAll (db : ChatDatabase) (s : ChatState) : ChatState :=
  let fresh := t.freshMessages db
  (t.peerOrder.read (fresh.map TGMessage.cid).dedup).foldl (fun s peerId =>
    s.addPeerMessages peerId (fresh.filter fun message => message.cid = peerId)) s

def removeAll (db : ChatDatabase) (s : ChatState) : ChatState :=
  (t.peerOrder.read (removalPeerIds db t.allRemovals).dedup).foldl (fun s peerId =>
    s.removePeerMessages peerId (removalIds db t.allRemovals peerId)) s

def updateAll (s : ChatState) : ChatState := t.allUpdates.foldl ChatState.updateMessage s

def applyReads (s : ChatState) : ChatState :=
  let s := t.applyMaxIncomingReadIds.foldl ChatState.applyMaxIncomingReadId s
  let s := t.applyMaxOutgoingReadIds.foldl ChatState.applyMaxOutgoingReadId s
  let s := t.applyMaxOutgoingReadDates.foldl ChatState.applyMaxOutgoingReadDate s
  (t.applyUnreadMarks.foldl ChatState.applyUnreadMark s).readDeactivated

def clearAll (s : ChatState) : ChatState :=
  let s := t.clearConversationsWithPeerIds.foldl ChatState.clearConversation s
  let s := s.removeConversations t.removeConversationsWithPeerIds
  t.updateConversationDatas.foldl ChatState.updateConversationData s

/-- The `ReadMessageContents` actions. -/
def queueReadContents (s : ChatState) : ChatState :=
  { s with db := { s.db with queuedReadMessageContents :=
    s.db.queuedReadMessageContents ++ t.readMessageContents.rows.flatMap Prod.snd } }

def changeChats (db : ChatDatabase) : ChatState :=
  let s := t.removeAll db (t.addAll db (t.readHistories (t.beginChanges db)))
  (t.queueReadContents (t.clearAll (t.applyReads (t.updateAll s)))).applyMentionMarks t.peerOrder

/-! ## The end -/

/-- `_conversationForDispatch`, with `isEmpty`. -/
def conversationForDispatch (s : ChatState) (conversation : TGConversation) : TGConversation × Bool :=
  match topMessage t.messageOrder s.db.messages conversation.conversationId with
  | some message => (conversation.mergeMessage message, false)
  | none => (conversation, true)

/-- The conversation is reported as deleted, and its row is left as it is: the query that deletes it is not stepped. -/
def reportsDeleted (db : ChatDatabase) (s : ChatState) (conversation : TGConversation) : Bool :=
  conversation.conversationId ∈ t.removeConversationsWithPeerIds ||
    ((t.conversationForDispatch s conversation).2 && conversation.conversationId ∈ t.removeEmptyConversations db &&
      !peerIdIsSecretChat conversation.conversationId)

def storeConversation (db : ChatDatabase) (s : ChatState) (conversations : ConversationTable) (peerId : Int) :
    ConversationTable :=
  match s.peers.find peerId with
  | none => conversations
  | some conversation =>
    if t.reportsDeleted db s conversation then conversations
    else conversations.insertOrReplace (t.conversationForDispatch s conversation).1

def storeConversations (db : ChatDatabase) (s : ChatState) : ConversationTable :=
  s.modifiedPeerIds.foldl (t.storeConversation db s) s.db.conversations

end ChatTransaction

namespace TGConversation

def unreadMessages (conversation : TGConversation) : Nat :=
  if peerIdIsChannel conversation.conversationId then 0 else conversation.unreadCount

def unreadChats (conversation : TGConversation) : Nat :=
  if peerIdIsChannel conversation.conversationId then 0
  else if conversation.unreadCount > 0 ∨ conversation.unreadMark then 1 else 0

end TGConversation

/-- A total moves by the difference of the sums over the loaded conversations, and not below zero. -/
def updatedTotal (total previous updated : Nat) : Nat := total + updated - previous

namespace ChatTransaction

variable (t : ChatTransaction)

/-- The sum of the previous unread messages passes over the admin logs. -/
def previousUnread (conversation : TGConversation) : Nat :=
  if peerIdIsAdminLog conversation.conversationId then 0 else conversation.unreadMessages

def finish (db : ChatDatabase) (s : ChatState) : ChatDatabase :=
  { s.db with
    conversations := t.storeConversations db s
    unreadCount := updatedTotal s.db.unreadCount ((t.loadPeers db).total previousUnread)
      (s.peers.total TGConversation.unreadMessages)
    unreadChatsCount := updatedTotal s.db.unreadChatsCount ((t.loadPeers db).total TGConversation.unreadChats)
      (s.peers.total TGConversation.unreadChats) }

/-- The conversations that are reported as deleted. -/
def reportedDeleted (db : ChatDatabase) : List Int :=
  let s := t.changeChats db
  s.modifiedPeerIds.filter fun peerId => (s.peers.find peerId).any (t.reportsDeleted db s)

end ChatTransaction

def transaction (db : ChatDatabase) (t : ChatTransaction) : ChatDatabase := t.finish db (t.changeChats db)

end TelegramClient.Database
