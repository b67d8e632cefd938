import TelegramClient.Database.ChatChanges

/-!
# Unread counts

The unread count of a chat is never counted anew: messages that are added, removed or read each change it by their own rule.

* `unreadMessageCount`, `CountsUnread` : the stored messages that are unread, and a conversation that counts them;
* `unreadCounts_hold` : runs.
-/

namespace TelegramClient.Database
open List
open ChatState (addPeerMessages applyMaxIncomingReadId countsAsUnread find_setPeer readPeerHistory removePeerMessages
  removedOf removedUnread)
open KeyedTable (find_eq_some find_key key_of_find mem_deleteWhere mem_insertAll)
open ChatTransaction (allRemovals allUpdates applyReads changesBeforeClearing clearAll conversationForDispatch
  readHistories reportsDeleted storedFresh storedRow updateAll)

/-- An incoming message of a chat whose server id is above the read id. -/
def isUnreadIn (peerId : Int) (readId : Nat) (message : TGMessage) : Bool :=
  message.cid = peerId ∧ message.outgoing = false ∧ message.mid < messageLocalMidBaseline ∧ message.mid > readId

def unreadMessageCount (messages : MessageTable) (peerId : Int) (readId : Nat) : Nat :=
  messages.rows.countP (isUnreadIn peerId readId)

structure CountsUnread (peerId : Int) (messages : MessageTable) (conversation : TGConversation) : Prop where
  readId : conversation.maxReadMessageId ≠ 0
  unreadCount : conversation.unreadCount = unreadMessageCount messages peerId conversation.maxReadMessageId

/-- The stored conversation counts the stored messages. -/
def ChatCountsUnread (peerId : Int) (db : ChatDatabase) : Prop :=
  ∃ conversation, db.conversations.find peerId = some conversation ∧ CountsUnread peerId db.messages conversation

def storedReadId (peerId : Int) (db : ChatDatabase) : Nat :=
  (db.conversations.find peerId).elim 0 TGConversation.maxReadMessageId

/-! ## Transactions -/

/-- The transaction adds and removes messages, applies read ids and reads the history of the chat to its end. Incoming
messages of the chat that are new have an id that the chat does not know. -/
structure ReceivesAndReads (peerId : Int) (db : ChatDatabase) (t : ChatTransaction) : Prop where
  updateMessages : t.updateMessages = none
  updateConversationDatas : t.updateConversationDatas = []
  applyMaxOutgoingReadIds : t.applyMaxOutgoingReadIds = []
  applyMaxOutgoingReadDates : t.applyMaxOutgoingReadDates = []
  applyUnreadMarks : t.applyUnreadMarks = []
  resetPeerReadStates : t.resetPeerReadStates = []
  clearConversations : t.clearConversationsWithPeerIds = []
  removeConversations : t.removeConversationsWithPeerIds = []
  readHistory : ∀ request ∈ t.readHistoryForPeerIds, request.peerId = peerId → request.length = 0 ∧ request.unread = false
  incoming : ∀ conversation, db.conversations.find peerId = some conversation → ∀ message ∈ t.freshMessages db,
    message.cid = peerId → message.outgoing = false → message.mid > conversation.maxKnownMessageId

/-- The read id when the messages are added, after the histories are read. -/
def readIdOnAdding (peerId : Int) (db : ChatDatabase) (t : ChatTransaction) : Nat :=
  if ∃ request ∈ t.readHistoryForPeerIds, request.peerId = peerId then
    max (topMessageId db.messages peerId).toNat (storedReadId peerId db)
  else storedReadId peerId db

/-- A message stays in the chat, stored or new, that it can show. -/
def KeepsMessage (peerId : Int) (db : ChatDatabase) (t : ChatTransaction) : Prop :=
  ∃ message ∈ db.messages.rows ++ t.storedFresh db, message.cid = peerId ∧ message.date ≠ int32Max ∧
    message.mid ∉ removalIds db t.allRemovals peerId ∧
      ∀ other ∈ t.storedFresh db, other.mid = message.mid → other = message

structure CountsEach (peerId : Int) (db : ChatDatabase) (t : ChatTransaction) : Prop where
  /-- No new message has the id of one that is new and unread. -/
  distinct : (t.storedFresh db).Pairwise fun message other =>
    isUnreadIn peerId (readIdOnAdding peerId db t) message ∨ isUnreadIn peerId (readIdOnAdding peerId db t) other →
      message.mid ≠ other.mid
  /-- The chat is not emptied, unless nothing was unread and nothing new stays unread. -/
  kept : peerId ∈ removalPeerIds db t.removeMessages → KeepsMessage peerId db t ∨
    (∀ message ∈ db.messages.rows, isUnreadIn peerId (storedReadId peerId db) message = false) ∧
      ∀ message ∈ t.storedFresh db, isUnreadIn peerId (storedReadId peerId db) message →
        message.mid ∈ removalIds db t.allRemovals peerId
  readIds : ∀ read ∈ t.applyMaxIncomingReadIds, read.1 = peerId → read.2 < int32Max
  /-- Messages are removed under their own chat. -/
  removals : ∀ removal ∈ t.allRemovals, toInt32 removal.1 ≠ 0 → ∀ mid ∈ removal.2,
    ∀ message ∈ db.messages.rows ++ t.storedFresh db, message.mid = mid → (message.cid = peerId ↔ removal.1 = peerId)

/-! ## Unread messages -/

variable {peerId : Int} {message : TGMessage}

variable {readId : Nat}

theorem isUnreadIn_iff : isUnreadIn peerId readId message ↔
      message.cid = peerId ∧ message.outgoing = false ∧ message.mid < messageLocalMidBaseline ∧ message.mid > readId := by
  simp [isUnreadIn]

variable {messages : MessageTable}

theorem mid_le_topMessageId (h : message ∈ messages.rows) (hcid : message.cid = peerId)
    (hserver : message.mid < messageLocalMidBaseline) : message.mid ≤ topMessageId messages peerId := by
  have hm : message.mid ∈ ((chatMessages messages peerId).map TGMessage.mid).filter fun mid =>
      mid < messageLocalMidBaseline :=
    mem_filter.mpr ⟨mem_map_of_mem (mem_filter.mpr ⟨h, decide_eq_true hcid⟩), decide_eq_true hserver⟩
  unfold topMessageId
  cases hmax : (((chatMessages messages peerId).map TGMessage.mid).filter fun mid => mid < messageLocalMidBaseline).max? with
  | none =>
    rw [max?_eq_none_iff.mp hmax] at hm
    exact absurd hm not_mem_nil
  | some top => exact (max?_eq_some_iff.mp hmax).2 _ hm

theorem unreadMessageCount_of_top_le (h : topMessageId messages peerId ≤ readId) :
    unreadMessageCount messages peerId readId = 0 := by
  refine countP_eq_zero.mpr fun message hmsg hunread => ?_
  obtain ⟨hcid, -, hserver, habove⟩ := isUnreadIn_iff.mp hunread
  have htop := mid_le_topMessageId hmsg hcid hserver
  omega

theorem not_secretChat (h : peerIdIsUser peerId ∨ peerIdIsGroup peerId) : peerIdIsSecretChat peerId = false := by
  have hlow : int32Min < peerId := by
    simp only [peerIdIsUser, peerIdIsGroup, Bool.and_eq_true, decide_eq_true_eq] at h
    unfold int32Min at h ⊢
    omega
  simp [peerIdIsSecretChat, Int.not_le.mpr hlow]

theorem isMessageUnread_incoming {conversation : TGConversation}
    (hpeer : peerIdIsSecretChat conversation.conversationId = false) (hinc : message.outgoing = false) :
    conversation.isMessageUnread message ↔
      message.mid < messageLocalMidBaseline ∧ message.mid > conversation.maxReadMessageId := by
  simp [TGConversation.isMessageUnread, hpeer, hinc]

theorem length_removedOf (p : TGMessage → Bool) (messages : MessageTable) (mids : List Int) :
    (removedOf p messages mids).length = messages.rows.countP fun message => p message && message.mid ∈ mids := by
  induction mids generalizing messages with
  | nil => simp [removedOf]
  | cons mid mids ih =>
    have hsplit := messages.countP_deleteWhere (fun message => p message && message.mid ∈ mid :: mids)
      fun message => message.mid = mid
    have hown : messages.rows.countP (fun message => (p message && message.mid ∈ mid :: mids) && message.mid = mid) =
        if (messages.find mid).any p then 1 else 0 := by
      rw [← messages.countP_key p mid]
      refine countP_congr fun message _ => ?_
      by_cases hmid : message.mid = mid <;> simp [hmid]
    have hrest : (messages.deleteWhere fun message => message.mid = mid).rows.countP
          (fun message => p message && message.mid ∈ mid :: mids) =
        (messages.deleteWhere fun message => message.mid = mid).rows.countP
          (fun message => p message && message.mid ∈ mids) := by
      refine countP_congr fun message hmsg => ?_
      have hne : message.mid ≠ mid := by simpa using (mem_deleteWhere.mp hmsg).2
      simp [hne]
    rw [hown, hrest, ← ih] at hsplit
    rw [← hsplit, removedOf]
    split <;> rfl

/-! ## A conversation in memory -/

/-- The conversation of the peer in memory counts the unread messages of the table. -/
structure ChatIs (peerId : Int) (s : ChatState) (conversation : TGConversation) : Prop where
  find : s.peers.find peerId = some conversation
  counts : CountsUnread peerId s.db.messages conversation

section
variable {peerId : Int} {s : ChatState} {conversation : TGConversation}

theorem ChatIs.of_same {s' : ChatState} (h : ChatIs peerId s conversation)
    (hpeers : s'.peers.find peerId = s.peers.find peerId)
    (hmsgs : ∀ readId, unreadMessageCount s'.db.messages peerId readId = unreadMessageCount s.db.messages peerId readId) :
    ChatIs peerId s' conversation :=
  ⟨hpeers.trans h.find, h.counts.readId, h.counts.unreadCount.trans (hmsgs _).symm⟩

theorem chatIs_readPeerHistory (h : ChatIs peerId s conversation) (request : TGReadPeerMessagesRequest)
    (hreq : request.peerId = peerId → request.length = 0 ∧ request.unread = false) :
    ∃ read, ChatIs peerId (s.readPeerHistory request) read ∧ read.maxKnownMessageId = conversation.maxKnownMessageId ∧
      read.maxReadMessageId = if request.peerId = peerId then
        max (topMessageId s.db.messages peerId).toNat conversation.maxReadMessageId else conversation.maxReadMessageId := by
  by_cases hpeer : request.peerId = peerId
  · subst hpeer
    obtain ⟨hlen, hunread⟩ := hreq rfl
    rw [if_pos rfl]
    have hid : conversation.conversationId = request.peerId := key_of_find h.find
    rcases readPeerHistory_of_find h.find with ⟨hsame, -, htop, -⟩ | ⟨topDate, hread⟩
    · rw [hsame]
      exact ⟨conversation, h, rfl, by omega⟩
    · rw [hread]
      refine ⟨_, ⟨(find_setPeer ..).trans (if_pos ?_), ?_, ?_⟩, ?_, ?_⟩
      · exact (readConversation_conversationId ..).trans hid
      · have hreadId := h.counts.readId
        simp only [ChatState.readConversation, hunread]
        simp
        omega
      · have hnone : unreadMessageCount s.db.messages request.peerId
            (max (topMessageId s.db.messages request.peerId).toNat conversation.maxReadMessageId) = 0 :=
          unreadMessageCount_of_top_le (by omega)
        simp [ChatState.readConversation, hunread, hlen, hnone]
      · simp [ChatState.readConversation, hunread]
      · simp [ChatState.readConversation, hunread]
  · rw [if_neg hpeer]
    refine ⟨conversation, h.of_same ?_ (fun readId => by rw [(replacesPeers_readPeerHistory s request).onlyPeers.db]), rfl, rfl⟩
    cases hfind : s.peers.find request.peerId with
    | none => rw [readPeerHistory_of_none hfind]
    | some other =>
      rcases readPeerHistory_of_find hfind with ⟨hsame, -⟩ | ⟨topDate, hread⟩
      · rw [hsame]
      · rw [hread, find_setPeer, readConversation_conversationId, key_of_find hfind, if_neg hpeer]

theorem chatIs_readPeersHistories (requests : List TGReadPeerMessagesRequest) (h : ChatIs peerId s conversation)
    (hreqs : ∀ request ∈ requests, request.peerId = peerId → request.length = 0 ∧ request.unread = false) :
    ∃ read, ChatIs peerId (requests.foldl readPeerHistory s) read ∧
      read.maxKnownMessageId = conversation.maxKnownMessageId ∧
      (requests.foldl readPeerHistory s).db = s.db ∧
      read.maxReadMessageId = if ∃ request ∈ requests, request.peerId = peerId then
        max (topMessageId s.db.messages peerId).toNat conversation.maxReadMessageId else conversation.maxReadMessageId := by
  induction requests generalizing s conversation with
  | nil => exact ⟨conversation, h, rfl, rfl, by simp⟩
  | cons request requests ih =>
    obtain ⟨first, hfirst, hknown, hread⟩ := chatIs_readPeerHistory h request (hreqs request mem_cons_self)
    obtain ⟨last, hlast, hknown', hdb, hread'⟩ := ih hfirst fun r hr => hreqs r (mem_cons_of_mem request hr)
    have hmsgs := (replacesPeers_readPeerHistory s request).onlyPeers.db
    refine ⟨last, hlast, hknown'.trans hknown, hdb.trans hmsgs, ?_⟩
    rw [hread', hread, hmsgs]
    by_cases hpeer : request.peerId = peerId
    · simp [hpeer]
    · simp [hpeer]

/-! ### Adding -/

variable {other : Int}

theorem find_addPeerMessages_of_ne (hne : other ≠ peerId) (messages : List TGMessage) (s : ChatState) :
    (s.addPeerMessages other messages).peers.find peerId = s.peers.find peerId := by
  unfold addPeerMessages
  dsimp only
  split
  · next added hadded =>
    split
    · rw [find_setPeer, key_of_find hadded, if_neg hne]
      rfl
    · rfl
  · split
    · rw [find_setPeer]
      exact if_neg hne
    · rfl

theorem find_addPeerMessages (hfind : s.peers.find peerId = some conversation)
    (hread : conversation.maxReadMessageId ≠ 0) (messages : List TGMessage) :
    (s.addPeerMessages peerId messages).peers.find peerId = some { conversation with
      unreadCount := conversation.unreadCount +
        (messages.filter fun message => !message.clearsChat).countP (countsAsUnread (some conversation)) } := by
  unfold addPeerMessages
  rw [hfind]
  dsimp only
  split
  · rw [find_setPeer]
    exact if_pos (key_of_find hfind)
  · next hnone =>
    have hzero : (messages.filter fun message => !message.clearsChat).countP
        (countsAsUnread (some conversation)) = 0 := by
      by_contra hcnt
      exact hnone ⟨hcnt, .inl hread⟩
    rw [hzero]
    exact hfind

theorem countP_countsAsUnread {fresh : List TGMessage} (hid : conversation.conversationId = peerId)
    (hchat : peerIdIsSecretChat peerId = false) (hservice : peerId ≠ 777000)
    (hinc : ∀ message ∈ fresh, message.cid = peerId → message.outgoing = false →
      message.mid > conversation.maxKnownMessageId) :
    ((fresh.filter fun message => message.cid = peerId).filter fun message => !message.clearsChat).countP
        (countsAsUnread (some conversation)) =
      (fresh.filter fun message => !message.clearsChat).countP (isUnreadIn peerId conversation.maxReadMessageId) := by
  rw [countP_filter, countP_filter, countP_filter]
  refine countP_congr fun message hmsg => ?_
  by_cases hcid : message.cid = peerId
  · cases hout : message.outgoing with
    | true => simp [countsAsUnread, isUnreadIn, hout]
    | false =>
      have hunread : conversation.isMessageUnread message ↔
          message.mid < messageLocalMidBaseline ∧ message.mid > conversation.maxReadMessageId :=
        isMessageUnread_incoming (by rw [hid, hchat]) hout
      have hknown := hinc message hmsg hcid hout
      simp [countsAsUnread, isUnreadIn, hout, hcid, hchat, hservice, hknown, hunread]
  · simp [isUnreadIn, hcid]

variable {db : ChatDatabase} {t : ChatTransaction}

theorem find_addAll (hfind : s.peers.find peerId = some conversation) (hread : conversation.maxReadMessageId ≠ 0) :
    (t.addAll db s).peers.find peerId = some { conversation with
      unreadCount := conversation.unreadCount +
        (((t.freshMessages db).filter fun message => message.cid = peerId).filter fun message =>
          !message.clearsChat).countP (countsAsUnread (some conversation)) } := by
  let own := (t.freshMessages db).filter fun message => message.cid = peerId
  let add : ChatState → Int → ChatState := fun s other =>
    s.addPeerMessages other ((t.freshMessages db).filter fun message => message.cid = other)
  let count : TGConversation → TGConversation := fun c => { c with
    unreadCount := c.unreadCount +
      (own.filter fun message => !message.clearsChat).countP (countsAsUnread (some c)) }
  let Inv : ChatState → Prop := fun s => ∃ c, s.peers.find peerId = some c ∧ c.maxReadMessageId ≠ 0
  have hnd : (t.peerOrder.read ((t.freshMessages db).map TGMessage.cid).dedup).Nodup :=
    (t.peerOrder.perm _).nodup_iff.mpr (nodup_dedup _)
  have hown (s : ChatState) (c : TGConversation) (hc : s.peers.find peerId = some c) (hcr : c.maxReadMessageId ≠ 0) :
      (add s peerId).peers.find peerId = some (count c) := find_addPeerMessages hc hcr own
  have hother (s : ChatState) (other : Int) (hne : other ≠ peerId) :
      (add s other).peers.find peerId = s.peers.find peerId := find_addPeerMessages_of_ne hne _ s
  have hview : (t.addAll db s).peers.find peerId =
      if peerId ∈ t.peerOrder.read ((t.freshMessages db).map TGMessage.cid).dedup then (s.peers.find peerId).map count
      else s.peers.find peerId := by
    change (List.foldl add s _).peers.find peerId = _
    refine foldl_view Inv (fun s => s.peers.find peerId) hnd ?_ ?_ ?_ ⟨_, hfind, hread⟩
    · rintro s other - ⟨c, hc, hcr⟩
      by_cases hne : other = peerId
      · subst hne
        exact ⟨count c, hown s c hc hcr, hcr⟩
      · exact ⟨c, (hother s other hne).trans hc, hcr⟩
    · exact fun s other _ hne _ => hother s other hne
    · rintro s - ⟨c, hc, hcr⟩
      rw [hown s c hc hcr, hc]
      rfl
  rw [hview, hfind]
  split
  · rfl
  · next hnone =>
    have hempty : own = [] := by
      refine filter_eq_nil_iff.mpr fun message hmsg hcid => hnone ?_
      exact (mem_freshCids t db).mpr ⟨message, hmsg, by simpa using hcid⟩
    simp only [own] at hempty
    rw [hempty]
    rfl

variable {message : TGMessage}

theorem mem_storedFresh : message ∈ t.storedFresh db ↔ message ∈ t.freshMessages db ∧ message.clearsChat = false := by
  simp [storedFresh]

theorem not_has_of_fresh (h : message ∈ t.storedFresh db) : ¬db.messages.Has message.mid := by
  have hfresh := (mem_filter.mp (mem_storedFresh.mp h).1).2
  simp only [Bool.decide_and, Bool.and_eq_true, decide_eq_true_eq] at hfresh
  exact hfresh.1

theorem chatIs_addAll (h : ChatIs peerId s conversation) (hdb : s.db = db) (hchat : peerIdIsSecretChat peerId = false)
    (hservice : peerId ≠ 777000) (hinc : ∀ message ∈ t.freshMessages db, message.cid = peerId → message.outgoing = false →
      message.mid > conversation.maxKnownMessageId) (hdist : (t.storedFresh db).Pairwise fun message other =>
      isUnreadIn peerId conversation.maxReadMessageId message ∨ isUnreadIn peerId conversation.maxReadMessageId other →
        message.mid ≠ other.mid) :
    ∃ added, ChatIs peerId (t.addAll db s) added ∧ added.maxReadMessageId = conversation.maxReadMessageId := by
  have hid : conversation.conversationId = peerId := key_of_find h.find
  have hperm := t.addedRows_perm db
  have hsymm : (t.addedRows db).Pairwise fun message other =>
      isUnreadIn peerId conversation.maxReadMessageId message ∨ isUnreadIn peerId conversation.maxReadMessageId other →
        message.mid ≠ other.mid :=
    hperm.symm.pairwise hdist fun hne hunread hmid => hne hunread.symm hmid.symm
  have hrows : unreadMessageCount (t.addAll db s).db.messages peerId conversation.maxReadMessageId =
      unreadMessageCount s.db.messages peerId conversation.maxReadMessageId +
        (t.storedFresh db).countP (isUnreadIn peerId conversation.maxReadMessageId) := by
    rw [unreadMessageCount, t.messages_addAll db, KeyedTable.countP_insertAll ?_ hsymm, hperm.countP_eq]
    · rfl
    · intro message hmsg _
      rw [hdb]
      exact not_has_of_fresh (hperm.mem_iff.mp hmsg)
  refine ⟨_, ⟨find_addAll h.find h.counts.readId, h.counts.readId, ?_⟩, rfl⟩
  rw [countP_countsAsUnread hid hchat hservice hinc, h.counts.unreadCount]
  exact hrows.symm

/-! ### Removing -/

variable {mids : List Int}

theorem unreadMessageCount_removePeerMessages
    (hothers : ∀ message ∈ s.db.messages.rows, message.mid ∈ mids → message.cid ≠ peerId) (readId : Nat) :
    unreadMessageCount (s.removePeerMessages other mids).db.messages peerId readId =
      unreadMessageCount s.db.messages peerId readId := by
  have hnone : s.db.messages.rows.countP (fun message => isUnreadIn peerId readId message && message.mid ∈ mids) = 0 := by
    refine countP_eq_zero.mpr fun message hmsg hboth => ?_
    obtain ⟨hunread, hmid⟩ := (Bool.and_eq_true_iff).mp hboth
    exact hothers message hmsg (of_decide_eq_true hmid) (isUnreadIn_iff.mp hunread).1
  have hsplit := s.db.messages.countP_deleteWhere (isUnreadIn peerId readId) fun message => message.mid ∈ mids
  rw [hnone] at hsplit
  rw [messages_removePeerMessages]
  exact hsplit

theorem find_removePeerMessages_of_ne (hne : other ≠ peerId) (mids : List Int) (s : ChatState) :
    (s.removePeerMessages other mids).peers.find peerId = s.peers.find peerId := by
  unfold removePeerMessages
  dsimp only
  split
  · next old hold =>
    split
    · rw [find_setPeer, key_of_find hold, if_neg hne]
      rfl
    · rfl
  · rfl

theorem find_removePeerMessages (hfind : s.peers.find peerId = some conversation)
    (hread : conversation.maxReadMessageId ≠ 0) (mids : List Int) :
    (s.removePeerMessages peerId mids).peers.find peerId = some { conversation with
      unreadCount := conversation.unreadCount -
        (removedOf (removedUnread (some conversation)) s.db.messages mids).length } := by
  unfold removePeerMessages
  rw [hfind]
  dsimp only
  split
  · rw [find_setPeer]
    exact if_pos (key_of_find hfind)
  · next hnone =>
    have hzero : (removedOf (removedUnread (some conversation)) s.db.messages mids).length = 0 := by
      by_contra hcnt
      exact hnone ⟨hcnt, hread⟩
    rw [hzero]
    exact hfind

theorem chatIs_removePeerMessages (h : ChatIs peerId s conversation) (hchat : peerIdIsSecretChat peerId = false)
    (hown : ∀ message ∈ s.db.messages.rows, message.mid ∈ mids → message.cid = peerId) :
    ∃ removed, ChatIs peerId (s.removePeerMessages peerId mids) removed ∧
      removed.maxReadMessageId = conversation.maxReadMessageId := by
  have hid : conversation.conversationId = peerId := key_of_find h.find
  have hrem : (removedOf (removedUnread (some conversation)) s.db.messages mids).length =
      s.db.messages.rows.countP fun message =>
        isUnreadIn peerId conversation.maxReadMessageId message && message.mid ∈ mids := by
    rw [length_removedOf]
    refine countP_congr fun message hmsg => ?_
    by_cases hmid : message.mid ∈ mids
    · cases hout : message.outgoing with
      | true => simp [removedUnread, isUnreadIn, hout]
      | false =>
        have hunread : conversation.isMessageUnread message ↔
            message.mid < messageLocalMidBaseline ∧ message.mid > conversation.maxReadMessageId :=
          isMessageUnread_incoming (by rw [hid, hchat]) hout
        simp [removedUnread, isUnreadIn, hout, hown message hmsg hmid, hunread]
    · simp [hmid]
  have hsplit := s.db.messages.countP_deleteWhere (isUnreadIn peerId conversation.maxReadMessageId)
    fun message => message.mid ∈ mids
  refine ⟨_, ⟨find_removePeerMessages h.find h.counts.readId mids, h.counts.readId, ?_⟩, rfl⟩
  rw [messages_removePeerMessages, hrem]
  have hcnt := h.counts.unreadCount
  unfold unreadMessageCount at hcnt ⊢
  dsimp only
  omega

theorem cid_of_mem_removalIds (hcond : CountsEach peerId db t) (hmsg : message ∈ db.messages.rows ++ t.storedFresh db)
    (hmid : message.mid ∈ removalIds db t.allRemovals other) : message.cid = peerId ↔ other = peerId := by
  obtain ⟨removal, hremoval, hm⟩ := mem_flatMap.mp hmid
  split at hm
  · have hcid : cidOf db message.mid = some other := by simpa using (mem_filter.mp hm).2
    rcases mem_append.mp hmsg with hstor | hfresh
    · rw [cidOf, find_key hstor] at hcid
      rw [← Option.some.inj hcid]
    · rw [cidOf, KeyedTable.find_eq_none_iff_not_has.mpr (not_has_of_fresh hfresh)] at hcid
      cases hcid
  · next hkey =>
    split at hm
    · next hother =>
      rw [← hother]
      exact hcond.removals removal hremoval hkey message.mid hm message hmsg rfl
    · cases hm

theorem chatIs_removeAll (hcond : CountsEach peerId db t) (h : ChatIs peerId s conversation)
    (hchat : peerIdIsSecretChat peerId = false)
    (hrows : ∀ message ∈ s.db.messages.rows, message ∈ db.messages.rows ++ t.storedFresh db) :
    ∃ removed, ChatIs peerId (t.removeAll db s) removed ∧ removed.maxReadMessageId = conversation.maxReadMessageId := by
  have hfold (peerIds : List Int) : ∀ s : ChatState, ∀ c, ChatIs peerId s c →
      (∀ message ∈ s.db.messages.rows, message ∈ db.messages.rows ++ t.storedFresh db) → ∃ removed, ChatIs peerId
          (peerIds.foldl (fun s peerId => s.removePeerMessages peerId (removalIds db t.allRemovals peerId)) s) removed ∧
        removed.maxReadMessageId = c.maxReadMessageId := by
    induction peerIds with
    | nil => exact fun s c hc _ => ⟨c, hc, rfl⟩
    | cons other peerIds ih =>
      intro s c hc hrows
      have hcid : ∀ message ∈ s.db.messages.rows, message.mid ∈ removalIds db t.allRemovals other →
          (message.cid = peerId ↔ other = peerId) :=
        fun message hmsg => cid_of_mem_removalIds hcond (hrows message hmsg)
      have hstep : ∃ removed, ChatIs peerId (s.removePeerMessages other (removalIds db t.allRemovals other)) removed ∧
          removed.maxReadMessageId = c.maxReadMessageId := by
        by_cases hother : other = peerId
        · subst hother
          exact chatIs_removePeerMessages hc hchat fun message hmsg hmid => (hcid message hmsg hmid).mpr rfl
        · refine ⟨c, hc.of_same (find_removePeerMessages_of_ne hother _ s) fun readId => ?_, rfl⟩
          exact unreadMessageCount_removePeerMessages
            (fun message hmsg hmid hpeer => hother ((hcid message hmsg hmid).mp hpeer)) readId
      obtain ⟨removed, hrem, hread⟩ := hstep
      obtain ⟨last, hlast, hread'⟩ := ih _ removed hrem fun message hmsg => by
        rw [messages_removePeerMessages] at hmsg
        exact hrows message (mem_deleteWhere.mp hmsg).1
      exact ⟨last, hlast, hread'.trans hread⟩
  exact hfold _ s conversation h hrows

/-! ### Updating and reading -/

/-- What does not depend on the text, the media or the flags of a message. -/
def ReadsHead (p : TGMessage → Bool) : Prop :=
  ∀ message other : TGMessage, message.mid = other.mid → message.cid = other.cid → message.outgoing = other.outgoing →
    message.date = other.date → p message = p other

theorem readsHead_isUnreadIn (peerId : Int) (readId : Nat) : ReadsHead (isUnreadIn peerId readId) := by
  intro message other hmid hcid hout _
  simp [isUnreadIn, hmid, hcid, hout]

variable {p : TGMessage → Bool}

theorem countP_contentsRead (hp : ReadsHead p) (s : ChatState) (messageId : Int) :
    (s.updateMessage (.contentsRead messageId)).db.messages.rows.countP p = s.db.messages.rows.countP p := by
  have hstore (message updated : TGMessage) (s : ChatState) (hmsg : message ∈ s.db.messages.rows)
      (hmid : updated.mid = message.mid) (hdate : updated.date = message.date) :
      (s.storeUpdated message updated).db.messages.rows.countP p = s.db.messages.rows.countP p := by
    have hmsgs : (s.storeUpdated message updated).db.messages =
        s.db.messages.modify message.mid (fun row => row.updateTo updated) fun _ => rfl := if_pos hmid.symm
    have hkeep : ∀ row ∈ s.db.messages.rows, row.mid = message.mid → p (row.updateTo updated) = p row := by
      intro row hrow hkey
      obtain rfl : row = message := s.db.messages.eq_of_key hrow hmsg hkey
      exact hp _ _ rfl rfl rfl hdate
    rw [hmsgs]
    exact s.db.messages.countP_modify message.mid _ hkeep
  rcases updateMessage_cases s (.contentsRead messageId) with
    ⟨hsame, -⟩ | ⟨message, updated, reads, unreads, hfind, hupdates, hupd⟩
  · rw [hsame]
  · have hmsg : message ∈ s.db.messages.rows := (find_eq_some.mp hfind).1
    rw [hupd]
    cases hupdates with
    | read _ _ _ hmid hdate _ | contentsRead _ _ _ hmid hdate _ =>
      exact hstore message updated (s.addMarks _ _) hmsg hmid hdate

theorem countP_updateAll (ht : t.updateMessages = none) (hp : ReadsHead p) (s : ChatState) :
    (t.updateAll s).db.messages.rows.countP p = s.db.messages.rows.countP p := by
  have hreads : ∀ update ∈ t.allUpdates, ∃ messageId, update = .contentsRead messageId := by
    intro update hupd
    simp only [allUpdates, ht, Option.elim_none, nil_append, mem_flatMap, mem_map] at hupd
    obtain ⟨_, -, messageId, -, rfl⟩ := hupd
    exact ⟨messageId, rfl⟩
  unfold updateAll
  generalize t.allUpdates = updates at hreads
  induction updates generalizing s with
  | nil => rfl
  | cons update updates ih =>
    obtain ⟨messageId, rfl⟩ := hreads update mem_cons_self
    rw [foldl_cons, ih _ fun u hu => hreads u (mem_cons_of_mem _ hu), countP_contentsRead hp]

theorem peers_updateAll (t : ChatTransaction) (s : ChatState) : (t.updateAll s).peers = s.peers := by
  unfold updateAll
  generalize t.allUpdates = updates
  induction updates generalizing s with
  | nil => rfl
  | cons update updates ih => rw [foldl_cons, ih, peers_updateMessage]

theorem chatIs_updateAll (ht : t.updateMessages = none) (h : ChatIs peerId s conversation) :
    ChatIs peerId (t.updateAll s) conversation :=
  h.of_same (by rw [peers_updateAll]) fun readId => countP_updateAll ht (readsHead_isUnreadIn peerId readId) s

theorem unreadMessageCount_sub (messages : MessageTable) {newId : Int} (hnew : (readId : Int) < newId)
    (hmax : newId < int32Max) :
    unreadMessageCount messages peerId readId - incomingMessageCount messages peerId readId (toInt32 (newId + 1)) =
      unreadMessageCount messages peerId newId.toNat := by
  have hnext : toInt32 (newId + 1) = newId + 1 := by
    refine toInt32_of_isInt32 ⟨?_, ?_⟩
    · unfold int32Min
      omega
    · omega
  let read : TGMessage → Bool := fun message => message.mid ≤ newId
  have hsplit : messages.rows.countP (isUnreadIn peerId readId) =
      (messages.rows.filter read).countP (isUnreadIn peerId readId) +
        (messages.rows.filter fun message => !read message).countP (isUnreadIn peerId readId) := by
    simpa using countP_eq_countP_filter_add messages.rows (isUnreadIn peerId readId) read
  have hunread : (messages.rows.filter fun message => !read message).countP (isUnreadIn peerId readId) =
      unreadMessageCount messages peerId newId.toNat := by
    rw [countP_filter]
    refine countP_congr fun message _ => ?_
    simp only [Bool.and_eq_true, isUnreadIn_iff, Bool.not_eq_true', decide_eq_false_iff_not, read]
    constructor
    · rintro ⟨⟨hcid, hout, hbase, -⟩, hunread⟩
      exact ⟨hcid, hout, hbase, by omega⟩
    · rintro ⟨hcid, hout, hbase, habove⟩
      exact ⟨⟨hcid, hout, hbase, by omega⟩, by omega⟩
  have hcnt : incomingMessageCount messages peerId readId (toInt32 (newId + 1)) =
      (messages.rows.filter read).countP fun message =>
        message.cid = peerId ∧ message.outgoing = false ∧ (readId : Int) < message.mid := by
    rw [incomingMessageCount, chatMessages, countP_filter, countP_filter, hnext]
    refine countP_congr fun message _ => ?_
    simp only [Bool.and_eq_true, decide_eq_true_eq, read, Bool.not_eq_true]
    constructor
    · rintro ⟨⟨habove, hbelow, hout⟩, hcid⟩
      exact ⟨⟨hcid, hout, habove⟩, by omega⟩
    · rintro ⟨⟨hcid, hout, habove⟩, hread⟩
      exact ⟨⟨habove, by omega, hout⟩, hcid⟩
  have hle : (messages.rows.filter read).countP (isUnreadIn peerId readId) ≤
      incomingMessageCount messages peerId readId (toInt32 (newId + 1)) := by
    rw [hcnt]
    refine countP_mono_left fun message _ hunread => ?_
    obtain ⟨hcid, hout, -, habove⟩ := isUnreadIn_iff.mp hunread
    simp [hcid, hout, habove]
  unfold unreadMessageCount at hunread ⊢
  by_cases hserver : newId < messageLocalMidBaseline
  · have heq : (messages.rows.filter read).countP (isUnreadIn peerId readId) =
        incomingMessageCount messages peerId readId (toInt32 (newId + 1)) := by
      rw [hcnt]
      refine countP_congr fun message hmsg => ?_
      have hread : message.mid ≤ newId := of_decide_eq_true (mem_filter.mp hmsg).2
      simp only [isUnreadIn_iff, decide_eq_true_eq]
      constructor
      · rintro ⟨hcid, hout, -, habove⟩
        exact ⟨hcid, hout, habove⟩
      · rintro ⟨hcid, hout, habove⟩
        exact ⟨hcid, hout, by omega, habove⟩
    omega
  · have hzero : messages.rows.countP (isUnreadIn peerId newId.toNat) = 0 := by
      refine countP_eq_zero.mpr fun message _ hmsg => ?_
      obtain ⟨-, -, hbase, habove⟩ := isUnreadIn_iff.mp hmsg
      omega
    omega

theorem chatIs_applyMaxIncomingReadId (h : ChatIs peerId s conversation) (read : Int × Int)
    (hmax : read.1 = peerId → read.2 < int32Max) : ∃ applied, ChatIs peerId (s.applyMaxIncomingReadId read) applied ∧
      conversation.maxReadMessageId ≤ applied.maxReadMessageId := by
  unfold applyMaxIncomingReadId
  by_cases hpeer : read.1 = peerId
  · obtain ⟨other, newId⟩ := read
    obtain rfl : other = peerId := hpeer
    rw [h.find]
    dsimp only
    split
    · next hnew =>
      have hbelow : (conversation.maxReadMessageId : Int) < newId := hnew.2
      refine ⟨_, ⟨(find_setPeer ..).trans (if_pos (key_of_find h.find)), ?_, ?_⟩, ?_⟩
      · dsimp only
        omega
      · dsimp only [ChatState.setPeer_db]
        rw [h.counts.unreadCount]
        split
        · next htop =>
          rw [Nat.sub_self, unreadMessageCount_of_top_le (by omega)]
        · exact unreadMessageCount_sub s.db.messages hbelow (hmax rfl)
      · dsimp only
        omega
    · exact ⟨conversation, h, Nat.le_refl _⟩
  · refine ⟨conversation, ?_, Nat.le_refl _⟩
    split
    · exact h
    · next other hother =>
      split
      · refine h.of_same ?_ fun _ => rfl
        rw [find_setPeer]
        exact if_neg fun hid => hpeer ((key_of_find hother).symm.trans hid)
      · exact h

theorem chatIs_applyReads (ht : ReceivesAndReads peerId db t)
    (hmax : ∀ read ∈ t.applyMaxIncomingReadIds, read.1 = peerId → read.2 < int32Max)
    (h : ChatIs peerId s conversation) :
    ∃ applied, ChatIs peerId (t.applyReads s) applied ∧ conversation.maxReadMessageId ≤ applied.maxReadMessageId := by
  have hfold (reads : List (Int × Int)) : ∀ s c, ChatIs peerId s c →
      (∀ read ∈ reads, read.1 = peerId → read.2 < int32Max) →
      ∃ applied, ChatIs peerId (reads.foldl applyMaxIncomingReadId s) applied ∧
        c.maxReadMessageId ≤ applied.maxReadMessageId := by
    induction reads with
    | nil => exact fun s c hc _ => ⟨c, hc, Nat.le_refl _⟩
    | cons read reads ih =>
      intro s c hc hreads
      obtain ⟨first, hfirst, hle⟩ := chatIs_applyMaxIncomingReadId hc read (hreads read mem_cons_self)
      obtain ⟨last, hlast, hle'⟩ := ih _ first hfirst fun r hr => hreads r (mem_cons_of_mem read hr)
      exact ⟨last, hlast, hle.trans hle'⟩
  obtain ⟨applied, happlied, hle⟩ := hfold t.applyMaxIncomingReadIds s conversation h hmax
  unfold applyReads
  rw [ht.applyMaxOutgoingReadIds, ht.applyMaxOutgoingReadDates, ht.applyUnreadMarks]
  dsimp only [foldl_nil]
  obtain ⟨read, hread, -, -, hreadId⟩ := chatIs_readPeersHistories
    (((t.applyMaxIncomingReadIds.foldl applyMaxIncomingReadId s).peers.rows.filter fun conversation =>
      conversation.isDeactivated ∧ conversation.unreadCount ≠ 0).map fun conversation =>
        (⟨conversation.conversationId, 0, false⟩ : TGReadPeerMessagesRequest)) happlied
    (fun request hreq _ => by
      obtain ⟨_, -, rfl⟩ := mem_map.mp hreq
      exact ⟨rfl, rfl⟩)
  refine ⟨read, hread, ?_⟩
  rw [hreadId]
  split <;> omega

end

/-! ## The transaction -/

section
variable {peerId : Int} {db : ChatDatabase} {t : ChatTransaction}

theorem changeChats_of_receivesAndReads (ht : ReceivesAndReads peerId db t) :
    (t.changeChats db).peers = (t.changesBeforeClearing db).peers ∧
      (t.changeChats db).modifiedPeerIds = (t.changesBeforeClearing db).modifiedPeerIds ∧
      (t.changeChats db).db.messages = (t.changesBeforeClearing db).db.messages ∧
      ∀ other, (t.changeChats db).db.conversations.find other = (t.changesBeforeClearing db).db.conversations.find other := by
  have hclear : t.clearAll (t.changesBeforeClearing db) = (t.changesBeforeClearing db).removeConversations [] := by
    rw [clearAll, ht.clearConversations, ht.removeConversations, ht.updateConversationDatas]
    rfl
  obtain ⟨hmsgs, hconvs, -, -⟩ := tables_applyMentionMarks t.peerOrder
    (t.queueReadContents (t.clearAll (t.changesBeforeClearing db)))
  rw [t.changeChats_eq db]
  refine ⟨?_, ?_, hmsgs.trans ?_, fun other => ?_⟩
  · rw [hclear]
    rfl
  · rw [hclear]
    rfl
  · rw [hclear]
    rfl
  · rw [hconvs, hclear]
    change ((t.changesBeforeClearing db).db.conversations.deleteWhere fun conversation =>
      conversation.conversationId ∈ ([] : List Int)).find other = _
    rw [KeyedTable.find_deleteWhere]
    cases (t.changesBeforeClearing db).db.conversations.find other <;> rfl

theorem chatIs_changesBeforeClearing (ht : ReceivesAndReads peerId db t) (hcond : CountsEach peerId db t)
    (hchat : peerIdIsSecretChat peerId = false) (hservice : peerId ≠ 777000) {conversation : TGConversation}
    (hfind : db.conversations.find peerId = some conversation) (hcounts : CountsUnread peerId db.messages conversation)
    (hloaded : peerId ∈ t.loadedPeerIds db) : ∃ last, ChatIs peerId (t.changesBeforeClearing db) last := by
  have hbegin : ChatIs peerId (t.beginChanges db) conversation :=
    ⟨(find_loadPeers t db peerId).trans ((if_pos hloaded).trans hfind), hcounts⟩
  have hstor : storedReadId peerId db = conversation.maxReadMessageId := by
    rw [storedReadId, hfind]
    rfl
  obtain ⟨read, hread, hknown, hdb, hreadId⟩ := chatIs_readPeersHistories t.readHistoryForPeerIds hbegin ht.readHistory
  have hhistories : t.readHistories (t.beginChanges db) = t.readHistoryForPeerIds.foldl readPeerHistory
      (t.beginChanges db) := by
    rw [readHistories, ht.resetPeerReadStates]
    rfl
  have hadding : read.maxReadMessageId = readIdOnAdding peerId db t := by
    rw [hreadId, readIdOnAdding, hstor]
    rfl
  obtain ⟨added, hadded, haddedId⟩ := chatIs_addAll hread hdb hchat hservice
    (by rw [hknown]; exact ht.incoming conversation hfind) (by rw [hadding]; exact hcond.distinct)
  have hrows : ∀ message ∈ (t.addAll db (t.readHistoryForPeerIds.foldl readPeerHistory
      (t.beginChanges db))).db.messages.rows, message ∈ db.messages.rows ++ t.storedFresh db := by
    intro message hmsg
    rw [t.messages_addAll db, hdb] at hmsg
    rcases mem_insertAll hmsg with hold | hnew
    · exact mem_append_left _ hold
    · exact mem_append_right _ ((t.addedRows_perm db).mem_iff.mp hnew)
  obtain ⟨removed, hrem, -⟩ := chatIs_removeAll hcond hadded hchat hrows
  obtain ⟨last, hlast, -⟩ := chatIs_applyReads ht hcond.readIds (chatIs_updateAll ht.updateMessages hrem)
  refine ⟨last, ?_⟩
  rw [changesBeforeClearing, hhistories]
  exact hlast

/-- The messages at the end, by what does not depend on their flags: the stored and the added ones but for the removed. -/
theorem countP_changesBeforeClearing (ht : t.updateMessages = none) {p : TGMessage → Bool} (hp : ReadsHead p) :
    (t.changesBeforeClearing db).db.messages.rows.countP p =
      ((db.messages.insertAll (t.addedRows db)).rows.filter fun message =>
        ∀ other ∈ removalPeerIds db t.allRemovals, message.mid ∉ removalIds db t.allRemovals other).countP p := by
  rw [changesBeforeClearing, (onlyPeers_applyReads t _).db, countP_updateAll ht hp, t.rows_removeAll db,
    t.messages_addAll db, db_readHistories]

theorem mem_insertAll_of_unique (h : message ∈ db.messages.rows ++ t.storedFresh db)
    (hunique : ∀ other ∈ t.storedFresh db, other.mid = message.mid → other = message) :
    message ∈ (db.messages.insertAll (t.addedRows db)).rows := by
  have hfind : (db.messages.insertAll (t.addedRows db)).find message.mid = some message := by
    rw [KeyedTable.find_insertAll]
    rcases mem_append.mp h with hold | hnew
    · rw [find_key hold]
      rfl
    · rw [KeyedTable.find_eq_none_iff_not_has.mpr (not_has_of_fresh hnew), Option.none_or]
      have hadded : message ∈ t.addedRows db := (t.addedRows_perm db).mem_iff.mpr hnew
      cases hfirst : (t.addedRows db).find? fun row => row.mid = message.mid with
      | none => exact absurd (decide_eq_true rfl) (find?_eq_none.mp hfirst message hadded)
      | some first =>
        have hm : first ∈ t.storedFresh db := (t.addedRows_perm db).mem_iff.mp (mem_of_find?_eq_some hfirst)
        have hmid : first.mid = message.mid := by simpa using find?_some hfirst
        rw [hunique first hm hmid]
  exact (find_eq_some.mp hfind).1

theorem mem_of_mem_insertAll (h : message ∈ (db.messages.insertAll (t.addedRows db)).rows) :
    message ∈ db.messages.rows ++ t.storedFresh db := by
  rcases mem_insertAll h with hold | hnew
  · exact mem_append_left _ hold
  · exact mem_append_right _ ((t.addedRows_perm db).mem_iff.mp hnew)

theorem foldl_ne_none {α : Type*} {f : Option α → α → Option α} (hf : ∀ top a, f top a ≠ none) {rows : List α}
    (hrows : rows ≠ []) (top : Option α) : rows.foldl f top ≠ none := by
  induction rows generalizing top with
  | nil => exact absurd rfl hrows
  | cons row rows ih =>
    cases rows with
    | nil => exact hf top row
    | cons next rows => exact ih (cons_ne_nil next rows) (f top row)

def HasShown (peerId : Int) (messages : MessageTable) : Prop :=
  ∃ row ∈ messages.rows, row.cid = peerId ∧ row.date ≠ int32Max

variable {messages : MessageTable}

theorem topMessage_of_hasShown (h : HasShown peerId messages) (order : RowOrder TGMessage) :
    topMessage order messages peerId ≠ none := by
  obtain ⟨row, hrow, hcid, hdate⟩ := h
  have hm : row ∈ order.read ((chatMessages messages peerId).filter fun message => message.date ≠ int32Max) := by
    rw [(order.perm _).mem_iff]
    simp [chatMessages, hrow, hcid, hdate]
  refine foldl_ne_none (fun top message => ?_) (ne_nil_of_mem hm) none
  cases top with
  | none => exact Option.some_ne_none message
  | some last =>
    dsimp only
    split <;> exact Option.some_ne_none _

theorem topMessage_of_keepsMessage (ht : t.updateMessages = none) (hcond : CountsEach peerId db t)
    (hkeeps : KeepsMessage peerId db t) (hmsgs : messages = (t.changesBeforeClearing db).db.messages)
    (order : RowOrder TGMessage) : topMessage order messages peerId ≠ none := by
  obtain ⟨message, hmsg, hcid, hdate, hstays, hunique⟩ := hkeeps
  let shows : TGMessage → Bool := fun message => message.cid = peerId ∧ message.date ≠ int32Max
  have hhead : ReadsHead shows := by
    intro message other _ hcid _ hdate
    simp [shows, hcid, hdate]
  have hsome : 0 < messages.rows.countP shows := by
    rw [hmsgs, countP_changesBeforeClearing ht hhead]
    refine countP_pos_iff.mpr ⟨message, mem_filter.mpr ⟨mem_insertAll_of_unique hmsg hunique, ?_⟩, ?_⟩
    · refine decide_eq_true fun other _ hmid => ?_
      obtain rfl : other = peerId := (cid_of_mem_removalIds hcond hmsg hmid).mp hcid
      exact hstays hmid
    · simp [shows, hcid, hdate]
  obtain ⟨shown, hshown, hpeer⟩ := countP_pos_iff.mp hsome
  simp only [shows, decide_eq_true_eq] at hpeer
  exact topMessage_of_hasShown ⟨shown, hshown, hpeer⟩ order

theorem find_transaction (ht : ReceivesAndReads peerId db t) : (transaction db t).conversations.find peerId =
      if peerId ∈ (t.changesBeforeClearing db).modifiedPeerIds then
        t.storedRow db (t.changeChats db) peerId (db.conversations.find peerId)
      else db.conversations.find peerId := by
  obtain ⟨-, hmod, -, hconvs⟩ := changeChats_of_receivesAndReads ht
  have hrow : (t.changeChats db).db.conversations.find peerId = db.conversations.find peerId := by
    rw [hconvs, (t.peersChange_changesBeforeClearing db).conversations]
    rfl
  rw [← hrow, ← hmod]
  exact t.find_storeConversations db (t.changeChats db) peerId

theorem chatCountsUnread_of_not_loaded (ht : ReceivesAndReads peerId db t) (hcond : CountsEach peerId db t)
    (hloaded : peerId ∉ t.loadedPeerIds db) (h : ChatCountsUnread peerId db) :
    ChatCountsUnread peerId (transaction db t) := by
  obtain ⟨conversation, hfind, hreadId, hcnt⟩ := h
  obtain ⟨hpeers, -, hmsgs, -⟩ := changeChats_of_receivesAndReads ht
  have hnone : (t.changeChats db).peers.find peerId = none := by
    have hbegin : (t.beginChanges db).peers.find peerId = none :=
      (find_loadPeers t db peerId).trans (if_neg hloaded)
    rw [hpeers]
    rcases (t.peersChange_changesBeforeClearing db).peers peerId with hsame | ⟨-, hsome | hload⟩
    · exact hsame.trans hbegin
    · rw [hbegin] at hsome
      cases hsome
    · exact absurd hload hloaded
  have hrow : (transaction db t).conversations.find peerId = some conversation := by
    rw [find_transaction ht, storedRow, hnone, hfind]
    exact ite_self _
  have hfresh : ∀ message ∈ t.addedRows db, isUnreadIn peerId conversation.maxReadMessageId message = false := by
    intro message hmsg
    have hm : message ∈ t.storedFresh db := (t.addedRows_perm db).mem_iff.mp hmsg
    have hcid : message.cid ≠ peerId :=
      fun hcid => hloaded (hcid ▸ mem_loadedPeerIds_of_fresh t db (mem_storedFresh.mp hm).1)
    simp [isUnreadIn, hcid]
  have hadded : (db.messages.insertAll (t.addedRows db)).rows.countP (isUnreadIn peerId conversation.maxReadMessageId) =
      db.messages.rows.countP (isUnreadIn peerId conversation.maxReadMessageId) :=
    KeyedTable.countP_insertAll_of_forall hfresh
  refine ⟨conversation, hrow, hreadId, hcnt.trans ?_⟩
  rw [unreadMessageCount, unreadMessageCount, ← hadded]
  change _ = (t.changeChats db).db.messages.rows.countP _
  rw [hmsgs, countP_changesBeforeClearing ht.updateMessages (readsHead_isUnreadIn peerId _), countP_filter]
  refine countP_congr fun message hmsg => ?_
  rw [Bool.and_eq_true, decide_eq_true_eq, iff_self_and]
  intro hunread other hother hmid
  have hcid := (cid_of_mem_removalIds hcond (mem_of_mem_insertAll hmsg) hmid).mp (isUnreadIn_iff.mp hunread).1
  exact hloaded (mem_loadedPeerIds_of_removal t db (hcid ▸ hother))

theorem chatCountsUnread_transaction (hpeer : peerIdIsUser peerId ∨ peerIdIsGroup peerId) (hservice : peerId ≠ 777000)
    (ht : ReceivesAndReads peerId db t) (hcond : CountsEach peerId db t) (h : ChatCountsUnread peerId db) :
    ChatCountsUnread peerId (transaction db t) := by
  by_cases hloaded : peerId ∈ t.loadedPeerIds db
  swap
  · exact chatCountsUnread_of_not_loaded ht hcond hloaded h
  obtain ⟨conversation, hfind, hcounts⟩ := h
  obtain ⟨hpeers, -, hmsgs, -⟩ := changeChats_of_receivesAndReads ht
  obtain ⟨last, hlast⟩ := chatIs_changesBeforeClearing ht hcond (not_secretChat hpeer) hservice hfind hcounts hloaded
  have hlastFind : (t.changeChats db).peers.find peerId = some last := by
    rw [hpeers]
    exact hlast.find
  have hlastCounts : CountsUnread peerId (transaction db t).messages last := by
    change CountsUnread peerId (t.changeChats db).db.messages last
    rw [hmsgs]
    exact hlast.counts
  by_cases hmodified : peerId ∈ (t.changesBeforeClearing db).modifiedPeerIds
  swap
  · -- the conversation in memory is still the stored one
    have hbegin : (t.beginChanges db).peers.find peerId = some conversation :=
      (find_loadPeers t db peerId).trans ((if_pos hloaded).trans hfind)
    rcases (t.peersChange_changesBeforeClearing db).peers peerId with hsame | ⟨hmod, -⟩
    · obtain rfl : last = conversation := Option.some.inj (hlast.find.symm.trans (hsame.trans hbegin))
      exact ⟨last, (find_transaction ht).trans ((if_neg hmodified).trans hfind), hlastCounts⟩
    · exact absurd hmod hmodified
  have hrow := find_transaction ht
  rw [if_pos hmodified, storedRow, hlastFind] at hrow
  dsimp only at hrow
  cases hdel : t.reportsDeleted db (t.changeChats db) last with
  | false =>
    rw [hdel, if_neg Bool.false_ne_true] at hrow
    refine ⟨_, hrow, ?_⟩
    unfold conversationForDispatch
    split
    · exact ⟨hlastCounts.readId, hlastCounts.unreadCount⟩
    · exact hlastCounts
  | true =>
    -- the row stays as it was, which had nothing unread
    rw [hdel, if_pos rfl, hfind] at hrow
    have hid : last.conversationId = peerId := key_of_find hlastFind
    have hempty : topMessage t.messageOrder (t.changeChats db).db.messages peerId = none ∧
        peerId ∈ removalPeerIds db t.removeMessages := by
      simp only [reportsDeleted, ChatTransaction.removeEmptyConversations, ht.removeConversations, hid,
        append_nil, not_mem_nil, decide_false, Bool.false_or, Bool.and_eq_true, decide_eq_true_eq] at hdel
      refine ⟨?_, hdel.1.2⟩
      have hisEmpty := hdel.1.1
      unfold conversationForDispatch at hisEmpty
      rw [hid] at hisEmpty
      cases htop : topMessage t.messageOrder (t.changeChats db).db.messages peerId with
      | none => rfl
      | some message =>
        rw [htop] at hisEmpty
        cases hisEmpty
    have hstoredId : storedReadId peerId db = conversation.maxReadMessageId := by
      rw [storedReadId, hfind]
      rfl
    rcases hcond.kept hempty.2 with hkeeps | ⟨hnothing, hnew⟩
    · exact absurd hempty.1 (topMessage_of_keepsMessage ht.updateMessages hcond hkeeps hmsgs _)
    · rw [hstoredId] at hnothing hnew
      have hbefore : conversation.unreadCount = 0 :=
        hcounts.unreadCount.trans (countP_eq_zero.mpr fun message hmsg hunread => by
          rw [hnothing message hmsg] at hunread
          cases hunread)
      have hafter : unreadMessageCount (transaction db t).messages peerId conversation.maxReadMessageId = 0 := by
        change (t.changeChats db).db.messages.rows.countP _ = 0
        rw [hmsgs, countP_changesBeforeClearing ht.updateMessages (readsHead_isUnreadIn peerId _)]
        refine countP_eq_zero.mpr fun message hmsg hunread => ?_
        obtain ⟨hadded, hstays⟩ := mem_filter.mp hmsg
        rcases mem_append.mp (mem_of_mem_insertAll hadded) with hold | hfresh
        · rw [hnothing message hold] at hunread
          cases hunread
        · have hremoval : peerId ∈ removalPeerIds db t.allRemovals := by
            rw [allRemovals, removalPeerIds, flatMap_append]
            exact mem_append_left _ hempty.2
          exact (of_decide_eq_true hstays) peerId hremoval (hnew message hfresh hunread)
      exact ⟨conversation, hrow, hcounts.readId, hbefore.trans hafter.symm⟩

end

/-! ## Read ids -/

/-- The read id of a chat in memory does not decrease. -/
def ReadsOn (peerId : Int) (s s' : ChatState) : Prop :=
  ∀ conversation, s.peers.find peerId = some conversation →
    ∃ last, s'.peers.find peerId = some last ∧ conversation.maxReadMessageId ≤ last.maxReadMessageId

section
variable {peerId : Int} {s s' s'' : ChatState}

theorem ReadsOn.of_peers_eq (h : s'.peers = s.peers) : ReadsOn peerId s s' := by
  intro conversation hfind
  rw [h]
  exact ⟨conversation, hfind, Nat.le_refl _⟩

theorem ReadsOn.trans (h : ReadsOn peerId s s') (h' : ReadsOn peerId s' s'') : ReadsOn peerId s s'' := by
  intro conversation hfind
  obtain ⟨middle, hmiddle, hle⟩ := h conversation hfind
  obtain ⟨last, hlast, hle'⟩ := h' middle hmiddle
  exact ⟨last, hlast, hle.trans hle'⟩

theorem ReadsOn.foldl {α : Type*} {f : ChatState → α → ChatState} (h : ∀ s x, ReadsOn peerId s (f s x)) (xs : List α)
    (s : ChatState) : ReadsOn peerId s (xs.foldl f s) :=
  foldl_rel (fun _ => .of_peers_eq rfl) (fun h h' => h.trans h') (fun s x _ => h s x) s

theorem ReadsOn.setPeer {other : Int} {old new : TGConversation} (hold : s.peers.find other = some old)
    (hid : new.conversationId = old.conversationId) (hle : old.maxReadMessageId ≤ new.maxReadMessageId) :
    ReadsOn peerId s (s.setPeer new) := by
  intro conversation hfind
  rw [find_setPeer, hid, key_of_find hold]
  split
  · next hsame =>
    subst hsame
    obtain rfl : old = conversation := Option.some.inj (hold.symm.trans hfind)
    exact ⟨new, rfl, hle⟩
  · exact ⟨conversation, hfind, Nat.le_refl _⟩

theorem readsOn_readPeerHistory (s : ChatState) (request : TGReadPeerMessagesRequest) :
    ReadsOn peerId s (s.readPeerHistory request) := by
  cases hfind : s.peers.find request.peerId with
  | none => exact .of_peers_eq (by rw [readPeerHistory_of_none hfind])
  | some conversation =>
    rcases readPeerHistory_of_find hfind with ⟨hsame, -⟩ | ⟨topDate, hread⟩
    · exact .of_peers_eq (by rw [hsame])
    · rw [hread]
      refine .setPeer hfind (readConversation_conversationId ..) ?_
      unfold ChatState.readConversation
      split
      · exact Nat.le_refl _
      · exact Nat.le_max_right _ _

theorem readsOn_addPeerMessages (other : Int) (messages : List TGMessage) (s : ChatState) :
    ReadsOn peerId s (s.addPeerMessages other messages) := by
  unfold addPeerMessages
  dsimp only
  have hrows (db : ChatDatabase) : ReadsOn peerId s (({ s with db := db } : ChatState).addModified other) :=
    .of_peers_eq rfl
  refine (hrows ((messages.filter fun message => !message.clearsChat).foldl (ChatState.addMessage other) s.db)).trans ?_
  split
  · next hold =>
    split
    · exact .setPeer hold rfl (Nat.le_refl _)
    · exact .of_peers_eq rfl
  · next hnone =>
    split
    · intro conversation hfind
      rw [find_setPeer]
      split
      · next hsame =>
        subst hsame
        rw [show (({ s with db := _ } : ChatState).addModified other).peers = s.peers from rfl] at hfind
        exact absurd (hnone.symm.trans hfind) (Option.some_ne_none conversation).symm
      · exact ⟨conversation, hfind, Nat.le_refl _⟩
    · exact .of_peers_eq rfl

theorem readsOn_removePeerMessages (other : Int) (mids : List Int) (s : ChatState) :
    ReadsOn peerId s (s.removePeerMessages other mids) := by
  by_cases hother : other = peerId
  · subst hother
    intro conversation hfind
    unfold removePeerMessages
    rw [hfind]
    dsimp only
    split
    · rw [find_setPeer, if_pos (key_of_find hfind)]
      exact ⟨_, rfl, Nat.le_refl _⟩
    · exact ⟨conversation, hfind, Nat.le_refl _⟩
  · intro conversation hfind
    exact ⟨conversation, (find_removePeerMessages_of_ne hother mids s).trans hfind, Nat.le_refl _⟩

theorem readsOn_applyMaxIncomingReadId (s : ChatState) (read : Int × Int) :
    ReadsOn peerId s (s.applyMaxIncomingReadId read) := by
  unfold applyMaxIncomingReadId
  split
  · exact .of_peers_eq rfl
  · next hold =>
    split
    · next hnew =>
      refine .setPeer hold rfl ?_
      have habove := hnew.2
      dsimp only
      omega
    · exact .of_peers_eq rfl

theorem storedReadId_le_transaction {db : ChatDatabase} {t : ChatTransaction} (ht : ReceivesAndReads peerId db t) :
    storedReadId peerId db ≤ storedReadId peerId (transaction db t) := by
  have hreads : ReadsOn peerId (t.beginChanges db) (t.changeChats db) := by
    have happlied (s : ChatState) : ReadsOn peerId s (t.applyReads s) := by
      unfold applyReads
      rw [ht.applyMaxOutgoingReadIds, ht.applyMaxOutgoingReadDates, ht.applyUnreadMarks]
      exact (ReadsOn.foldl readsOn_applyMaxIncomingReadId _ s).trans (.foldl readsOn_readPeerHistory _ _)
    have hhistories (s : ChatState) : ReadsOn peerId s (t.readHistories s) := by
      unfold readHistories
      rw [ht.resetPeerReadStates]
      exact .foldl readsOn_readPeerHistory _ s
    have hadded (s : ChatState) : ReadsOn peerId s (t.addAll db s) :=
      .foldl (fun s other => readsOn_addPeerMessages other _ s) _ s
    have hrem (s : ChatState) : ReadsOn peerId s (t.removeAll db s) :=
      .foldl (fun s other => readsOn_removePeerMessages other _ s) _ s
    have hupd (s : ChatState) : ReadsOn peerId s (t.updateAll s) := .of_peers_eq (peers_updateAll t s)
    have hbefore : ReadsOn peerId (t.beginChanges db) (t.changesBeforeClearing db) :=
      ((((hhistories _).trans (hadded _)).trans (hrem _)).trans (hupd _)).trans (happlied _)
    exact hbefore.trans (.of_peers_eq (changeChats_of_receivesAndReads ht).1)
  unfold storedReadId
  rw [find_transaction ht]
  split
  · unfold storedRow
    cases hrow : db.conversations.find peerId with
    | none => exact Nat.zero_le _
    | some conversation =>
      by_cases hloaded : peerId ∈ t.loadedPeerIds db
      · obtain ⟨last, hlast, hle⟩ := hreads conversation ((find_loadPeers t db peerId).trans ((if_pos hloaded).trans hrow))
        rw [hlast]
        dsimp only
        split
        · exact Nat.le_refl _
        · refine hle.trans (Nat.le_of_eq ?_)
          unfold conversationForDispatch
          split <;> rfl
      · cases hlast : (t.changeChats db).peers.find peerId with
        | none => exact Nat.le_refl _
        | some last =>
          have hbegin : (t.beginChanges db).peers.find peerId = none :=
            (find_loadPeers t db peerId).trans (if_neg hloaded)
          rw [(changeChats_of_receivesAndReads ht).1] at hlast
          rcases (t.peersChange_changesBeforeClearing db).peers peerId with hsame | ⟨-, hsome | hload⟩
          · rw [hsame, hbegin] at hlast
            cases hlast
          · rw [hbegin] at hsome
            cases hsome
          · exact absurd hload hloaded
  · exact Nat.le_refl _

end

/-! ## Runs -/

/-- The count of a chat stays right as long as no new unread message is there twice, the chat is not emptied, messages are
removed under their own chats, and no read id is the greatest number; its read id never decreases. -/
theorem unreadCounts_hold {peerId : Int} (hpeer : peerIdIsUser peerId ∨ peerIdIsGroup peerId) (hservice : peerId ≠ 777000)
    {db : ChatDatabase} (h : ChatCountsUnread peerId db) {ts : List ChatTransaction}
    (hts : AllSteps transaction (ReceivesAndReads peerId) db ts) :
    AllSteps transaction (fun db t => storedReadId peerId db ≤ storedReadId peerId (transaction db t)) db ts ∧
      (AllSteps transaction (CountsEach peerId) db ts →
        AllSteps transaction (fun db t => ChatCountsUnread peerId (transaction db t)) db ts) := by
  refine ⟨?_, fun hcond => ?_⟩
  · have hstep : ∀ db t, True → ReceivesAndReads peerId db t →
        storedReadId peerId db ≤ storedReadId peerId (transaction db t) :=
      fun db t _ ht => storedReadId_le_transaction ht
    exact AllSteps.of_invariant (fun _ _ _ _ => trivial) hstep trivial hts
  · have hstep : ∀ db t, ChatCountsUnread peerId db → ReceivesAndReads peerId db t ∧ CountsEach peerId db t →
        ChatCountsUnread peerId (transaction db t) :=
      fun db t hdb ht => chatCountsUnread_transaction hpeer hservice ht.1 ht.2 hdb
    exact AllSteps.of_invariant hstep hstep h (hts.and hcond)

/-! ### A chat with one message -/

def readMessage : TGMessage := ⟨10, 5, 0, 0, "read", [], false, 100, false, false⟩

def newMessage : TGMessage := ⟨11, 5, 0, 0, "new", [], false, 101, false, false⟩

def readChat : ChatDatabase :=
  { initChatDatabase with
    messages := KeyedTable.empty.insertOrIgnore readMessage
    conversations := KeyedTable.empty.insertOrIgnore ⟨5, 0, 0, false, 10, 0, 10, 0, 0, false⟩ }

theorem chatCountsUnread_readChat : ChatCountsUnread 5 readChat :=
  ⟨⟨5, 0, 0, false, 10, 0, 10, 0, 0, false⟩, by decide, by decide, by decide⟩

theorem receivesAndReads_add {messages : List TGMessage} (h : ∀ message ∈ messages, message.mid > 10) :
    ReceivesAndReads 5 readChat { noChange with addMessages := messages } where
  updateMessages := rfl
  updateConversationDatas := rfl
  applyMaxOutgoingReadIds := rfl
  applyMaxOutgoingReadDates := rfl
  applyUnreadMarks := rfl
  resetPeerReadStates := rfl
  clearConversations := rfl
  removeConversations := rfl
  readHistory _ hreq := absurd hreq not_mem_nil
  incoming conversation hfind message hmsg _ _ := by
    have hconv : readChat.conversations.find 5 = some ⟨5, 0, 0, false, 10, 0, 10, 0, 0, false⟩ := by decide
    obtain rfl := Option.some.inj (hconv.symm.trans hfind)
    obtain ⟨added, hadded, rfl⟩ := mem_map.mp (mem_filter.mp hmsg).1
    have hmid := h added hadded
    split <;> exact hmid

/-- A message that comes once is counted. -/
theorem unreadCounts_hold_once :
    AllSteps transaction (fun db t => storedReadId 5 db ≤ storedReadId 5 (transaction db t)) readChat
        [{ noChange with addMessages := [newMessage] }] ∧
      AllSteps transaction (fun db t => ChatCountsUnread 5 (transaction db t)) readChat
        [{ noChange with addMessages := [newMessage] }] := by
  have hts : AllSteps transaction (ReceivesAndReads 5) readChat [{ noChange with addMessages := [newMessage] }] :=
    ⟨receivesAndReads_add (by decide), trivial⟩
  have hrun := unreadCounts_hold (Or.inl (by decide)) (by decide) chatCountsUnread_readChat hts
  refine ⟨hrun.1, hrun.2 ⟨⟨by decide, ?_, ?_, ?_⟩, trivial⟩⟩
  · exact fun hremoval => absurd hremoval not_mem_nil
  · exact fun read hread => absurd hread not_mem_nil
  · exact fun removal hremoval => absurd hremoval not_mem_nil

/-- A message that is twice in a batch is stored once and counted twice. -/
theorem twice_in_batch :
    ChatCountsUnread 5 readChat ∧ ReceivesAndReads 5 readChat { noChange with addMessages := [newMessage, newMessage] } ∧
      ¬ChatCountsUnread 5 (transaction readChat { noChange with addMessages := [newMessage, newMessage] }) := by
  refine ⟨chatCountsUnread_readChat, receivesAndReads_add (by decide), ?_⟩
  rintro ⟨conversation, hfind, -, hcount⟩
  have hrow : (transaction readChat { noChange with addMessages := [newMessage, newMessage] }).conversations.find 5 =
      some ⟨5, 2, 0, false, 10, 0, 11, 0, 0, false⟩ := by decide
  obtain rfl := Option.some.inj (hrow.symm.trans hfind)
  exact absurd hcount (by decide)

end TelegramClient.Database
