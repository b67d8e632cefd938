import TelegramClient.Database.ChatTransaction
import TelegramClient.Lib.Runs

/-!
# What the parts of a transaction change

The parts of a transaction change the conversations in memory, and the end of it stores those that were modified.

* `PeersChange` : the conversations that differ are all modified, and none is added that was not to be loaded.
-/

namespace TelegramClient.Database
open List
open TGMessage (cid)
open ChatTransaction (loadPeers loadedPeerIds)

namespace ChatState

variable (conversation : TGConversation) (s : ChatState)

@[simp] theorem setPeer_db : (s.setPeer conversation).db = s.db := rfl

@[simp] theorem setPeer_modifiedPeerIds :
    (s.setPeer conversation).modifiedPeerIds = s.modifiedPeerIds ++ [conversation.conversationId] := rfl

theorem find_setPeer (peerId : Int) : (s.setPeer conversation).peers.find peerId =
      if conversation.conversationId = peerId then some conversation else s.peers.find peerId :=
  KeyedTable.find_insertOrReplace s.peers conversation peerId

end ChatState

/-- The conversations in memory that differ are modified ones, and a new one is one of `loaded`. -/
structure PeersChange (loaded : List Int) (s s' : ChatState) : Prop where
  conversations : s'.db.conversations = s.db.conversations
  unreadCount : s'.db.unreadCount = s.db.unreadCount
  unreadChatsCount : s'.db.unreadChatsCount = s.db.unreadChatsCount
  modified : s.modifiedPeerIds ⊆ s'.modifiedPeerIds
  kept : ∀ peerId, (s.peers.find peerId).isSome → (s'.peers.find peerId).isSome
  peers : ∀ peerId, s'.peers.find peerId = s.peers.find peerId ∨
    peerId ∈ s'.modifiedPeerIds ∧ ((s.peers.find peerId).isSome ∨ peerId ∈ loaded)

namespace PeersChange

variable {loaded : List Int} {s s' s'' : ChatState}

theorem of_peers_eq (hconvs : s'.db.conversations = s.db.conversations)
    (hunreadCount : s'.db.unreadCount = s.db.unreadCount)
    (hunreadChatsCount : s'.db.unreadChatsCount = s.db.unreadChatsCount)
    (hmod : s.modifiedPeerIds ⊆ s'.modifiedPeerIds) (hpeers : s'.peers = s.peers) : PeersChange loaded s s' :=
  ⟨hconvs, hunreadCount, hunreadChatsCount, hmod, fun _ h => by rwa [hpeers], fun _ => .inl (by rw [hpeers])⟩

theorem refl (s : ChatState) : PeersChange loaded s s := of_peers_eq rfl rfl rfl (List.Subset.refl _) rfl

theorem trans (h : PeersChange loaded s s') (h' : PeersChange loaded s' s'') : PeersChange loaded s s'' where
  conversations := h'.conversations.trans h.conversations
  unreadCount := h'.unreadCount.trans h.unreadCount
  unreadChatsCount := h'.unreadChatsCount.trans h.unreadChatsCount
  modified := fun _ hm => h'.modified (h.modified hm)
  kept peerId hsome := h'.kept peerId (h.kept peerId hsome)
  peers peerId := by
    rcases h'.peers peerId with hsame | ⟨hmod, hnew⟩
    · rw [hsame]
      exact (h.peers peerId).imp_right fun hpeer => ⟨h'.modified hpeer.1, hpeer.2⟩
    · refine .inr ⟨hmod, ?_⟩
      rcases h.peers peerId with hsame | ⟨-, hold⟩
      · rwa [hsame] at hnew
      · exact hold

theorem foldl {α : Type*} {f : ChatState → α → ChatState} {xs : List α}
    (h : ∀ s, ∀ x ∈ xs, PeersChange loaded s (f s x)) (s : ChatState) : PeersChange loaded s (xs.foldl f s) :=
  foldl_rel refl (fun h h' => h.trans h') h s

theorem setPeer {conversation : TGConversation}
    (h : (s.peers.find conversation.conversationId).isSome ∨ conversation.conversationId ∈ loaded) :
    PeersChange loaded s (s.setPeer conversation) where
  conversations := rfl
  unreadCount := rfl
  unreadChatsCount := rfl
  modified := subset_append_left _ _
  kept peerId hsome := by
    rw [ChatState.find_setPeer]
    split
    · rfl
    · exact hsome
  peers peerId := by
    rw [ChatState.find_setPeer]
    split
    · next hpeer => exact .inr ⟨by simp [hpeer], hpeer ▸ h⟩
    · exact .inl rfl

theorem setPeer_of_find {peerId : Int} {old new : TGConversation} (hold : s.peers.find peerId = some old)
    (hid : new.conversationId = old.conversationId) : PeersChange loaded s (s.setPeer new) := by
  refine setPeer (Or.inl ?_)
  rw [hid, KeyedTable.key_of_find hold, hold]
  rfl

theorem addModified (peerId : Int) (s : ChatState) : PeersChange loaded s (s.addModified peerId) :=
  of_peers_eq rfl rfl rfl (subset_append_left _ _) rfl

theorem setMessages (messages : MessageTable) (s : ChatState) : PeersChange loaded s (s.setMessages messages) :=
  of_peers_eq rfl rfl rfl (List.Subset.refl _) rfl

end PeersChange

/-! ## The parts -/

section
variable {loaded : List Int}

variable (s : ChatState)

theorem readConversation_conversationId (request : TGReadPeerMessagesRequest) (topId topDate : Int)
    (conversation : TGConversation) :
    (ChatState.readConversation request topId topDate conversation).conversationId = conversation.conversationId := by
  unfold ChatState.readConversation
  split <;> rfl

variable {request : TGReadPeerMessagesRequest}

theorem readPeerHistory_of_none {s : ChatState} (h : s.peers.find request.peerId = none) :
    s.readPeerHistory request = s := by
  simp only [ChatState.readPeerHistory, h]

theorem readPeerHistory_of_find {s : ChatState} {conversation : TGConversation}
    (h : s.peers.find request.peerId = some conversation) :
    s.readPeerHistory request = s ∧ conversation.unreadCount = 0 ∧
        topMessageId s.db.messages request.peerId ≤ conversation.maxReadMessageId ∧
        request.unread = false ∧ conversation.unreadMark = false ∨ ∃ topDate, s.readPeerHistory request =
        s.setPeer (ChatState.readConversation request (topMessageId s.db.messages request.peerId) topDate conversation) := by
  simp only [ChatState.readPeerHistory, h]
  generalize (if peerIdIsSecretChat request.peerId then topMessageDate s.db.messages request.peerId else 0) = topDate
  split
  · exact .inr ⟨topDate, rfl⟩
  · next hnothing =>
    simp only [not_or, not_and, not_not, not_lt, Bool.not_eq_true] at hnothing
    obtain ⟨hcnt, hservice, htop, -, hunread, hmark⟩ := hnothing
    have hfalse : request.unread = false := by
      cases hreq : request.unread with
      | false => rfl
      | true => exact absurd hservice (hunread hreq hcnt)
    exact .inl ⟨rfl, hcnt, htop, hfalse, hmark hfalse⟩

structure OnlyPeers (s s' : ChatState) : Prop where
  db : s'.db = s.db
  markAsRead : s'.markAsRead = s.markAsRead
  markAsUnread : s'.markAsUnread = s.markAsUnread

/-- One conversation in memory is replaced. -/
inductive ReplacesPeer (s : ChatState) : ChatState → Prop
  | setPeer {peerId : Int} {old new : TGConversation} (hold : s.peers.find peerId = some old)
    (hid : new.conversationId = old.conversationId) : ReplacesPeer s (s.setPeer new)

abbrev ReplacesPeers : ChatState → ChatState → Prop := Relation.ReflTransGen ReplacesPeer

namespace ReplacesPeers

variable {s s' : ChatState}

theorem setPeer {peerId : Int} {old new : TGConversation} (hold : s.peers.find peerId = some old)
    (hid : new.conversationId = old.conversationId) : ReplacesPeers s (s.setPeer new) :=
  .single (.setPeer hold hid)

theorem foldl {α : Type*} {f : ChatState → α → ChatState} (h : ∀ s x, ReplacesPeers s (f s x)) (xs : List α)
    (s : ChatState) : ReplacesPeers s (xs.foldl f s) :=
  foldl_rel (fun _ => .refl) (fun h h' => h.trans h') (fun s x _ => h s x) s

theorem peersChange (h : ReplacesPeers s s') : PeersChange loaded s s' := by
  induction h with
  | refl => exact .refl s
  | tail _ hstep ih =>
    cases hstep with
    | setPeer hold hid => exact ih.trans (.setPeer_of_find hold hid)

theorem onlyPeers (h : ReplacesPeers s s') : OnlyPeers s s' := by
  induction h with
  | refl => exact ⟨rfl, rfl, rfl⟩
  | tail _ hstep ih =>
    cases hstep with
    | setPeer => exact ⟨ih.db, ih.markAsRead, ih.markAsUnread⟩

end ReplacesPeers

theorem replacesPeers_resetPeerReadState (reset : Int × TGPeerReadState) :
    ReplacesPeers s (s.resetPeerReadState reset) := by
  unfold ChatState.resetPeerReadState
  split
  · exact .refl
  · next hold => exact .setPeer hold rfl

theorem replacesPeers_readPeerHistory (request : TGReadPeerMessagesRequest) :
    ReplacesPeers s (s.readPeerHistory request) := by
  cases hfind : s.peers.find request.peerId with
  | none =>
    rw [readPeerHistory_of_none hfind]
  | some conversation =>
    rcases readPeerHistory_of_find hfind with ⟨hsame, -⟩ | ⟨topDate, hread⟩
    · rw [hsame]
    · rw [hread]
      exact .setPeer hfind (readConversation_conversationId ..)

/-- The conversation of a peer is replaced, if there is one and it meets the condition. -/
theorem ReplacesPeers.setPeerIf {peerId : Int} {cond : TGConversation → Prop} [DecidablePred cond]
    {change : TGConversation → TGConversation} (hid : ∀ c, (change c).conversationId = c.conversationId) :
    ReplacesPeers s (match s.peers.find peerId with
      | none => s
      | some c => if cond c then s.setPeer (change c) else s) := by
  split
  · exact .refl
  · next c hold =>
    split
    · exact .setPeer hold (hid c)
    · exact .refl

theorem replacesPeers_readHistories (t : ChatTransaction) (s : ChatState) : ReplacesPeers s (t.readHistories s) :=
  (ReplacesPeers.foldl replacesPeers_resetPeerReadState t.resetPeerReadStates s).trans
    (ReplacesPeers.foldl replacesPeers_readPeerHistory t.readHistoryForPeerIds _)

theorem replacesPeers_applyReads (t : ChatTransaction) (s : ChatState) : ReplacesPeers s (t.applyReads s) := by
  have hinc := ReplacesPeers.foldl (f := ChatState.applyMaxIncomingReadId) fun s _ => .setPeerIf s fun _ => rfl
  have hout := ReplacesPeers.foldl (f := ChatState.applyMaxOutgoingReadId) fun s _ => .setPeerIf s fun _ => rfl
  have hdates := ReplacesPeers.foldl (f := ChatState.applyMaxOutgoingReadDate) fun s _ => .setPeerIf s fun _ => rfl
  have hmarks := ReplacesPeers.foldl (f := ChatState.applyUnreadMark) fun s _ => .setPeerIf s fun _ => rfl
  exact ((((hinc _ s).trans (hout _ _)).trans (hdates _ _)).trans (hmarks _ _)).trans
    (ReplacesPeers.foldl replacesPeers_readPeerHistory _ _)

variable (peerId : Int) (db : ChatDatabase)

theorem addUnreadMention_tables (peerId mid : Int) : (db.addUnreadMention peerId mid).messages = db.messages ∧
      (db.addUnreadMention peerId mid).conversations = db.conversations ∧
      (db.addUnreadMention peerId mid).unreadCount = db.unreadCount ∧
      (db.addUnreadMention peerId mid).unreadChatsCount = db.unreadChatsCount := by
  unfold ChatDatabase.addUnreadMention
  split <;> exact ⟨rfl, rfl, rfl, rfl⟩

/-- A change of the database that leaves the conversations and the totals alone. -/
def SameConversations (db db' : ChatDatabase) : Prop :=
  db'.conversations = db.conversations ∧ db'.unreadCount = db.unreadCount ∧ db'.unreadChatsCount = db.unreadChatsCount

theorem SameConversations.foldl {α : Type*} {f : ChatDatabase → α → ChatDatabase}
    (h : ∀ db x, SameConversations db (f db x)) (xs : List α) (db : ChatDatabase) :
    SameConversations db (xs.foldl f db) :=
  foldl_rel (fun _ => ⟨rfl, rfl, rfl⟩)
    (fun h h' => ⟨h'.1.trans h.1, h'.2.1.trans h.2.1, h'.2.2.trans h.2.2⟩) (fun db x _ => h db x) db

theorem sameConversations_addUnreadMention (peerId mid : Int) : SameConversations db (db.addUnreadMention peerId mid) :=
  (addUnreadMention_tables db peerId mid).2

variable (message : TGMessage)

theorem sameConversations_addMessage : SameConversations db (ChatState.addMessage peerId db message) := by
  unfold ChatState.addMessage
  dsimp only
  split
  · exact sameConversations_addUnreadMention _ peerId message.mid
  · exact ⟨rfl, rfl, rfl⟩

theorem peersChange_of_sameConversations {s : ChatState} {db : ChatDatabase} (h : SameConversations s.db db) :
    PeersChange loaded s { s with db := db } :=
  .of_peers_eq h.1 h.2.1 h.2.2 (List.Subset.refl _) rfl

theorem peersChange_addPeerMessages {peerId : Int} (hloaded : peerId ∈ loaded) (messages : List TGMessage) (s : ChatState) :
    PeersChange loaded s (s.addPeerMessages peerId messages) := by
  unfold ChatState.addPeerMessages
  dsimp only
  have hrows : PeersChange loaded s
      (({ s with db := (messages.filter fun message => !message.clearsChat).foldl (ChatState.addMessage peerId) s.db } :
        ChatState).addModified peerId) :=
    (peersChange_of_sameConversations (SameConversations.foldl (sameConversations_addMessage peerId) _ s.db)).trans
      (.addModified peerId _)
  refine hrows.trans ?_
  split
  · next hold =>
    split
    · exact .setPeer_of_find hold rfl
    · exact .refl _
  · split
    · exact .setPeer (.inr hloaded)
    · exact .refl _

theorem PeersChange.markMentionsAsRead {s s' : ChatState} (h : PeersChange loaded s s') (peerId : Int) (mids : List Int) :
    PeersChange loaded s { s' with db := s'.db.markMentionsAsRead peerId mids } :=
  h.trans (peersChange_of_sameConversations ⟨rfl, rfl, rfl⟩)

theorem peersChange_removePeerMessages (mids : List Int) (s : ChatState) :
    PeersChange loaded s (s.removePeerMessages peerId mids) := by
  unfold ChatState.removePeerMessages
  dsimp only
  apply PeersChange.markMentionsAsRead
  have hrows (messages : MessageTable) : PeersChange loaded s ((s.addModified peerId).setMessages messages) :=
    (PeersChange.addModified peerId s).trans (.setMessages messages _)
  refine (hrows (s.db.messages.deleteWhere fun message => message.mid ∈ mids)).trans ?_
  split
  · next hold =>
    split
    · exact .setPeer_of_find hold rfl
    · exact .refl _
  · exact .refl _

theorem peersChange_storeUpdated (updated : TGMessage) (s : ChatState) :
    PeersChange loaded s (s.storeUpdated message updated) :=
  (PeersChange.setMessages _ s).trans (.addModified _ _)

/-- The message is an incoming one with an unseen mention. -/
def isUnseenMention (message : TGMessage) : Bool := !message.outgoing && message.containsUnseenMention

/-- What an update makes of a message, with the marks for reading and for unreading that it leaves. -/
inductive UpdatesTo (message : TGMessage) :
    TGDatabaseUpdateMessage → TGMessage → List (Int × Int) → List (Int × Int) → Prop
  | delivered (messageId updatedMessageId : Int) :
      UpdatesTo message (.deliveredInBackground messageId updatedMessageId) { message with mid := updatedMessageId } [] []
  | read (messageId : Int) (updated : TGMessage) (hmention : isUnseenMention message) (hmid : updated.mid = message.mid)
      (hdate : updated.date = message.date) (hflag : updated.containsUnseenMention = false) :
      UpdatesTo message (.contentsRead messageId) updated [(message.cid, messageId)] []
  | contentsRead (messageId : Int) (updated : TGMessage) (hmention : isUnseenMention message = false)
      (hmid : updated.mid = message.mid) (hdate : updated.date = message.date)
      (hflag : updated.containsUnseenMention = message.containsUnseenMention) :
      UpdatesTo message (.contentsRead messageId) updated [] []
  | unread (messageId : Int) :
      UpdatesTo message (.mentionUnread messageId) { message with containsUnseenMention := true } []
        [(message.cid, messageId)]
  | replaced (messageId : Int) (updated : TGMessage)
      (hflag : updated.containsUnseenMention = message.containsUnseenMention) :
      UpdatesTo message (.withMessage messageId updated) updated [] []
  | replacedRead (messageId : Int) (updated : TGMessage) (hflag : message.containsUnseenMention = true)
      (hflag' : updated.containsUnseenMention = false) :
      UpdatesTo message (.withMessage messageId updated) updated [(message.cid, messageId)] []
  | replacedUnread (messageId : Int) (updated : TGMessage) (hflag : message.containsUnseenMention = false)
      (hflag' : updated.containsUnseenMention = true) :
      UpdatesTo message (.withMessage messageId updated) updated [] [(message.cid, messageId)]

namespace ChatState

def addMarks (reads unreads : List (Int × Int)) (s : ChatState) : ChatState :=
  { s with markAsRead := s.markAsRead ++ reads, markAsUnread := s.markAsUnread ++ unreads }

@[simp] theorem addMarks_nil (s : ChatState) : s.addMarks [] [] = s := by simp [addMarks]

end ChatState

def withContentsRead (message : TGMessage) : TGMessage :=
  let updated := { message with
    contentsRead := true
    containsUnseenMention :=
      if !message.outgoing && message.containsUnseenMention then false else message.containsUnseenMention }
  if message.messageLifetime ≠ 0 ∧ ¬peerIdIsSecretChat message.cid then updated.filterOutExpiredMedia else updated

theorem withContentsRead_heads :
    (withContentsRead message).mid = message.mid ∧ (withContentsRead message).date = message.date ∧
      (withContentsRead message).containsUnseenMention =
        if isUnseenMention message then false else message.containsUnseenMention := by
  unfold withContentsRead
  dsimp only
  split <;> exact ⟨rfl, rfl, rfl⟩

variable (update : TGDatabaseUpdateMessage)

/-- What an update does: nothing, where there is no such message or nothing is left to read, or one of `UpdatesTo`. -/
theorem updateMessage_cases :
    s.updateMessage update = s ∧ (∀ message, s.db.messages.find update.messageId = some message →
        ∃ messageId, update = .contentsRead messageId ∧ message.containsUnseenMention = false) ∨
      ∃ message updated reads unreads, s.db.messages.find update.messageId = some message ∧
        UpdatesTo message update updated reads unreads ∧
        s.updateMessage update = (s.addMarks reads unreads).storeUpdated message updated := by
  unfold ChatState.updateMessage
  cases hfind : s.db.messages.find update.messageId with
  | none => exact .inl ⟨rfl, fun _ h => by cases h⟩
  | some message =>
    cases update with
    | deliveredInBackground messageId updatedMessageId =>
      refine .inr ⟨message, _, [], [], rfl, .delivered messageId updatedMessageId, ?_⟩
      rw [ChatState.addMarks_nil]
    | contentsRead messageId =>
      dsimp only
      split
      · refine Or.inr ?_
        obtain ⟨hmid, hdate, hflag⟩ := withContentsRead_heads message
        cases hmention : isUnseenMention message with
        | true =>
          have hmarked : (!message.outgoing && message.containsUnseenMention) = true := hmention
          rw [hmention, if_pos rfl] at hflag
          refine ⟨message, withContentsRead message, [(message.cid, messageId)], [], rfl,
            .read messageId _ hmention hmid hdate hflag, ?_⟩
          simp only [ChatState.addMarks, append_nil, if_pos hmarked, withContentsRead]
        | false =>
          have hmarked : ¬(!message.outgoing && message.containsUnseenMention) = true := by
            rw [Bool.not_eq_true]
            exact hmention
          rw [hmention, if_neg Bool.false_ne_true] at hflag
          refine ⟨message, withContentsRead message, [], [], rfl, .contentsRead messageId _ hmention hmid hdate hflag, ?_⟩
          simp only [ChatState.addMarks_nil, if_neg hmarked, withContentsRead]
      · next hnothing =>
        refine .inl ⟨rfl, fun other hother => ⟨messageId, rfl, ?_⟩⟩
        rw [← Option.some.inj hother]
        have hread : message.contentsRead = true ∧ message.containsUnseenMention = false := by simpa using hnothing
        exact hread.2
    | mentionUnread messageId =>
      refine .inr ⟨message, _, [], [(message.cid, messageId)], rfl, .unread messageId, ?_⟩
      simp only [ChatState.addMarks, append_nil]
    | withMessage messageId updated =>
      refine Or.inr ?_
      dsimp only
      cases hold : message.containsUnseenMention <;> cases hnew : updated.containsUnseenMention
      · exact ⟨message, updated, [], [], rfl, .replaced messageId updated (hnew.trans hold.symm), by simp⟩
      · refine ⟨message, updated, [], [(message.cid, messageId)], rfl, .replacedUnread messageId updated hold hnew, ?_⟩
        simp [ChatState.addMarks]
      · refine ⟨message, updated, [(message.cid, messageId)], [], rfl, .replacedRead messageId updated hold hnew, ?_⟩
        simp [ChatState.addMarks]
      · exact ⟨message, updated, [], [], rfl, .replaced messageId updated (hnew.trans hold.symm), by simp⟩

theorem peersChange_updateMessage : PeersChange loaded s (s.updateMessage update) := by
  rcases updateMessage_cases s update with ⟨hsame, -⟩ | ⟨message, updated, reads, unreads, -, -, hupd⟩
  · rw [hsame]
    exact .refl s
  · rw [hupd]
    have hmarks : PeersChange loaded s (s.addMarks reads unreads) := .of_peers_eq rfl rfl rfl (List.Subset.refl _) rfl
    exact hmarks.trans (peersChange_storeUpdated message updated _)

theorem peersChange_removeMessagesFromConversation :
    PeersChange loaded s (s.removeMessagesFromConversation peerId) := by
  unfold ChatState.removeMessagesFromConversation
  dsimp only
  refine (PeersChange.setMessages (s.db.messages.deleteWhere fun message => message.cid = peerId) s).trans ?_
  split
  · exact .refl _
  · next hold => exact .setPeer_of_find hold rfl

theorem peersChange_clearConversation : PeersChange loaded s (s.clearConversation peerId) :=
  (peersChange_removeMessagesFromConversation s peerId).trans (.addModified peerId _)

theorem peersChange_updateConversationData {updated : TGConversation} (hloaded : updated.conversationId ∈ loaded) :
    PeersChange loaded s (s.updateConversationData updated) := by
  unfold ChatState.updateConversationData
  split
  · exact .setPeer (.inr hloaded)
  · next hold => exact .setPeer_of_find hold rfl

end

variable (t : ChatTransaction) (s : ChatState) (peerId : Int)

theorem OnlyPeers.trans {s s' s'' : ChatState} (h : OnlyPeers s s') (h' : OnlyPeers s' s'') : OnlyPeers s s'' :=
  ⟨h'.db.trans h.db, h'.markAsRead.trans h.markAsRead, h'.markAsUnread.trans h.markAsUnread⟩

theorem OnlyPeers.foldl {α : Type*} {f : ChatState → α → ChatState} (h : ∀ s x, OnlyPeers s (f s x)) (xs : List α)
    (s : ChatState) : OnlyPeers s (xs.foldl f s) :=
  foldl_rel (fun _ => ⟨rfl, rfl, rfl⟩) (fun h h' => h.trans h') (fun s x _ => h s x) s

theorem onlyPeers_updateConversationData (updated : TGConversation) :
    OnlyPeers s (s.updateConversationData updated) := by
  unfold ChatState.updateConversationData
  split <;> exact ⟨rfl, rfl, rfl⟩

theorem onlyPeers_applyReads : OnlyPeers s (t.applyReads s) := (replacesPeers_applyReads t s).onlyPeers

variable (messages : List TGMessage) (db : ChatDatabase)

theorem db_readHistories : (t.readHistories (t.beginChanges db)).db = db :=
  (replacesPeers_readHistories t (t.beginChanges db)).onlyPeers.db

/-! ## Messages -/

theorem messages_addMessages :
    (messages.foldl (ChatState.addMessage peerId) db).messages = db.messages.insertAll messages := by
  induction messages generalizing db with
  | nil => rfl
  | cons message messages ih =>
    have hfirst : (ChatState.addMessage peerId db message).messages = db.messages.insertOrIgnore message := by
      unfold ChatState.addMessage
      dsimp only
      split
      · rw [(addUnreadMention_tables _ peerId message.mid).1]
      · rfl
    rw [foldl_cons, ih, hfirst]
    rfl

theorem messages_addPeerMessages (s : ChatState) : (s.addPeerMessages peerId messages).db.messages =
      s.db.messages.insertAll (messages.filter fun message => !message.clearsChat) := by
  unfold ChatState.addPeerMessages
  dsimp only
  rw [← messages_addMessages peerId]
  split
  · split <;> rfl
  · split <;> rfl

theorem messages_removePeerMessages (mids : List Int) (s : ChatState) :
    (s.removePeerMessages peerId mids).db.messages = s.db.messages.deleteWhere fun message => message.mid ∈ mids := by
  unfold ChatState.removePeerMessages
  dsimp only [ChatDatabase.markMentionsAsRead]
  split
  · split <;> rfl
  · rfl

theorem peers_updateMessage (update : TGDatabaseUpdateMessage) : (s.updateMessage update).peers = s.peers := by
  rcases updateMessage_cases s update with ⟨hsame, -⟩ | ⟨message, updated, reads, unreads, -, -, hupd⟩
  · rw [hsame]
  · rw [hupd]
    rfl

theorem tables_applyMentionMarks (peerOrder : RowOrder Int) (s : ChatState) :
    (s.applyMentionMarks peerOrder).db.messages = s.db.messages ∧
      SameConversations s.db (s.applyMentionMarks peerOrder).db := by
  have hadd (marks : List (Int × Int)) (db : ChatDatabase) :
      (marks.foldl (fun db mark => db.addUnreadMention mark.1 mark.2) db).messages = db.messages ∧
        SameConversations db (marks.foldl (fun db mark => db.addUnreadMention mark.1 mark.2) db) := by
    refine ⟨?_, SameConversations.foldl (fun db mark => sameConversations_addUnreadMention db mark.1 mark.2) marks db⟩
    induction marks generalizing db with
    | nil => rfl
    | cons mark marks ih => exact (ih _).trans (addUnreadMention_tables db mark.1 mark.2).1
  have hread (mids : Int → List Int) (peerIds : List Int) (db : ChatDatabase) :
      (peerIds.foldl (fun db peerId => db.markMentionsAsRead peerId (mids peerId)) db).messages = db.messages ∧
        SameConversations db (peerIds.foldl (fun db peerId => db.markMentionsAsRead peerId (mids peerId)) db) := by
    have hstep (db : ChatDatabase) (peerId : Int) : SameConversations db (db.markMentionsAsRead peerId (mids peerId)) :=
      ⟨rfl, rfl, rfl⟩
    refine ⟨?_, SameConversations.foldl hstep peerIds db⟩
    induction peerIds generalizing db with
    | nil => rfl
    | cons peerId peerIds ih => exact ih _
  obtain ⟨haddMessages, haddConversations, haddUnread, haddChats⟩ := hadd s.markAsUnread s.db
  obtain ⟨hreadMessages, hreadConversations, hreadUnread, hreadChats⟩ :=
    hread (fun peerId => (s.markAsRead.filter fun mark => mark.1 = peerId).map Prod.snd)
      (peerOrder.read (s.markAsRead.map Prod.fst).dedup)
      (s.markAsUnread.foldl (fun db mark => db.addUnreadMention mark.1 mark.2) s.db)
  exact ⟨hreadMessages.trans haddMessages, hreadConversations.trans haddConversations, hreadUnread.trans haddUnread,
    hreadChats.trans haddChats⟩

/-! ## The whole transaction -/

section
variable (t : ChatTransaction) (db : ChatDatabase)

theorem mem_loadedPeerIds_of_fresh {message : TGMessage} (h : message ∈ t.freshMessages db) :
    message.cid ∈ t.loadedPeerIds db := by
  have hcid : message.cid ∈ (t.freshMessages db).map cid := mem_map_of_mem h
  simp only [loadedPeerIds, mem_append]
  tauto

variable {peerId : Int}

theorem mem_loadedPeerIds_of_removal (h : peerId ∈ removalPeerIds db t.allRemovals) : peerId ∈ t.loadedPeerIds db := by
  simp only [loadedPeerIds, mem_append]
  tauto

theorem mem_loadedPeerIds_of_updateData {updated : TGConversation} (h : updated ∈ t.updateConversationDatas) :
    updated.conversationId ∈ t.loadedPeerIds db := by
  have hid : updated.conversationId ∈ t.updateConversationDatas.map TGConversation.conversationId := mem_map_of_mem h
  simp only [loadedPeerIds, mem_append]
  tauto

theorem mem_loadedPeerIds_of_removed (h : peerId ∈ t.removeConversationsWithPeerIds) : peerId ∈ t.loadedPeerIds db := by
  simp only [loadedPeerIds, mem_append]
  tauto

theorem find_loadPeers (peerId : Int) :
    (t.loadPeers db).find peerId = if peerId ∈ t.loadedPeerIds db then db.conversations.find peerId else none := by
  rw [loadPeers, KeyedTable.find_deleteWhere]
  cases hfind : db.conversations.find peerId with
  | none => simp
  | some conversation =>
    have hid : conversation.conversationId = peerId := KeyedTable.key_of_find hfind
    by_cases hloaded : peerId ∈ t.loadedPeerIds db
    · simp [hid, hloaded]
    · simp [hid, hloaded]

theorem mem_freshCids : peerId ∈ t.peerOrder.read ((t.freshMessages db).map cid).dedup ↔
      ∃ message ∈ t.freshMessages db, message.cid = peerId := by
  rw [(t.peerOrder.perm _).mem_iff, mem_dedup, mem_map]

theorem mem_removalOrder :
    peerId ∈ t.peerOrder.read (removalPeerIds db t.allRemovals).dedup ↔ peerId ∈ removalPeerIds db t.allRemovals := by
  rw [(t.peerOrder.perm _).mem_iff, mem_dedup]

variable (s : ChatState)

theorem peersChange_addAll : PeersChange (t.loadedPeerIds db) s (t.addAll db s) := by
  refine .foldl (fun s peerId hpeer => ?_) s
  obtain ⟨message, hmsg, rfl⟩ := (mem_freshCids t db).mp hpeer
  exact peersChange_addPeerMessages (mem_loadedPeerIds_of_fresh t db hmsg) _ s

variable {loaded : List Int}

theorem peersChange_removeAll : PeersChange loaded s (t.removeAll db s) :=
  .foldl (fun s peerId _ => peersChange_removePeerMessages peerId _ s) s

theorem peersChange_updateAll : PeersChange loaded s (t.updateAll s) :=
  .foldl (fun s update _ => peersChange_updateMessage s update) s

end

namespace ChatTransaction

variable (t : ChatTransaction) (db : ChatDatabase)

def changesBeforeClearing : ChatState :=
  t.applyReads (t.updateAll (t.removeAll db (t.addAll db (t.readHistories (t.beginChanges db)))))

theorem changeChats_eq : t.changeChats db = (t.queueReadContents (t.clearAll (t.changesBeforeClearing db))).applyMentionMarks t.peerOrder :=
  rfl

theorem peersChange_changesBeforeClearing :
    PeersChange (t.loadedPeerIds db) (t.beginChanges db) (t.changesBeforeClearing db) :=
  ((((replacesPeers_readHistories t _).peersChange.trans (peersChange_addAll t db _)).trans
    (peersChange_removeAll t db _)).trans (peersChange_updateAll t _)).trans (replacesPeers_applyReads t _).peersChange

/-- The messages in the order in which they are added. -/
def addedRows : List TGMessage :=
  (t.peerOrder.read ((t.freshMessages db).map TGMessage.cid).dedup).flatMap fun peerId =>
    ((t.freshMessages db).filter fun message => message.cid = peerId).filter fun message => !message.clearsChat

def storedFresh : List TGMessage := (t.freshMessages db).filter fun message => !message.clearsChat

theorem addedRows_perm : (t.addedRows db).Perm (t.storedFresh db) := by
  have hnd : (t.peerOrder.read ((t.freshMessages db).map cid).dedup).Nodup :=
    (t.peerOrder.perm _).nodup_iff.mpr (nodup_dedup _)
  have hgroups := KeyedTable.flatMap_filter_perm cid hnd (t.freshMessages db)
  have hall : ((t.freshMessages db).filter fun message =>
      message.cid ∈ t.peerOrder.read ((t.freshMessages db).map cid).dedup) = t.freshMessages db := by
    refine filter_eq_self.mpr fun message hmsg => ?_
    exact decide_eq_true ((mem_freshCids t db).mpr ⟨message, hmsg, rfl⟩)
  rw [hall] at hgroups
  rw [addedRows, ← filter_flatMap]
  exact hgroups.filter _

variable (s : ChatState)

theorem messages_addAll : (t.addAll db s).db.messages = s.db.messages.insertAll (t.addedRows db) := by
  unfold addAll addedRows
  dsimp only
  generalize t.peerOrder.read ((t.freshMessages db).map cid).dedup = peerIds
  induction peerIds generalizing s with
  | nil => rfl
  | cons peerId peerIds ih =>
    rw [foldl_cons, ih, messages_addPeerMessages, flatMap_cons]
    unfold KeyedTable.insertAll
    rw [foldl_append]

theorem rows_removeAll : (t.removeAll db s).db.messages.rows = s.db.messages.rows.filter fun message =>
      ∀ peerId ∈ removalPeerIds db t.allRemovals, message.mid ∉ removalIds db t.allRemovals peerId := by
  have hfold (peerIds : List Int) : ∀ s : ChatState,
      (peerIds.foldl (fun s peerId => s.removePeerMessages peerId (removalIds db t.allRemovals peerId)) s).db.messages.rows =
        s.db.messages.rows.filter fun message =>
          ∀ peerId ∈ peerIds, message.mid ∉ removalIds db t.allRemovals peerId := by
    induction peerIds with
    | nil => simp
    | cons peerId peerIds ih =>
      intro s
      rw [foldl_cons, ih, messages_removePeerMessages, KeyedTable.deleteWhere, filter_filter]
      refine filter_congr fun message _ => ?_
      simp [Bool.and_comm]
  rw [removeAll, hfold]
  refine filter_congr fun message _ => ?_
  simp only [mem_removalOrder]

theorem mem_clearAll {row : TGMessage} : row ∈ (t.clearAll s).db.messages.rows ↔
    row ∈ s.db.messages.rows ∧ row.cid ∉ t.clearConversationsWithPeerIds ++ t.removeConversationsWithPeerIds := by
  have hone (s : ChatState) (peerId : Int) : (s.removeMessagesFromConversation peerId).db.messages =
      s.db.messages.deleteWhere fun message => message.cid = peerId := by
    unfold ChatState.removeMessagesFromConversation
    dsimp only
    split <;> rfl
  have hfold (f : ChatState → Int → ChatState)
      (hf : ∀ s peerId, (f s peerId).db.messages = s.db.messages.deleteWhere fun message => message.cid = peerId)
      (peerIds : List Int) : ∀ s : ChatState, row ∈ (peerIds.foldl f s).db.messages.rows ↔
        row ∈ s.db.messages.rows ∧ row.cid ∉ peerIds := by
    induction peerIds with
    | nil => simp
    | cons peerId peerIds ih =>
      intro s
      rw [foldl_cons, ih, hf, KeyedTable.mem_deleteWhere]
      simp [and_assoc]
  unfold clearAll
  rw [(OnlyPeers.foldl onlyPeers_updateConversationData _ _).db]
  show row ∈ (t.removeConversationsWithPeerIds.foldl ChatState.removeMessagesFromConversation
    (t.clearConversationsWithPeerIds.foldl ChatState.clearConversation s)).db.messages.rows ↔ _
  rw [hfold ChatState.removeMessagesFromConversation hone, hfold ChatState.clearConversation hone]
  simp [and_assoc]

theorem messages_changeChats : (t.changeChats db).db.messages = (t.clearAll (t.changesBeforeClearing db)).db.messages := by
  rw [changeChats_eq, (tables_applyMentionMarks t.peerOrder _).1]
  rfl

/-! ## Storing -/

theorem conversationForDispatch_conversationId (conversation : TGConversation) :
    (t.conversationForDispatch s conversation).1.conversationId = conversation.conversationId := by
  unfold conversationForDispatch
  split <;> rfl

/-- What is in the row of a peer after `storeConversation`. -/
def storedRow (s : ChatState) (peerId : Int) (row : Option TGConversation) : Option TGConversation :=
  match s.peers.find peerId with
  | none => row
  | some conversation =>
    if t.reportsDeleted db s conversation then row else some (t.conversationForDispatch s conversation).1

theorem find_storeConversation (conversations : ConversationTable) (peerId other : Int) :
    (t.storeConversation db s conversations peerId).find other =
      if peerId = other then t.storedRow db s peerId (conversations.find peerId) else conversations.find other := by
  unfold storeConversation storedRow
  cases hfind : s.peers.find peerId with
  | none =>
    dsimp only
    split
    · next hpeer => rw [hpeer]
    · rfl
  | some conversation =>
    have hid : (t.conversationForDispatch s conversation).1.conversationId = peerId :=
      (t.conversationForDispatch_conversationId s conversation).trans (KeyedTable.key_of_find hfind)
    dsimp only
    split
    · split
      · next hpeer => rw [hpeer]
      · rfl
    · rw [KeyedTable.find_insertOrReplace, hid]

theorem storedRow_storedRow (peerId : Int) (row : Option TGConversation) :
    t.storedRow db s peerId (t.storedRow db s peerId row) = t.storedRow db s peerId row := by
  unfold storedRow
  cases s.peers.find peerId with
  | none => rfl
  | some conversation =>
    dsimp only
    split <;> rfl

theorem find_storeConversations (peerId : Int) : (t.storeConversations db s).find peerId =
      if peerId ∈ s.modifiedPeerIds then t.storedRow db s peerId (s.db.conversations.find peerId)
      else s.db.conversations.find peerId := by
  have hfold (modified : List Int) : ∀ conversations : ConversationTable,
      (modified.foldl (t.storeConversation db s) conversations).find peerId =
        if peerId ∈ modified then t.storedRow db s peerId (conversations.find peerId) else conversations.find peerId := by
    induction modified with
    | nil => simp
    | cons first modified ih =>
      intro conversations
      rw [foldl_cons, ih, find_storeConversation]
      by_cases hfirst : first = peerId
      · subst hfirst
        simp [storedRow_storedRow]
      · simp [hfirst, Ne.symm hfirst]
  exact hfold s.modifiedPeerIds s.db.conversations

end ChatTransaction

end TelegramClient.Database
