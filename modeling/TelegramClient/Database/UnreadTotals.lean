import TelegramClient.Database.UnreadCounts

/-!
# Unread totals

The totals of the database move by the difference of two sums over the conversations that a transaction has in memory, so
that they stay right only if every conversation in memory ends as it is stored.

* `TotalsMatch` : the totals are the sums over the stored conversations;
* `final_unread` : **the conversations that are deleted count nothing**;
* `unreadTotals_hold` : runs.
-/

namespace TelegramClient.Database
open List
open TGConversation (unreadChats unreadMessages)
open ChatState (addPeerMessages applyMaxIncomingReadId applyMaxOutgoingReadId applyUnreadMark find_setPeer
  resetPeerReadState updateConversationData)
open ChatTransaction (allRemovals clearAll conversationForDispatch previousUnread reportsDeleted storedRow updateAll)
open KeyedTable (changeKey find_insertOrReplace has_key key_of_find total_add_total)

/-! ## Totals -/

/-- The totals are those of the stored conversations. -/
structure TotalsMatch (db : ChatDatabase) : Prop where
  unreadCount : db.unreadCount = db.conversations.total unreadMessages
  unreadChatsCount : db.unreadChatsCount = db.conversations.total unreadChats

/-- The transaction is one on users, groups and secret chats. -/
def OnChats (db : ChatDatabase) (t : ChatTransaction) : Prop :=
  ∀ peerId ∈ t.loadedPeerIds db, peerIdIsUser peerId ∨ peerIdIsGroup peerId ∨ peerIdIsSecretChat peerId

instance (db : ChatDatabase) (t : ChatTransaction) : Decidable (OnChats db t) := List.decidableBAll _ (t.loadedPeerIds db)

/-- A conversation that is reported as deleted is not stored any more. -/
def DeletedAreGone (db : ChatDatabase) (t : ChatTransaction) : Prop :=
  ∀ peerId ∈ t.reportedDeleted db, (transaction db t).conversations.find peerId = none

/-! ## The condition -/

section
variable (peerId : Int) (db : ChatDatabase) (t : ChatTransaction)

/-- The read id of a stored conversation when its histories are read. -/
def readIdAfterHistories : Nat :=
  let readId := ((t.resetPeerReadStates.filter fun reset => reset.1 = peerId).map fun reset =>
    reset.2.maxReadMessageId).getLastD (storedReadId peerId db)
  if ∃ request ∈ t.readHistoryForPeerIds, request.peerId = peerId ∧ request.unread = false then
    max (topMessageId db.messages peerId).toNat readId
  else readId

def appliedMarks : List Bool := (t.applyUnreadMarks.filter fun mark => mark.1 = peerId).map Prod.snd

/-- The mark of a stored conversation after all that sets it. -/
def lastMark (conversation : TGConversation) : Bool :=
  let mark := ((t.resetPeerReadStates.filter fun reset => reset.1 = peerId).map fun reset =>
    reset.2.unreadMark).getLastD conversation.unreadMark
  let mark := ((t.readHistoryForPeerIds.filter fun request => request.peerId = peerId).map
    TGReadPeerMessagesRequest.unread).getLastD mark
  let readId := readIdAfterHistories peerId db t
  let mark := if readId ≠ 0 ∧ ∃ read ∈ t.applyMaxIncomingReadIds, read.1 = peerId ∧ (readId : Int) < read.2 then false else mark
  (appliedMarks peerId t).getLastD mark

/-- A conversation is made for a user who is not known yet. -/
def isNewUser : Prop := peerIdIsUser peerId ∧ ∃ message ∈ t.freshMessages db, message.cid = peerId

/-- The mark that a stored conversation ends with is not set. Of one that is not stored it is the mark of the conversation
that is made for a new user, or else the data it is given counts nothing. -/
def CountsNothing : Prop :=
  match db.conversations.find peerId with
  | some conversation => lastMark peerId db t conversation = false
  | none =>
    (isNewUser peerId db t → (appliedMarks peerId t).getLastD false = false) ∧
    (¬isNewUser peerId db t → ∀ updated,
      t.updateConversationDatas.find? (fun updated => updated.conversationId = peerId) = some updated →
        updated.unreadCount = 0 ∧ updated.unreadMark = false)

/-- A message stays in the chat, stored or new, that it can show. -/
structure LeavesMessage : Prop where
  notCleared : peerId ∉ t.clearConversationsWithPeerIds
  dates : ∀ messageId updated, .withMessage messageId updated ∈ t.allUpdates → updated.date ≠ int32Max
  message : ∃ message ∈ db.messages.rows ++ t.storedFresh db, message.cid = peerId ∧ message.date ≠ int32Max ∧
    (∀ other ∈ removalPeerIds db t.allRemovals, message.mid ∉ removalIds db t.allRemovals other) ∧
      ∀ other ∈ t.storedFresh db, other.mid = message.mid → other.cid = peerId ∧ other.date ≠ int32Max

end

/-- A conversation that is removed counts nothing, and one from which messages are removed keeps one, unless it is neither
stored nor counted. -/
structure KeepsTotals (db : ChatDatabase) (t : ChatTransaction) : Prop where
  removed : ∀ peerId ∈ t.removeConversationsWithPeerIds, CountsNothing peerId db t
  emptied : ∀ peerId ∈ removalPeerIds db t.removeMessages, peerIdIsSecretChat peerId = false →
    peerId ∉ t.removeConversationsWithPeerIds →
      LeavesMessage peerId db t ∨ db.conversations.find peerId = none ∧ CountsNothing peerId db t

/-! ## What is kept of a conversation -/

/-- The conversation of a peer in memory stays there, and is related to what it was. -/
def KeepsOn (peerId : Int) (R : TGConversation → TGConversation → Prop) (peers peers' : ConversationTable) : Prop :=
  ∀ conversation, peers.find peerId = some conversation → ∃ last, peers'.find peerId = some last ∧ R conversation last

structure SameMark (conversation last : TGConversation) : Prop where
  unreadMark : last.unreadMark = conversation.unreadMark
  readId : last.maxReadMessageId = conversation.maxReadMessageId

def StaysZero (conversation last : TGConversation) : Prop := conversation.unreadCount = 0 → last.unreadCount = 0

def StaysUnmarked (conversation last : TGConversation) : Prop := conversation.unreadMark = false → last.unreadMark = false

structure Untouched (conversation last : TGConversation) : Prop extends SameMark conversation last where
  staysZero : StaysZero conversation last

variable (a conversation : TGConversation)

theorem SameMark.refl : SameMark conversation conversation := ⟨rfl, rfl⟩

theorem Untouched.refl : Untouched conversation conversation := ⟨.refl conversation, id⟩

variable (b c : TGConversation)

theorem SameMark.trans (h : SameMark a b) (h' : SameMark b c) : SameMark a c :=
  ⟨h'.unreadMark.trans h.unreadMark, h'.readId.trans h.readId⟩

theorem Untouched.trans (h : Untouched a b) (h' : Untouched b c) : Untouched a c :=
  ⟨SameMark.trans a b c h.toSameMark h'.toSameMark, fun hzero => h'.staysZero (h.staysZero hzero)⟩

section
variable {peerId : Int} {R R' : TGConversation → TGConversation → Prop} {peers peers' peers'' : ConversationTable}

theorem KeepsOn.mono (hR : ∀ a b, R a b → R' a b) (h : KeepsOn peerId R peers peers') : KeepsOn peerId R' peers peers' := by
  intro conversation hfind
  obtain ⟨last, hlast, hrel⟩ := h conversation hfind
  exact ⟨last, hlast, hR _ _ hrel⟩

theorem KeepsOn.refl (hR : ∀ c, R c c) (peers : ConversationTable) : KeepsOn peerId R peers peers :=
  fun conversation hfind => ⟨conversation, hfind, hR conversation⟩

theorem KeepsOn.trans (hR : ∀ a b c, R a b → R b c → R a c) (h : KeepsOn peerId R peers peers')
    (h' : KeepsOn peerId R peers' peers'') : KeepsOn peerId R peers peers'' := by
  intro conversation hfind
  obtain ⟨middle, hmiddle, hrel⟩ := h conversation hfind
  obtain ⟨last, hlast, hrel'⟩ := h' middle hmiddle
  exact ⟨last, hlast, hR _ _ _ hrel hrel'⟩

theorem KeepsOn.foldl {α : Type*} {f : ChatState → α → ChatState} (hrefl : ∀ c, R c c)
    (htrans : ∀ a b c, R a b → R b c → R a c) {xs : List α}
    (h : ∀ s, ∀ x ∈ xs, KeepsOn peerId R s.peers (f s x).peers) (s : ChatState) :
    KeepsOn peerId R s.peers (xs.foldl f s).peers :=
  foldl_rel (R := fun s s' : ChatState => KeepsOn peerId R s.peers s'.peers) (fun s => .refl hrefl s.peers)
    (fun h h' => h.trans htrans h') h s

variable {new : TGConversation}

theorem KeepsOn.insertOrReplace {other : Int} {old : TGConversation} (hrefl : ∀ c, R c c)
    (hold : peers.find other = some old) (hid : new.conversationId = old.conversationId)
    (hR : other = peerId → R old new) : KeepsOn peerId R peers (peers.insertOrReplace new) := by
  intro conversation hfind
  rw [find_insertOrReplace, hid, key_of_find hold]
  split
  · next hother =>
    subst hother
    obtain rfl : old = conversation := Option.some.inj (hold.symm.trans hfind)
    exact ⟨new, rfl, hR rfl⟩
  · exact ⟨conversation, hfind, hrefl conversation⟩

theorem KeepsOn.insertNew (hrefl : ∀ c, R c c) (hnone : peers.find new.conversationId = none) :
    KeepsOn peerId R peers (peers.insertOrReplace new) := by
  intro conversation hfind
  refine ⟨conversation, ?_, hrefl conversation⟩
  rw [find_insertOrReplace, if_neg]
  · exact hfind
  · rintro rfl
    rw [hnone] at hfind
    cases hfind

end

/-! ### The parts -/

section
variable {peerId : Int} (s : ChatState)

variable (other : Int)

theorem keepsOn_addPeerMessages (messages : List TGMessage) :
    KeepsOn peerId SameMark s.peers (s.addPeerMessages other messages).peers := by
  unfold addPeerMessages
  dsimp only
  split
  · next hold =>
    split
    · exact .insertOrReplace SameMark.refl hold rfl fun _ => ⟨rfl, rfl⟩
    · exact .refl SameMark.refl s.peers
  · next hnone =>
    split
    · exact .insertNew SameMark.refl hnone
    · exact .refl SameMark.refl s.peers

theorem keepsOn_removePeerMessages (mids : List Int) :
    KeepsOn peerId Untouched s.peers (s.removePeerMessages other mids).peers := by
  unfold ChatState.removePeerMessages
  dsimp only
  split
  · next hold =>
    split
    · refine .insertOrReplace Untouched.refl hold rfl fun _ => ⟨⟨rfl, rfl⟩, fun hzero => ?_⟩
      dsimp only
      omega
    · exact .refl Untouched.refl s.peers
  · exact .refl Untouched.refl s.peers

variable {R : TGConversation → TGConversation → Prop}

theorem KeepsOn.setPeerIf {cond : TGConversation → Prop} [DecidablePred cond]
    {change : TGConversation → TGConversation} (hrefl : ∀ c, R c c)
    (hid : ∀ c, (change c).conversationId = c.conversationId) (hR : ∀ c, R c (change c)) :
    KeepsOn peerId R s.peers (match s.peers.find other with
      | none => s
      | some c => if cond c then s.setPeer (change c) else s).peers := by
  split
  · exact .refl hrefl s.peers
  · next c hold =>
    split
    · exact .insertOrReplace hrefl hold (hid c) fun _ => hR c
    · exact .refl hrefl s.peers

theorem keepsOn_removeMessagesFromConversation :
    KeepsOn peerId Untouched s.peers (s.removeMessagesFromConversation other).peers := by
  unfold ChatState.removeMessagesFromConversation
  dsimp only
  split
  · exact .refl Untouched.refl s.peers
  · next hold => exact .insertOrReplace Untouched.refl hold rfl fun _ => ⟨⟨rfl, rfl⟩, fun _ => rfl⟩

theorem keepsOn_updateConversationData (updated : TGConversation) :
    KeepsOn peerId Untouched s.peers (s.updateConversationData updated).peers := by
  unfold updateConversationData
  split
  · next hnone => exact .insertNew Untouched.refl hnone
  · next hold => exact .insertOrReplace Untouched.refl hold rfl fun _ => ⟨⟨rfl, rfl⟩, id⟩

theorem keepsOn_readPeerHistory (hrefl : ∀ c, R c c) (request : TGReadPeerMessagesRequest)
    (hR : ∀ topId topDate c, R c (ChatState.readConversation request topId topDate c)) :
    KeepsOn peerId R s.peers (s.readPeerHistory request).peers := by
  cases hfind : s.peers.find request.peerId with
  | none =>
    rw [readPeerHistory_of_none hfind]
    exact .refl hrefl s.peers
  | some conversation =>
    rcases readPeerHistory_of_find hfind with ⟨hsame, -⟩ | ⟨topDate, hread⟩
    · rw [hsame]
      exact .refl hrefl s.peers
    · rw [hread]
      exact .insertOrReplace hrefl hfind (readConversation_conversationId ..) fun _ => hR ..

theorem staysZero_readPeerHistory (request : TGReadPeerMessagesRequest) :
    KeepsOn peerId StaysZero s.peers (s.readPeerHistory request).peers := by
  refine keepsOn_readPeerHistory s (fun _ => id) request fun topId topDate c hzero => ?_
  unfold ChatState.readConversation
  split
  · exact hzero
  · simp [hzero]

theorem staysUnmarked_readPeerHistory {request : TGReadPeerMessagesRequest} (hreq : request.unread = false) :
    KeepsOn peerId StaysUnmarked s.peers (s.readPeerHistory request).peers := by
  refine keepsOn_readPeerHistory s (fun _ => id) request fun topId topDate c _ => ?_
  simp [ChatState.readConversation, hreq]

end

/-! ### The mark of a conversation -/

/-- The conversation in memory has this mark and this read id. -/
def Marked (peerId : Int) (mark : Bool) (readId : Nat) (peers : ConversationTable) : Prop :=
  ∃ conversation, peers.find peerId = some conversation ∧ conversation.unreadMark = mark ∧
    conversation.maxReadMessageId = readId

section
variable {peerId : Int} {mark : Bool} {readId : Nat} {s : ChatState}

variable {peers : ConversationTable}

theorem Marked.of_keepsOn {peers' : ConversationTable} (h : Marked peerId mark readId peers)
    (hkeeps : KeepsOn peerId SameMark peers peers') : Marked peerId mark readId peers' := by
  obtain ⟨conversation, hfind, rfl, rfl⟩ := h
  obtain ⟨last, hlast, hsame⟩ := hkeeps conversation hfind
  exact ⟨last, hlast, hsame.unreadMark, hsame.readId⟩

variable {old new : TGConversation}

theorem Marked.insertOrReplace_of_ne (h : Marked peerId mark readId peers) {other : Int} (hne : other ≠ peerId)
    (hold : peers.find other = some old) (hid : new.conversationId = old.conversationId) :
    Marked peerId mark readId (peers.insertOrReplace new) :=
  h.of_keepsOn (.insertOrReplace SameMark.refl hold hid fun heq => absurd heq hne)

theorem marked_insertOrReplace (hold : peers.find peerId = some old) (hid : new.conversationId = old.conversationId)
    (hmark : new.unreadMark = mark) (hread : new.maxReadMessageId = readId) :
    Marked peerId mark readId (peers.insertOrReplace new) := by
  refine ⟨new, ?_, hmark, hread⟩
  rw [find_insertOrReplace, if_pos (hid.trans (key_of_find hold))]

theorem getLastD_map_filter_cons {α β : Type*} (p : α → Bool) (f : α → β) (x : α) (xs : List α) (b : β) :
    (((x :: xs).filter p).map f).getLastD b = ((xs.filter p).map f).getLastD (if p x then f x else b) := by
  by_cases hp : p x
  · rw [filter_cons_of_pos hp, map_cons, getLastD_cons, if_pos hp]
  · rw [filter_cons_of_neg hp, if_neg hp]

section
variable (h : Marked peerId mark readId s.peers)
include h

theorem marked_resetPeerReadStates (resets : List (Int × TGPeerReadState)) :
    Marked peerId (((resets.filter fun reset => reset.1 = peerId).map fun reset => reset.2.unreadMark).getLastD mark)
      (((resets.filter fun reset => reset.1 = peerId).map fun reset => reset.2.maxReadMessageId).getLastD readId)
      (resets.foldl resetPeerReadState s).peers := by
  induction resets generalizing s mark readId with
  | nil => exact h
  | cons reset resets ih =>
    rw [foldl_cons, getLastD_map_filter_cons, getLastD_map_filter_cons]
    apply ih
    unfold resetPeerReadState
    by_cases hpeer : reset.1 = peerId
    · obtain ⟨conversation, hfind, -, -⟩ := h
      subst hpeer
      rw [hfind, if_pos (by simp), if_pos (by simp)]
      exact marked_insertOrReplace hfind rfl rfl rfl
    · rw [if_neg (by simpa using hpeer), if_neg (by simpa using hpeer)]
      split
      · exact h
      · next hold => exact h.insertOrReplace_of_ne hpeer hold rfl

theorem marked_readPeerHistory (request : TGReadPeerMessagesRequest) :
    Marked peerId (if request.peerId = peerId then request.unread else mark)
      (if request.peerId = peerId ∧ request.unread = false then max (topMessageId s.db.messages peerId).toNat readId
        else readId) (s.readPeerHistory request).peers := by
  by_cases hpeer : request.peerId = peerId
  · obtain ⟨conversation, hfind, rfl, rfl⟩ := h
    subst hpeer
    rw [if_pos rfl]
    rcases readPeerHistory_of_find hfind with ⟨hsame, -, htop, hunread, hmark⟩ | ⟨topDate, hread⟩
    · rw [hsame, if_pos ⟨rfl, hunread⟩]
      exact ⟨conversation, hfind, hmark.trans hunread.symm, by omega⟩
    · rw [hread]
      refine marked_insertOrReplace hfind (readConversation_conversationId ..) ?_ ?_
      · cases hreq : request.unread <;> simp [ChatState.readConversation, hreq]
      · cases hreq : request.unread <;> simp [ChatState.readConversation, hreq]
  · rw [if_neg hpeer, if_neg fun hand => hpeer hand.1]
    cases hfind : s.peers.find request.peerId with
    | none =>
      rw [readPeerHistory_of_none hfind]
      exact h
    | some other =>
      rcases readPeerHistory_of_find hfind with ⟨hsame, -⟩ | ⟨topDate, hread⟩
      · rw [hsame]
        exact h
      · rw [hread]
        exact h.insertOrReplace_of_ne hpeer hfind (readConversation_conversationId ..)

theorem marked_readPeersHistories (requests : List TGReadPeerMessagesRequest) : Marked peerId
      (((requests.filter fun request => request.peerId = peerId).map TGReadPeerMessagesRequest.unread).getLastD mark)
      (if ∃ request ∈ requests, request.peerId = peerId ∧ request.unread = false then
        max (topMessageId s.db.messages peerId).toNat readId else readId)
      (requests.foldl ChatState.readPeerHistory s).peers := by
  induction requests generalizing s mark readId with
  | nil => simpa using h
  | cons request requests ih =>
    have hnext := ih (marked_readPeerHistory h request)
    rw [(replacesPeers_readPeerHistory s request).onlyPeers.db] at hnext
    rw [foldl_cons, getLastD_map_filter_cons]
    simp only [decide_eq_true_eq]
    convert hnext using 1
    by_cases hown : request.peerId = peerId ∧ request.unread = false
    · simp [hown]
    · simp [hown]

theorem marked_applyMaxIncomingReadIds (reads : List (Int × Int)) : ∃ last, Marked peerId
      (if readId ≠ 0 ∧ ∃ read ∈ reads, read.1 = peerId ∧ (readId : Int) < read.2 then false else mark) last
      (reads.foldl applyMaxIncomingReadId s).peers := by
  induction reads generalizing s mark readId with
  | nil => exact ⟨readId, by simpa using h⟩
  | cons read reads ih =>
    rw [foldl_cons]
    by_cases hown : read.1 = peerId ∧ readId ≠ 0 ∧ (readId : Int) < read.2
    · obtain ⟨conversation, hfind, -, rfl⟩ := h
      obtain ⟨rfl, hread⟩ := hown
      have hnext : Marked read.1 false read.2.toNat (s.applyMaxIncomingReadId read).peers := by
        unfold applyMaxIncomingReadId
        rw [hfind]
        dsimp only
        rw [if_pos hread]
        exact marked_insertOrReplace hfind rfl rfl rfl
      obtain ⟨last, hlast⟩ := ih hnext
      refine ⟨last, ?_⟩
      rw [if_pos ⟨hread.1, read, mem_cons_self, rfl, hread.2⟩]
      simpa using hlast
    · have hnext : Marked peerId mark readId (s.applyMaxIncomingReadId read).peers := by
        unfold applyMaxIncomingReadId
        by_cases hpeer : read.1 = peerId
        · obtain ⟨conversation, hfind, rfl, rfl⟩ := h
          rw [hpeer, hfind]
          dsimp only
          rw [if_neg fun hread => hown ⟨hpeer, hread⟩]
          exact ⟨conversation, hfind, rfl, rfl⟩
        · split
          · exact h
          · next hold =>
            split
            · exact h.insertOrReplace_of_ne hpeer hold rfl
            · exact h
      obtain ⟨last, hlast⟩ := ih hnext
      refine ⟨last, ?_⟩
      convert hlast using 2
      constructor
      · rintro ⟨hne, other, hother, hid, hlt⟩
        rcases mem_cons.mp hother with rfl | hrest
        · exact absurd ⟨hid, hne, hlt⟩ hown
        · exact ⟨hne, other, hrest, hid, hlt⟩
      · rintro ⟨hne, other, hother, hid, hlt⟩
        exact ⟨hne, other, mem_cons_of_mem _ hother, hid, hlt⟩

theorem marked_applyUnreadMarks (marks : List (Int × Bool)) :
    Marked peerId (((marks.filter fun mark => mark.1 = peerId).map Prod.snd).getLastD mark) readId
      (marks.foldl applyUnreadMark s).peers := by
  induction marks generalizing s mark with
  | nil => exact h
  | cons applied marks ih =>
    rw [foldl_cons, getLastD_map_filter_cons]
    apply ih
    unfold applyUnreadMark
    by_cases hpeer : applied.1 = peerId
    · obtain ⟨conversation, hfind, rfl, rfl⟩ := h
      subst hpeer
      rw [hfind, if_pos (by simp)]
      dsimp only
      split
      · exact marked_insertOrReplace hfind rfl rfl rfl
      · next hsame => exact ⟨conversation, hfind, not_not.mp hsame, rfl⟩
    · rw [if_neg (by simpa using hpeer)]
      split
      · exact h
      · next hold =>
        split
        · exact h.insertOrReplace_of_ne hpeer hold rfl
        · exact h

end

end

/-! ## Before the clearing -/

section
variable {peerId : Int} {db : ChatDatabase} {t : ChatTransaction}

theorem keepsOn_addAll (db : ChatDatabase) (t : ChatTransaction) (s : ChatState) :
    KeepsOn peerId SameMark s.peers (t.addAll db s).peers :=
  .foldl SameMark.refl SameMark.trans (fun s other _ => keepsOn_addPeerMessages s other _) s

theorem keepsOn_removeAll (db : ChatDatabase) (t : ChatTransaction) (s : ChatState) :
    KeepsOn peerId Untouched s.peers (t.removeAll db s).peers :=
  .foldl Untouched.refl Untouched.trans (fun s other _ => keepsOn_removePeerMessages s other _) s

theorem keepsOn_applyMaxOutgoing (t : ChatTransaction) (s : ChatState) :
    KeepsOn peerId Untouched s.peers (t.applyMaxOutgoingReadDates.foldl ChatState.applyMaxOutgoingReadDate
      (t.applyMaxOutgoingReadIds.foldl applyMaxOutgoingReadId s)).peers := by
  have hids : KeepsOn peerId Untouched s.peers (t.applyMaxOutgoingReadIds.foldl applyMaxOutgoingReadId s).peers := by
    refine .foldl Untouched.refl Untouched.trans (fun s read _ => ?_) s
    exact .setPeerIf s read.1 Untouched.refl (fun _ => rfl) fun _ => ⟨⟨rfl, rfl⟩, id⟩
  refine hids.trans Untouched.trans (.foldl Untouched.refl Untouched.trans (fun s read _ => ?_) _)
  exact .setPeerIf s read.1 Untouched.refl (fun _ => rfl) fun _ => ⟨⟨rfl, rfl⟩, id⟩

theorem staysUnmarked_readDeactivated (s : ChatState) : KeepsOn peerId StaysUnmarked s.peers s.readDeactivated.peers := by
  refine .foldl (fun _ => id) (fun _ _ _ h h' hunmarked => h' (h hunmarked)) (fun s request hreq => ?_) s
  obtain ⟨_, -, rfl⟩ := mem_map.mp hreq
  exact staysUnmarked_readPeerHistory s rfl

variable {conversation : TGConversation}

theorem marked_readHistories (hfind : db.conversations.find peerId = some conversation)
    (hloaded : peerId ∈ t.loadedPeerIds db) : Marked peerId
      (((t.readHistoryForPeerIds.filter fun request => request.peerId = peerId).map
        TGReadPeerMessagesRequest.unread).getLastD
          (((t.resetPeerReadStates.filter fun reset => reset.1 = peerId).map fun reset =>
            reset.2.unreadMark).getLastD conversation.unreadMark))
      (readIdAfterHistories peerId db t) (t.readHistories (t.beginChanges db)).peers := by
  have hbegin : Marked peerId conversation.unreadMark (storedReadId peerId db) (t.beginChanges db).peers := by
    refine ⟨conversation, (find_loadPeers t db peerId).trans ((if_pos hloaded).trans hfind), rfl, ?_⟩
    rw [storedReadId, hfind]
    rfl
  have hread := marked_readPeersHistories (marked_resetPeerReadStates hbegin t.resetPeerReadStates) t.readHistoryForPeerIds
  rw [(ReplacesPeers.foldl replacesPeers_resetPeerReadState t.resetPeerReadStates _).onlyPeers.db] at hread
  exact hread

variable {s : ChatState}

theorem unmarked_applyReads {mark : Bool} {readId : Nat} (h : Marked peerId mark readId s.peers)
    (hmark : (appliedMarks peerId t).getLastD
      (if readId ≠ 0 ∧ ∃ read ∈ t.applyMaxIncomingReadIds, read.1 = peerId ∧ (readId : Int) < read.2 then false
        else mark) = false) : ∃ last, (t.applyReads s).peers.find peerId = some last ∧ last.unreadMark = false := by
  obtain ⟨readId, hinc⟩ := marked_applyMaxIncomingReadIds h t.applyMaxIncomingReadIds
  have hout := hinc.of_keepsOn ((keepsOn_applyMaxOutgoing t _).mono fun _ _ h => h.toSameMark)
  obtain ⟨marked, hmarked, hunmarked, -⟩ := marked_applyUnreadMarks hout t.applyUnreadMarks
  obtain ⟨last, hlast, hstays⟩ := staysUnmarked_readDeactivated _ marked hmarked
  exact ⟨last, hlast, hstays (hunmarked.trans hmark)⟩

theorem staysZero_applyReads (t : ChatTransaction) (s : ChatState) :
    KeepsOn peerId StaysZero s.peers (t.applyReads s).peers := by
  have htrans (a b c : TGConversation) (h : StaysZero a b) (h' : StaysZero b c) : StaysZero a c := fun hzero => h' (h hzero)
  have hinc : KeepsOn peerId StaysZero s.peers (t.applyMaxIncomingReadIds.foldl applyMaxIncomingReadId s).peers := by
    refine .foldl (fun _ => id) htrans (fun s read _ => ?_) s
    refine .setPeerIf s read.1 (fun _ => id) (fun _ => rfl) fun _ hzero => ?_
    dsimp only
    omega
  have hout := hinc.trans htrans ((keepsOn_applyMaxOutgoing t _).mono fun _ _ h => h.staysZero)
  have hmarks (s : ChatState) : KeepsOn peerId StaysZero s.peers (t.applyUnreadMarks.foldl applyUnreadMark s).peers := by
    refine .foldl (fun _ => id) htrans (fun s mark _ => ?_) s
    exact .setPeerIf s mark.1 (fun _ => id) (fun _ => rfl) fun _ => id
  exact (hout.trans htrans (hmarks _)).trans htrans
    (.foldl (fun _ => id) htrans (fun s request _ => staysZero_readPeerHistory s request) _)

theorem unmarked_changesBeforeClearing (hfind : db.conversations.find peerId = some conversation)
    (hloaded : peerId ∈ t.loadedPeerIds db) (hmark : lastMark peerId db t conversation = false) :
    ∃ last, (t.changesBeforeClearing db).peers.find peerId = some last ∧ last.unreadMark = false := by
  have hread := marked_readHistories hfind hloaded
  have hrem := (hread.of_keepsOn (keepsOn_addAll db t _)).of_keepsOn
    ((keepsOn_removeAll db t _).mono fun _ _ h => h.toSameMark)
  have hupd := hrem
  rw [← peers_updateAll t] at hupd
  exact unmarked_applyReads hupd hmark

/-! ### Conversations that are not stored -/

theorem PeersChange.find_none {s' : ChatState} (h : PeersChange [] s s') (hnone : s.peers.find peerId = none) :
    s'.peers.find peerId = none := by
  rcases h.peers peerId with hsame | ⟨-, hsome | hloaded⟩
  · exact hsame.trans hnone
  · rw [hnone] at hsome
    cases hsome
  · exact absurd hloaded not_mem_nil

theorem find_addAll_of_none (hnone : s.peers.find peerId = none) :
    (isNewUser peerId db t → (t.addAll db s).peers.find peerId = some (.initWithConversationId peerId)) ∧
      (¬isNewUser peerId db t → (t.addAll db s).peers.find peerId = none) := by
  let messages : Int → List TGMessage := fun other => (t.freshMessages db).filter fun message => message.cid = other
  have hothers (peerIds : List Int) : ∀ s : ChatState, peerId ∉ peerIds →
      (peerIds.foldl (fun s other => s.addPeerMessages other (messages other)) s).peers.find peerId =
        s.peers.find peerId := by
    induction peerIds with
    | nil => exact fun _ _ => rfl
    | cons other peerIds ih =>
      intro s hnot
      obtain ⟨hne, hrest⟩ := not_or.mp (mt mem_cons.mpr hnot)
      rw [foldl_cons, ih _ hrest, find_addPeerMessages_of_ne (Ne.symm hne)]
  have hown (s : ChatState) (hnone : s.peers.find peerId = none) :
      (s.addPeerMessages peerId (messages peerId)).peers.find peerId =
        if peerIdIsUser peerId then some (.initWithConversationId peerId) else none := by
    unfold addPeerMessages
    rw [hnone]
    dsimp only
    split
    · rw [find_setPeer]
      exact if_pos rfl
    · exact hnone
  have hfold (peerIds : List Int) : ∀ s : ChatState, peerIds.Nodup → s.peers.find peerId = none →
      (peerIds.foldl (fun s other => s.addPeerMessages other (messages other)) s).peers.find peerId =
        if peerId ∈ peerIds ∧ peerIdIsUser peerId then some (.initWithConversationId peerId) else none := by
    induction peerIds with
    | nil =>
      intro s _ hnone
      rw [if_neg fun hand => not_mem_nil hand.1]
      exact hnone
    | cons other peerIds ih =>
      intro s hnd hnone
      obtain ⟨hnot, hrest⟩ := nodup_cons.mp hnd
      rw [foldl_cons]
      by_cases hother : other = peerId
      · subst hother
        rw [hothers peerIds _ hnot, hown s hnone]
        simp
      · rw [ih _ hrest ((find_addPeerMessages_of_ne hother _ s).trans hnone)]
        simp [Ne.symm hother]
  have hnd : (t.peerOrder.read ((t.freshMessages db).map TGMessage.cid).dedup).Nodup :=
    (t.peerOrder.perm _).nodup_iff.mpr (nodup_dedup _)
  have hall : (t.addAll db s).peers.find peerId =
      if peerId ∈ t.peerOrder.read ((t.freshMessages db).map TGMessage.cid).dedup ∧ peerIdIsUser peerId then
        some (.initWithConversationId peerId) else none := hfold _ s hnd hnone
  constructor
  · rintro ⟨huser, hfresh⟩
    rw [hall, if_pos ⟨(mem_freshCids t db).mpr hfresh, huser⟩]
  · intro hnew
    rw [hall, if_neg fun hand => hnew ⟨hand.2, (mem_freshCids t db).mp hand.1⟩]

theorem unread_changesBeforeClearing_of_none (hnone : db.conversations.find peerId = none) :
    (isNewUser peerId db t → (appliedMarks peerId t).getLastD false = false →
      ∃ last, (t.changesBeforeClearing db).peers.find peerId = some last ∧ last.unreadCount = 0 ∧ last.unreadMark = false) ∧
    (¬isNewUser peerId db t → (t.changesBeforeClearing db).peers.find peerId = none) := by
  have hbegin : (t.beginChanges db).peers.find peerId = none := by
    refine (find_loadPeers t db peerId).trans ?_
    rw [hnone, ite_self]
  have hread : (t.readHistories (t.beginChanges db)).peers.find peerId = none :=
    (replacesPeers_readHistories t _).peersChange.find_none hbegin
  have hadd : (isNewUser peerId db t → (t.addAll db (t.readHistories (t.beginChanges db))).peers.find peerId =
        some (.initWithConversationId peerId)) ∧
      (¬isNewUser peerId db t → (t.addAll db (t.readHistories (t.beginChanges db))).peers.find peerId = none) :=
    find_addAll_of_none hread
  obtain ⟨hnew, hold⟩ := hadd
  constructor
  · intro hisNew hmarks
    have hadded := hnew hisNew
    obtain ⟨removed, hrem, huntouched⟩ := keepsOn_removeAll db t _ _ hadded
    have hupd : (t.updateAll (t.removeAll db (t.addAll db (t.readHistories (t.beginChanges db))))).peers.find peerId =
        some removed := by
      rw [peers_updateAll]
      exact hrem
    obtain ⟨last, hlast, hunmarked⟩ := unmarked_applyReads (t := t) ⟨removed, hupd, huntouched.unreadMark,
      huntouched.readId⟩ (by simpa [TGConversation.initWithConversationId] using hmarks)
    obtain ⟨last', hlast', hzero⟩ := staysZero_applyReads t _ removed hupd
    obtain rfl : last = last' := Option.some.inj (hlast.symm.trans hlast')
    exact ⟨last, hlast, hzero (huntouched.staysZero rfl), hunmarked⟩
  · intro hisNew
    have hrem := (peersChange_removeAll t db _).find_none (hold hisNew)
    exact (replacesPeers_applyReads t _).peersChange.find_none ((peersChange_updateAll t _).find_none hrem)

/-! ## The clearing -/

variable (peerIds : List Int)

theorem keepsOn_removeConversations (s : ChatState) :
    KeepsOn peerId Untouched s.peers (s.removeConversations peerIds).peers :=
  KeepsOn.foldl Untouched.refl Untouched.trans (fun s other _ => keepsOn_removeMessagesFromConversation s other) s

theorem unread_removeConversations {peerIds : List Int} (hpeer : peerId ∈ peerIds)
    (hfind : s.peers.find peerId = some conversation) :
    ∃ last, (s.removeConversations peerIds).peers.find peerId = some last ∧ last.unreadCount = 0 ∧
      last.unreadMark = conversation.unreadMark := by
  show ∃ last, (peerIds.foldl ChatState.removeMessagesFromConversation s).peers.find peerId = some last ∧ _
  induction peerIds generalizing s conversation with
  | nil => exact absurd hpeer not_mem_nil
  | cons other peerIds ih =>
    rw [foldl_cons]
    by_cases hother : other = peerId
    · subst hother
      have hown : (s.removeMessagesFromConversation other).peers.find other =
          some { conversation with unreadCount := 0, serviceUnreadCount := 0 } := by
        unfold ChatState.removeMessagesFromConversation
        have hsame (messages : MessageTable) : (s.setMessages messages).peers.find other = some conversation := hfind
        dsimp only
        rw [hsame]
        exact (find_setPeer ..).trans (if_pos (key_of_find hfind))
      obtain ⟨last, hlast, huntouched⟩ := keepsOn_removeConversations peerIds _ _ hown
      exact ⟨last, hlast, huntouched.staysZero rfl, huntouched.unreadMark⟩
    · have hrest : peerId ∈ peerIds := (mem_cons.mp hpeer).resolve_left (Ne.symm hother)
      obtain ⟨middle, hmiddle, huntouched⟩ := keepsOn_removeMessagesFromConversation s other conversation hfind
      obtain ⟨last, hlast, hzero, hmark⟩ := ih hrest hmiddle
      exact ⟨last, hlast, hzero, hmark.trans huntouched.unreadMark⟩

theorem keepsOn_clearConversations (s : ChatState) :
    KeepsOn peerId Untouched s.peers (peerIds.foldl ChatState.clearConversation s).peers := by
  have hclear (s : ChatState) (other : Int) : KeepsOn peerId Untouched s.peers (s.clearConversation other).peers :=
    keepsOn_removeMessagesFromConversation s other
  exact .foldl Untouched.refl Untouched.trans (fun s other _ => hclear s other) s

theorem keepsOn_updateConversationDatas (updates : List TGConversation) (s : ChatState) :
    KeepsOn peerId Untouched s.peers (updates.foldl updateConversationData s).peers :=
  .foldl Untouched.refl Untouched.trans (fun s updated _ => keepsOn_updateConversationData s updated) s

variable {last : TGConversation}

theorem unread_updateConversationDatas {updates : List TGConversation} (hnone : s.peers.find peerId = none)
    (hlast : (updates.foldl updateConversationData s).peers.find peerId = some last)
    (hzero : ∀ updated, updates.find? (fun updated => updated.conversationId = peerId) = some updated →
      updated.unreadCount = 0 ∧ updated.unreadMark = false) : last.unreadCount = 0 ∧ last.unreadMark = false := by
  induction updates generalizing s with
  | nil =>
    rw [foldl_nil, hnone] at hlast
    cases hlast
  | cons updated updates ih =>
    rw [foldl_cons] at hlast
    by_cases hpeer : updated.conversationId = peerId
    · subst hpeer
      obtain ⟨hcnt, hmark⟩ := hzero updated (by simp)
      have hfirst : (s.updateConversationData updated).peers.find updated.conversationId = some updated := by
        unfold updateConversationData
        rw [hnone]
        exact (find_setPeer ..).trans (if_pos rfl)
      obtain ⟨last', hlast', huntouched⟩ := keepsOn_updateConversationDatas updates _ _ hfirst
      obtain rfl : last = last' := Option.some.inj (hlast.symm.trans hlast')
      exact ⟨huntouched.staysZero hcnt, huntouched.unreadMark.trans hmark⟩
    · refine ih ?_ hlast fun other hother => hzero other ?_
      · unfold updateConversationData
        split
        · exact (find_setPeer ..).trans ((if_neg hpeer).trans hnone)
        · next current hcur =>
          refine (find_setPeer ..).trans ((if_neg ?_).trans hnone)
          exact fun hid => hpeer ((key_of_find hcur).symm.trans hid)
      · rw [find?_cons_of_neg (by simpa using hpeer)]
        exact hother

/-- **A conversation that ends unstored counts nothing**, if it was given no mark and no count. -/
theorem final_unread (hgone : peerId ∈ t.removeConversationsWithPeerIds ∨ db.conversations.find peerId = none)
    (hloaded : peerId ∈ t.loadedPeerIds db) (hnothing : CountsNothing peerId db t)
    (hlast : (t.changeChats db).peers.find peerId = some last) : last.unreadCount = 0 ∧ last.unreadMark = false := by
  have hlast : (t.clearAll (t.changesBeforeClearing db)).peers.find peerId = some last := hlast
  unfold clearAll at hlast
  unfold CountsNothing at hnothing
  cases hfind : db.conversations.find peerId with
  | some conversation =>
    rw [hfind] at hnothing
    have hrem : peerId ∈ t.removeConversationsWithPeerIds := hgone.resolve_right (by simp [hfind])
    obtain ⟨before, hbefore, hunmarked⟩ := unmarked_changesBeforeClearing hfind hloaded hnothing
    obtain ⟨cleared, hcleared, huntouched⟩ :=
      keepsOn_clearConversations t.clearConversationsWithPeerIds _ before hbefore
    obtain ⟨removed, hrem, hzero, hmark⟩ := unread_removeConversations hrem hcleared
    obtain ⟨last', hlast', huntouched'⟩ := keepsOn_updateConversationDatas t.updateConversationDatas _ removed hrem
    obtain rfl : last = last' := Option.some.inj (hlast.symm.trans hlast')
    refine ⟨huntouched'.staysZero hzero, ?_⟩
    rw [huntouched'.unreadMark, hmark, huntouched.unreadMark, hunmarked]
  | none =>
    rw [hfind] at hnothing
    obtain ⟨hnew, hold⟩ := unread_changesBeforeClearing_of_none (t := t) hfind
    by_cases hisNew : isNewUser peerId db t
    · obtain ⟨before, hbefore, hzero, hunmarked⟩ := hnew hisNew (hnothing.1 hisNew)
      have hcleared : KeepsOn peerId Untouched (t.changesBeforeClearing db).peers
          (t.clearConversationsWithPeerIds.foldl ChatState.clearConversation (t.changesBeforeClearing db)).peers :=
        keepsOn_clearConversations t.clearConversationsWithPeerIds _
      have hkeeps := (hcleared.trans Untouched.trans
        (keepsOn_removeConversations t.removeConversationsWithPeerIds _)).trans Untouched.trans
        (keepsOn_updateConversationDatas t.updateConversationDatas _)
      obtain ⟨last', hlast', huntouched⟩ := hkeeps before hbefore
      obtain rfl : last = last' := Option.some.inj (hlast.symm.trans hlast')
      exact ⟨huntouched.staysZero hzero, huntouched.unreadMark.trans hunmarked⟩
    · have hcleared : (t.clearConversationsWithPeerIds.foldl ChatState.clearConversation
          (t.changesBeforeClearing db)).peers.find peerId = none :=
        (PeersChange.foldl (fun s other _ => peersChange_clearConversation s other) _).find_none (hold hisNew)
      have hrem : ((t.clearConversationsWithPeerIds.foldl ChatState.clearConversation
          (t.changesBeforeClearing db)).removeConversations t.removeConversationsWithPeerIds).peers.find peerId = none :=
        (PeersChange.foldl (fun s other _ => peersChange_removeMessagesFromConversation s other) _).find_none hcleared
      exact unread_updateConversationDatas hrem hlast (hnothing.2 hisNew)

/-! ## Messages that stay -/

section
variable (h : HasShown peerId s.db.messages)
include h

theorem hasShown_storeUpdated {message updated : TGMessage} (hmsg : message ∈ s.db.messages.rows)
    (hdate : updated.date = message.date ∨ updated.date ≠ int32Max) :
    HasShown peerId (s.storeUpdated message updated).db.messages := by
  obtain ⟨row, hrow, hcid, hshown⟩ := h
  unfold ChatState.storeUpdated
  dsimp only [ChatState.addModified, ChatState.setMessages]
  split
  · refine ⟨_, mem_map.mpr ⟨row, hrow, rfl⟩, ?_⟩
    split
    · next hkey =>
      obtain rfl : row = message := s.db.messages.eq_of_key hrow hmsg hkey
      exact ⟨hcid, hdate.elim (fun heq => (heq.symm ▸ hshown : updated.date ≠ int32Max)) id⟩
    · exact ⟨hcid, hshown⟩
  · obtain ⟨row', hrow', hcid', hshown'⟩ : HasShown peerId
        (s.db.messages.changeKey message.mid updated.mid (fun row => row.moveTo updated) fun _ => rfl) := by
      unfold changeKey
      split
      · exact ⟨row, hrow, hcid, hshown⟩
      · refine ⟨_, mem_map.mpr ⟨row, hrow, rfl⟩, ?_⟩
        split
        · next hkey =>
          obtain rfl : row = message := s.db.messages.eq_of_key hrow hmsg hkey
          exact ⟨hcid, hdate.elim (fun heq => (heq.symm ▸ hshown : updated.date ≠ int32Max)) id⟩
        · exact ⟨hcid, hshown⟩
    refine ⟨_, mem_map.mpr ⟨row', hrow', rfl⟩, ?_⟩
    split
    · obtain ⟨text, heq⟩ := TGMessage.setText_eq row' message updated
      show (row'.setText message updated).cid = peerId ∧ (row'.setText message updated).date ≠ int32Max
      rw [heq]
      exact ⟨hcid', hshown'⟩
    · exact ⟨hcid', hshown'⟩

theorem hasShown_updateMessage {update : TGDatabaseUpdateMessage}
    (hdates : ∀ messageId updated, update = .withMessage messageId updated → updated.date ≠ int32Max) :
    HasShown peerId (s.updateMessage update).db.messages := by
  rcases updateMessage_cases s update with
    ⟨hsame, -⟩ | ⟨message, updated, reads, unreads, hfind, hupdates, hupd⟩
  · rw [hsame]
    exact h
  · have hmsg : message ∈ s.db.messages.rows := (KeyedTable.find_eq_some.mp hfind).1
    have hstor : HasShown peerId (s.addMarks reads unreads).db.messages := h
    rw [hupd]
    refine hasShown_storeUpdated hstor hmsg ?_
    cases hupdates with
    | delivered | unread => exact .inl rfl
    | read _ _ _ _ hdate _ | contentsRead _ _ _ _ hdate _ => exact .inl hdate
    | replaced messageId | replacedRead messageId | replacedUnread messageId =>
      exact .inr (hdates messageId updated rfl)

theorem hasShown_updateAll
    (hdates : ∀ messageId updated, .withMessage messageId updated ∈ t.allUpdates → updated.date ≠ int32Max) :
    HasShown peerId (t.updateAll s).db.messages := by
  unfold updateAll
  generalize t.allUpdates = updates at hdates
  induction updates generalizing s with
  | nil => exact h
  | cons update updates ih =>
    refine ih (hasShown_updateMessage h fun messageId updated hupd => ?_) fun messageId updated hm => ?_
    · exact hdates messageId updated (hupd ▸ mem_cons_self)
    · exact hdates messageId updated (mem_cons_of_mem update hm)

end

theorem hasShown_removeAll (h : LeavesMessage peerId db t) :
    HasShown peerId (t.removeAll db (t.addAll db (t.readHistories (t.beginChanges db)))).db.messages := by
  obtain ⟨message, hmsg, hcid, hdate, hstays, hunique⟩ := h.message
  have hadded : (t.addAll db (t.readHistories (t.beginChanges db))).db.messages = db.messages.insertAll (t.addedRows db) := by
    rw [t.messages_addAll db, db_readHistories]
  -- the first one with this id is stored
  have hhas : (db.messages.insertAll (t.addedRows db)).Has message.mid := by
    rw [KeyedTable.has_insertAll]
    rcases mem_append.mp hmsg with hold | hnew
    · exact .inl (has_key hold)
    · exact .inr ⟨message, (t.addedRows_perm db).mem_iff.mpr hnew, rfl⟩
  obtain ⟨row, hrow, hmid⟩ := hhas
  have hshown : row.cid = peerId ∧ row.date ≠ int32Max := by
    rcases KeyedTable.mem_insertAll hrow with hold | hnew
    · rcases mem_append.mp hmsg with hold' | hnew'
      · obtain rfl : row = message := db.messages.eq_of_key hold hold' hmid
        exact ⟨hcid, hdate⟩
      · exact absurd ⟨row, hold, hmid⟩ (not_has_of_fresh hnew')
    · exact hunique row ((t.addedRows_perm db).mem_iff.mp hnew) hmid
  refine ⟨row, ?_, hshown⟩
  rw [t.rows_removeAll db, hadded]
  refine mem_filter.mpr ⟨hrow, decide_eq_true fun other hother => ?_⟩
  rw [hmid]
  exact hstays other hother

/-- **A chat that keeps a message shows one at the end.** -/
theorem topMessage_of_leavesMessage (h : LeavesMessage peerId db t)
    (hnot : peerId ∉ t.removeConversationsWithPeerIds) (order : RowOrder TGMessage) :
    topMessage order (t.changeChats db).db.messages peerId ≠ none := by
  have hbefore : HasShown peerId (t.changesBeforeClearing db).db.messages := by
    rw [ChatTransaction.changesBeforeClearing, (onlyPeers_applyReads t _).db]
    exact hasShown_updateAll (hasShown_removeAll h) h.dates
  obtain ⟨row, hrow, hcid, hdate⟩ := hbefore
  have hstays : row.cid ∉ t.clearConversationsWithPeerIds ++ t.removeConversationsWithPeerIds := by
    rw [hcid, mem_append]
    exact not_or.mpr ⟨h.notCleared, hnot⟩
  have hlast : row ∈ (t.changeChats db).db.messages.rows := by
    rw [t.messages_changeChats db]
    exact (t.mem_clearAll _).mpr ⟨hrow, hstays⟩
  exact topMessage_of_hasShown ⟨row, hlast, hcid, hdate⟩ order

end

/-! ## Stored and in memory -/

namespace ChatState

/-- The rows of the conversations that are removed are deleted. -/
def deleteConversations (peerIds : List Int) (s : ChatState) : ChatState :=
  { s with db := { s.db with
    conversations := s.db.conversations.deleteWhere fun conversation => conversation.conversationId ∈ peerIds } }

end ChatState

theorem PeersChange.deleteConversations {loaded : List Int} {s s' : ChatState} (h : PeersChange loaded s s')
    (peerIds : List Int) : PeersChange loaded (s.deleteConversations peerIds) (s'.deleteConversations peerIds) where
  conversations := by
    unfold ChatState.deleteConversations
    rw [h.conversations]
  unreadCount := h.unreadCount
  unreadChatsCount := h.unreadChatsCount
  modified := h.modified
  kept := h.kept
  peers := h.peers

section
variable {peerId : Int} {db : ChatDatabase} {t : ChatTransaction}

theorem peersChange_cleared (db : ChatDatabase) (t : ChatTransaction) : PeersChange (t.loadedPeerIds db)
    (t.beginChanges db)
    (t.clearConversationsWithPeerIds.foldl ChatState.clearConversation (t.changesBeforeClearing db)) :=
  (t.peersChange_changesBeforeClearing db).trans (.foldl (fun s other _ => peersChange_clearConversation s other) _)

theorem peersChange_changeChats (db : ChatDatabase) (t : ChatTransaction) : PeersChange (t.loadedPeerIds db)
    ((t.beginChanges db).deleteConversations t.removeConversationsWithPeerIds) (t.changeChats db) := by
  have hmsgs : PeersChange (t.loadedPeerIds db) (t.beginChanges db)
      (t.removeConversationsWithPeerIds.foldl ChatState.removeMessagesFromConversation
        (t.clearConversationsWithPeerIds.foldl ChatState.clearConversation (t.changesBeforeClearing db))) :=
    (peersChange_cleared db t).trans (.foldl (fun s other _ => peersChange_removeMessagesFromConversation s other) _)
  have hdatas : PeersChange (t.loadedPeerIds db)
      ((t.beginChanges db).deleteConversations t.removeConversationsWithPeerIds)
      (t.clearAll (t.changesBeforeClearing db)) :=
    (hmsgs.deleteConversations t.removeConversationsWithPeerIds).trans
      (.foldl (fun s _ hupd => peersChange_updateConversationData s (mem_loadedPeerIds_of_updateData t db hupd)) _)
  have hqueued : PeersChange (t.loadedPeerIds db)
      ((t.beginChanges db).deleteConversations t.removeConversationsWithPeerIds)
      (t.queueReadContents (t.clearAll (t.changesBeforeClearing db))) :=
    hdatas.trans (.of_peers_eq rfl rfl rfl (List.Subset.refl _) rfl)
  rw [t.changeChats_eq db]
  exact hqueued.trans (peersChange_of_sameConversations (tables_applyMentionMarks t.peerOrder _).2)

theorem mem_modified_of_removed (hrem : peerId ∈ t.removeConversationsWithPeerIds)
    (hsome : ((t.loadPeers db).find peerId).isSome) : peerId ∈ (t.changeChats db).modifiedPeerIds := by
  have hfold (peerIds : List Int) (hm : peerId ∈ peerIds) : ∀ s : ChatState, (s.peers.find peerId).isSome →
      peerId ∈ (peerIds.foldl ChatState.removeMessagesFromConversation s).modifiedPeerIds := by
    intro s hs
    obtain ⟨before, after, rfl⟩ := append_of_mem hm
    rw [foldl_append, foldl_cons]
    have hbefore : PeersChange [] s (before.foldl ChatState.removeMessagesFromConversation s) :=
      .foldl (fun s other _ => peersChange_removeMessagesFromConversation s other) s
    have hafter (s : ChatState) : PeersChange [] s (after.foldl ChatState.removeMessagesFromConversation s) :=
      .foldl (fun s other _ => peersChange_removeMessagesFromConversation s other) s
    refine (hafter _).modified ?_
    generalize before.foldl ChatState.removeMessagesFromConversation s = middle at hbefore
    obtain ⟨conversation, hfind⟩ := Option.isSome_iff_exists.mp (hbefore.kept peerId hs)
    have hsame (messages : MessageTable) : (middle.setMessages messages).peers.find peerId = some conversation := hfind
    unfold ChatState.removeMessagesFromConversation
    dsimp only
    rw [hsame]
    simp [key_of_find hfind]
  have hdatas (s : ChatState) : PeersChange (t.loadedPeerIds db) s
      (t.updateConversationDatas.foldl updateConversationData s) :=
    .foldl (fun s _ hupd => peersChange_updateConversationData s (mem_loadedPeerIds_of_updateData t db hupd)) s
  have hmarks (s : ChatState) : PeersChange (t.loadedPeerIds db) s (s.applyMentionMarks t.peerOrder) :=
    peersChange_of_sameConversations (tables_applyMentionMarks t.peerOrder s).2
  rw [t.changeChats_eq db]
  refine (hmarks _).modified ((hdatas _).modified ?_)
  exact hfold t.removeConversationsWithPeerIds hrem _ ((peersChange_cleared db t).kept peerId hsome)

theorem find_conversations_changeChats (db : ChatDatabase) (t : ChatTransaction) (peerId : Int) :
    (t.changeChats db).db.conversations.find peerId =
      if peerId ∈ t.removeConversationsWithPeerIds then none else db.conversations.find peerId := by
  rw [(peersChange_changeChats db t).conversations]
  refine (KeyedTable.find_deleteWhere _ _ _).trans ?_
  cases hfind : db.conversations.find peerId with
  | none =>
    rw [ite_self]
    exact congrArg (Option.filter _) hfind
  | some conversation =>
    have hid : conversation.conversationId = peerId := key_of_find hfind
    have hbegin : (t.beginChanges db).db.conversations.find peerId = some conversation := hfind
    rw [hbegin]
    by_cases hrem : peerId ∈ t.removeConversationsWithPeerIds
    · rw [if_pos hrem, Option.filter_some_neg (by simp [hid, hrem])]
    · rw [if_neg hrem, Option.filter_some_pos (by simp [hid, hrem])]

/-- **What is reported as deleted is not stored and counts nothing.** -/
theorem deleted_counts_nothing (hkeeps : KeepsTotals db t) {conversation : TGConversation}
    (hfind : (t.changeChats db).peers.find peerId = some conversation)
    (hdel : t.reportsDeleted db (t.changeChats db) conversation) :
    (t.changeChats db).db.conversations.find peerId = none ∧ conversation.unreadCount = 0 ∧
      conversation.unreadMark = false := by
  have hid : conversation.conversationId = peerId := key_of_find hfind
  rw [find_conversations_changeChats]
  by_cases hrem : peerId ∈ t.removeConversationsWithPeerIds
  · rw [if_pos hrem]
    have hloaded : peerId ∈ t.loadedPeerIds db := mem_loadedPeerIds_of_removed t db hrem
    exact ⟨rfl, final_unread (.inl hrem) hloaded (hkeeps.removed peerId hrem) hfind⟩
  · rw [if_neg hrem]
    have hreport : (t.conversationForDispatch (t.changeChats db) conversation).2 = true ∧
        peerId ∈ removalPeerIds db t.removeMessages ∧ peerIdIsSecretChat peerId = false := by
      simpa [reportsDeleted, ChatTransaction.removeEmptyConversations, hid, hrem, and_assoc]
        using hdel
    obtain ⟨hempty, hremoval, hchat⟩ := hreport
    have hall : peerId ∈ removalPeerIds db t.allRemovals := by
      rw [allRemovals, removalPeerIds, flatMap_append]
      exact mem_append_left _ hremoval
    rcases hkeeps.emptied peerId hremoval hchat hrem with hleaves | ⟨hnone, hnothing⟩
    · have htop := topMessage_of_leavesMessage hleaves hrem t.messageOrder
      obtain ⟨message, hmsg⟩ := Option.ne_none_iff_exists'.mp htop
      unfold conversationForDispatch at hempty
      rw [hid, hmsg] at hempty
      cases hempty
    · exact ⟨hnone, final_unread (.inr hnone) (mem_loadedPeerIds_of_removal t db hall) hnothing hfind⟩

/-- **The row and the conversation in memory balance**, for a number that is 0 where nothing is counted and that the last
message does not change. -/
theorem storedRow_balance (hkeeps : KeepsTotals db t) {w : TGConversation → Nat}
    (hzero : ∀ conversation, conversation.unreadCount = 0 → conversation.unreadMark = false → w conversation = 0)
    (hdispatch : ∀ conversation message, w (conversation.mergeMessage message) = w conversation) (peerId : Int) :
    ((transaction db t).conversations.find peerId).elim 0 w + ((t.loadPeers db).find peerId).elim 0 w =
      (db.conversations.find peerId).elim 0 w + ((t.changeChats db).peers.find peerId).elim 0 w := by
  have hchange := peersChange_changeChats db t
  have hrow := find_conversations_changeChats db t peerId
  have hstor : (transaction db t).conversations.find peerId =
      if peerId ∈ (t.changeChats db).modifiedPeerIds then
        t.storedRow db (t.changeChats db) peerId ((t.changeChats db).db.conversations.find peerId)
      else (t.changeChats db).db.conversations.find peerId := t.find_storeConversations db (t.changeChats db) peerId
  have hload := find_loadPeers t db peerId
  have hpeers : (t.changeChats db).peers.find peerId = (t.loadPeers db).find peerId ∨
      peerId ∈ (t.changeChats db).modifiedPeerIds ∧
        (((t.loadPeers db).find peerId).isSome ∨ peerId ∈ t.loadedPeerIds db) := hchange.peers peerId
  by_cases hloaded : peerId ∈ t.loadedPeerIds db
  · rw [if_pos hloaded] at hload
    rw [hload, Nat.add_comm]
    congr 1
    cases hfind : (t.changeChats db).peers.find peerId with
    | none =>
      have hnone : db.conversations.find peerId = none := by
        have hnotkept : ¬((t.changeChats db).peers.find peerId).isSome := by simp [hfind]
        have hbegin := mt (hchange.kept peerId) hnotkept
        rw [← hload]
        exact Option.not_isSome_iff_eq_none.mp hbegin
      have hempty : (transaction db t).conversations.find peerId = none := by
        rw [hstor, hrow, hnone, ite_self, storedRow, hfind, ite_self]
      rw [hempty]
    | some conversation =>
      by_cases hmodified : peerId ∈ (t.changeChats db).modifiedPeerIds
      · rw [hstor, if_pos hmodified, storedRow, hfind]
        dsimp only
        split
        · next hdel =>
          obtain ⟨hnone, hcnt, hmark⟩ := deleted_counts_nothing hkeeps hfind hdel
          rw [hnone]
          exact (hzero conversation hcnt hmark).symm
        · unfold conversationForDispatch
          split
          · exact hdispatch conversation _
          · rfl
      · have hsame := hpeers.resolve_right fun hmod => hmodified hmod.1
        have hrem : peerId ∉ t.removeConversationsWithPeerIds := fun hrem =>
          hmodified (mem_modified_of_removed hrem (by rw [← hsame, hfind]; rfl))
        rw [hstor, if_neg hmodified, hrow, if_neg hrem, ← hload, ← hsame, hfind]
  · rw [if_neg hloaded] at hload
    have hnone : (t.changeChats db).peers.find peerId = none := by
      rcases hpeers with hsame | ⟨-, hsome | hm⟩
      · rw [hsame, hload]
      · rw [hload] at hsome
        cases hsome
      · exact absurd hm hloaded
    have hrem : peerId ∉ t.removeConversationsWithPeerIds := fun hrem =>
      hloaded (mem_loadedPeerIds_of_removed t db hrem)
    rw [hstor, storedRow, hnone, ite_self, hrow, if_neg hrem, hload]

/-! ## Runs -/

theorem not_adminLog (h : peerIdIsUser peerId ∨ peerIdIsGroup peerId ∨ peerIdIsSecretChat peerId) :
    peerIdIsAdminLog peerId = false := by
  simp only [peerIdIsUser, peerIdIsGroup, peerIdIsSecretChat, Bool.and_eq_true, decide_eq_true_eq] at h
  have habove : ¬peerId ≤ int32Min * 3 := by
    unfold int32Min at *
    omega
  simp [peerIdIsAdminLog, habove]

theorem totalsMatch_transaction (hchats : OnChats db t) (hkeeps : KeepsTotals db t) (h : TotalsMatch db) :
    TotalsMatch (transaction db t) := by
  have hchange := peersChange_changeChats db t
  have hmsgs : (transaction db t).conversations.total unreadMessages +
      (t.loadPeers db).total unreadMessages = db.conversations.total unreadMessages +
          (t.changeChats db).peers.total unreadMessages := by
    refine total_add_total (storedRow_balance hkeeps (fun conversation hcnt _ => ?_) fun _ _ => rfl)
    simp [unreadMessages, hcnt]
  have hcounts : (transaction db t).conversations.total unreadChats +
      (t.loadPeers db).total unreadChats = db.conversations.total unreadChats +
          (t.changeChats db).peers.total unreadChats := by
    refine total_add_total (storedRow_balance hkeeps (fun conversation hcnt hmark => ?_) fun _ _ => rfl)
    simp [unreadChats, hcnt, hmark]
  have hprev : (t.loadPeers db).total previousUnread = (t.loadPeers db).total unreadMessages := by
    refine KeyedTable.total_congr fun conversation hconv => ?_
    have hloaded : conversation.conversationId ∈ t.loadedPeerIds db := by
      simpa using (KeyedTable.mem_deleteWhere.mp hconv).2
    rw [previousUnread, not_adminLog (hchats _ hloaded), if_neg Bool.false_ne_true]
  have hunreadCount : (t.changeChats db).db.unreadCount = db.unreadCount := hchange.unreadCount
  have hunreadChatsCount : (t.changeChats db).db.unreadChatsCount = db.unreadChatsCount := hchange.unreadChatsCount
  constructor
  · show updatedTotal (t.changeChats db).db.unreadCount _ _ = _
    rw [hunreadCount, h.unreadCount, hprev, updatedTotal]
    omega
  · show updatedTotal (t.changeChats db).db.unreadChatsCount _ _ = _
    rw [hunreadChatsCount, h.unreadChatsCount, updatedTotal]
    omega

theorem deletedAreGone_of_keepsTotals (hkeeps : KeepsTotals db t) : DeletedAreGone db t := by
  intro peerId hrep
  obtain ⟨hmod, hany⟩ := mem_filter.mp hrep
  obtain ⟨conversation, hfind, hdel⟩ := (Option.any_eq_true ..).mp hany
  have hnone := (deleted_counts_nothing hkeeps hfind hdel).1
  show (t.storeConversations db (t.changeChats db)).find peerId = none
  rw [t.find_storeConversations, if_pos hmod, storedRow, hfind]
  dsimp only
  rw [if_pos hdel, hnone]

end

/-- The totals stay right, and what is reported as deleted is gone, as long as no stored chat is emptied by a removal of
messages and no conversation is removed that is marked as unread. -/
theorem unreadTotals_hold {db : ChatDatabase} (h : TotalsMatch db) {ts : List ChatTransaction}
    (hchats : AllSteps transaction OnChats db ts) (hkeeps : AllSteps transaction KeepsTotals db ts) :
    AllSteps transaction (fun db t => TotalsMatch (transaction db t) ∧ DeletedAreGone db t) db ts := by
  have hstep : ∀ db t, TotalsMatch db → OnChats db t ∧ KeepsTotals db t → TotalsMatch (transaction db t) :=
    fun db t hdb ht => totalsMatch_transaction ht.1 ht.2 hdb
  exact AllSteps.of_invariant hstep
    (fun db t hdb ht => ⟨hstep db t hdb ht, deletedAreGone_of_keepsTotals ht.2⟩) h (hchats.and hkeeps)

/-- A new message is added to a chat whose only message is read. -/
theorem unreadTotals_hold_add :
    AllSteps transaction (fun db t => TotalsMatch (transaction db t) ∧ DeletedAreGone db t) readChat
      [{ noChange with addMessages := [newMessage] }] := by
  refine unreadTotals_hold ⟨by decide, by decide⟩ ⟨by decide, trivial⟩ ⟨⟨?_, ?_⟩, trivial⟩
  · exact fun _ hremoved => absurd hremoved not_mem_nil
  · exact fun _ hremoval => absurd hremoval not_mem_nil

def unreadChat : ChatDatabase :=
  { initChatDatabase with
    messages := KeyedTable.empty.insertOrIgnore newMessage
    conversations := KeyedTable.empty.insertOrIgnore ⟨5, 1, 0, false, 10, 0, 11, 0, 0, false⟩
    unreadCount := 1
    unreadChatsCount := 1 }

/-- A chat without unread messages that is marked as unread. -/
def markedChat : ChatDatabase :=
  { initChatDatabase with
    messages := KeyedTable.empty.insertOrIgnore readMessage
    conversations := KeyedTable.empty.insertOrIgnore ⟨5, 0, 0, true, 10, 0, 10, 0, 0, false⟩
    unreadChatsCount := 1 }

/-- A chat whose only message is removed stays stored with it as unread; a marked chat that is removed stays counted. -/
theorem emptied_stays_stored :
    (TotalsMatch unreadChat ∧ OnChats unreadChat { noChange with removeMessages := [(5, [11])] } ∧
      ¬TotalsMatch (transaction unreadChat { noChange with removeMessages := [(5, [11])] }) ∧
      ¬DeletedAreGone unreadChat { noChange with removeMessages := [(5, [11])] }) ∧
    TotalsMatch markedChat ∧ OnChats markedChat { noChange with removeConversationsWithPeerIds := [5] } ∧
      ¬TotalsMatch (transaction markedChat { noChange with removeConversationsWithPeerIds := [5] }) := by
  refine ⟨⟨⟨by decide, by decide⟩, by decide, ?_, ?_⟩, ⟨by decide, by decide⟩, by decide, ?_⟩
  · exact fun h => absurd h.unreadCount (by decide)
  · exact fun h => absurd (h 5 (by decide)) (by decide)
  · exact fun h => absurd h.unreadChatsCount (by decide)

end TelegramClient.Database
