import TelegramClient.Database.ChatChanges

/-!
# Unseen mentions

That a message has an unseen mention is kept three times: in the flag of the message, as a row of the table of mentions and
in the count of the chat. The flags are changed at once, and the table and the count at the end of a transaction.

* `MentionsMatch`, `ReadsOnArrival` : the three agree; what arrives in a chat that is being read is read;
* `MarksOf` : **the marks that a list of updates leaves**;
* `unseenMentions_hold` : runs.
-/

namespace TelegramClient.Database
open List
open KeyedTable (find_deleteWhere find_eq_some find_insertOrReplace find_key has_deleteWhere has_insertOrIgnore
  insertOrIgnore key_of_find mem_deleteWhere mem_insertOrIgnore)
open ChatDatabase (addUnreadMention unseenMentionCount)
open ChatState (addPeerMessages removePeerMessages removedOf)

/-- An incoming message of the chat with an unseen mention. -/
def isUnseenIn (peerId : Int) (message : TGMessage) : Bool := message.cid = peerId && isUnseenMention message

/-- The count of a chat is that of its stored messages with an unseen mention, and that of its rows. -/
structure MentionsMatch (peerId : Int) (db : ChatDatabase) : Prop where
  messages : db.unseenMentionCount peerId = db.messages.rows.countP (isUnseenIn peerId)
  rows : db.unseenMentionCount peerId = db.mentionMessageIds.rows.countP fun row => row.1 = peerId

/-- A mention that is added to the chat while the chat is being read gets an action, and if it is new it is stored without
the flag. -/
def ReadsOnArrival (peerId : Int) (db : ChatDatabase) (t : ChatTransaction) : Prop :=
  ∀ message ∈ t.addMessages, message.cid = peerId → t.isReadOnArrival message →
    (∃ queued, (transaction db t).queuedReadMessageContents = db.queuedReadMessageContents ++ queued ∧
      message.mid ∈ queued) ∧
    (¬db.messages.Has message.mid → ∀ row ∈ (transaction db t).messages.rows, row.mid = message.mid →
      row.cid = peerId → row.containsUnseenMention = false)

structure NoMentions (peerId : Int) (db : ChatDatabase) : Prop where
  messages : ∀ message ∈ db.messages.rows, message.cid ≠ peerId
  state : db.mentionStates.find peerId = none
  rows : ∀ row ∈ db.mentionMessageIds.rows, row.1 ≠ peerId

/-! ## Transactions -/

/-- The update reads a message, makes its mention unread again or replaces it by one with the same id. -/
def TGDatabaseUpdateMessage.IsInPlace : TGDatabaseUpdateMessage → Prop
  | .deliveredInBackground _ _ => False
  | .contentsRead _ | .mentionUnread _ => True
  | .withMessage messageId updated => updated.mid = messageId

def UpdatesInPlace (_ : ChatDatabase) (t : ChatTransaction) : Prop :=
  ∀ update ∈ t.updateMessages.getD [], update.IsInPlace

/-- The flag that an update gives to an incoming message. -/
def TGDatabaseUpdateMessage.mentionFlag : TGDatabaseUpdateMessage → Option Bool
  | .deliveredInBackground _ _ => none
  | .contentsRead _ => some false
  | .mentionUnread _ => some true
  | .withMessage _ updated => some updated.containsUnseenMention

/-- The flags that a list of updates gives to a message. -/
def mentionFlags (mid : Int) (updates : List TGDatabaseUpdateMessage) : List Bool :=
  updates.filterMap fun update => if update.messageId = mid then update.mentionFlag else none

def ReadLast : Bool → List Bool → Prop
  | _, [] => True
  | flag, next :: flags => if flag = true ∧ next = false then ∀ later ∈ flags, later = false else ReadLast next flags

/-- The updates of a message do not make its mention unread and leave its flag. -/
def LeavesFlag (message : TGMessage) (updates : List TGDatabaseUpdateMessage) : Prop :=
  ∀ update ∈ updates, update.messageId = message.mid → match update with
    | .mentionUnread _ => False
    | .withMessage _ updated => updated.containsUnseenMention = message.containsUnseenMention
    | _ => True

section
variable (peerId : Int) (db : ChatDatabase) (t : ChatTransaction)

/-- The stored messages and the new ones, of which the first with an id counts. -/
def messagesWithAdded : MessageTable := db.messages.insertAll (t.addedRows db)

def keptMessages : List TGMessage := (messagesWithAdded db t).rows.filter fun message =>
  ∀ other ∈ removalPeerIds db t.allRemovals, message.mid ∉ removalIds db t.allRemovals other

/-- The conditions under which the count follows the messages of a chat. -/
structure CountsMentions : Prop where
  /-- The ids of new messages are positive. -/
  positive : ∀ message ∈ t.storedFresh db, message.cid = peerId → 0 < message.mid
  /-- Under the id of a new mention a mention of the chat is stored. -/
  added : ∀ message ∈ t.storedFresh db, isUnseenIn peerId message →
    ((messagesWithAdded db t).find message.mid).any (isUnseenIn peerId)
  /-- Of the messages with the flag, those that are removed under the chat are its mentions. -/
  removed : ∀ message ∈ (messagesWithAdded db t).rows, message.containsUnseenMention →
    ∀ other ∈ removalPeerIds db t.allRemovals, message.mid ∈ removalIds db t.allRemovals other →
      (other = peerId ↔ isUnseenIn peerId message)
  /-- No mention is made unread after it was read. -/
  incoming : ∀ message ∈ keptMessages db t, message.cid = peerId → message.outgoing = false →
    ReadLast message.containsUnseenMention (mentionFlags message.mid t.allUpdates)
  outgoing : ∀ message ∈ keptMessages db t, message.cid = peerId → message.outgoing = true →
    LeavesFlag message t.allUpdates
  /-- A chat that is cleared has no unseen mentions then. -/
  cleared : peerId ∈ t.clearConversationsWithPeerIds ++ t.removeConversationsWithPeerIds →
    ∀ message ∈ keptMessages db t, message.cid = peerId → message.outgoing = false →
      (mentionFlags message.mid t.allUpdates).getLastD message.containsUnseenMention = false
  /-- One mention is read on arrival. -/
  arrival : ∀ message ∈ t.addMessages, ∀ other ∈ t.addMessages, message.cid = peerId → other.cid = peerId →
    t.isReadOnArrival message → t.isReadOnArrival other → message.mid = other.mid

end

/-! ## The table and the count -/

/-- The rows of the chat are those of the ids in `unseen`, and are counted. -/
structure MentionRows (peerId : Int) (db : ChatDatabase) (unseen : Int → Prop) : Prop where
  rows : ∀ mid, db.mentionMessageIds.Has (peerId, mid) ↔ unseen mid
  count : db.unseenMentionCount peerId = db.mentionMessageIds.rows.countP fun row => row.1 = peerId
  state : ∀ state, db.mentionStates.find peerId = some state → state.maxIdWithPrecalculatedCount = 0

variable {peerId : Int}

theorem countP_rows_of_mem (table : KeyedTable (id : Int × Int → Int × Int)) {mids : List Int} (hnd : mids.Nodup)
    (hmids : ∀ mid ∈ mids, table.Has (peerId, mid)) :
    table.rows.countP (fun row => row.1 = peerId ∧ row.2 ∈ mids) = mids.length := by
  have hrows : table.rows.Nodup := by simpa using table.nodup
  have hpairs : (mids.map fun mid => (peerId, mid)).Nodup := hnd.map fun _ _ h => (Prod.mk.inj h).2
  have hperm : (table.rows.filter fun row => row.1 = peerId ∧ row.2 ∈ mids).Perm (mids.map fun mid => (peerId, mid)) := by
    refine (perm_ext_iff_of_nodup (hrows.filter _) hpairs).mpr fun row => ?_
    rw [mem_filter, mem_map, decide_eq_true_eq]
    constructor
    · rintro ⟨-, rfl, hm⟩
      exact ⟨row.2, hm, rfl⟩
    · rintro ⟨mid, hm, rfl⟩
      obtain ⟨row, hrow, rfl⟩ := hmids mid hm
      exact ⟨hrow, rfl, hm⟩
  rw [countP_eq_length_filter, hperm.length_eq, length_map]

section
variable {peerId : Int} {db db' : ChatDatabase} {unseen unseen' : Int → Prop}

section
variable (h : MentionRows peerId db unseen)
include h

theorem MentionRows.congr (hunseen : ∀ mid, unseen mid ↔ unseen' mid) : MentionRows peerId db unseen' :=
  ⟨fun mid => (h.rows mid).trans (hunseen mid), h.count, h.state⟩

theorem MentionRows.of_same
    (hhas : ∀ mid, db'.mentionMessageIds.Has (peerId, mid) ↔ db.mentionMessageIds.Has (peerId, mid))
    (hcnt : db'.mentionMessageIds.rows.countP (fun row => row.1 = peerId) = db.mentionMessageIds.rows.countP fun row => row.1 = peerId)
    (hstate : db'.mentionStates.find peerId = db.mentionStates.find peerId) : MentionRows peerId db' unseen := by
  refine ⟨fun mid => (hhas mid).trans (h.rows mid), ?_, fun state hfind => h.state state (hstate ▸ hfind)⟩
  rw [hcnt, ← h.count, unseenMentionCount, hstate, ← unseenMentionCount]

theorem MentionRows.of_tables_eq (hrows : db'.mentionMessageIds = db.mentionMessageIds)
    (hstates : db'.mentionStates = db.mentionStates) : MentionRows peerId db' unseen :=
  h.of_same (fun mid => by rw [hrows]) (by rw [hrows]) (by rw [hstates])

end

variable {mid : Int}

section
variable (h : MentionRows peerId db unseen)
include h

theorem mentionRows_insert (hnew : ¬db.mentionMessageIds.Has (peerId, mid)) {state : TGUnseenPeerMentionsState}
    (hkey : state.peerId = peerId) (hcnt : state.count = db.unseenMentionCount peerId + 1)
    (hmax : state.maxIdWithPrecalculatedCount = 0) : MentionRows peerId { db with
      mentionStates := db.mentionStates.insertOrReplace state
      mentionMessageIds := db.mentionMessageIds.insertOrIgnore (peerId, mid) } (fun other => unseen other ∨ other = mid) := by
  have hfind : (db.mentionStates.insertOrReplace state).find peerId = some state := by
    rw [find_insertOrReplace, if_pos hkey]
  have hfree : db.mentionMessageIds.find (id (peerId, mid)) = none := KeyedTable.find_eq_none_iff_not_has.mpr hnew
  have hrows : (db.mentionMessageIds.insertOrIgnore (peerId, mid)).rows = db.mentionMessageIds.rows ++ [(peerId, mid)] := by
    rw [insertOrIgnore, dif_pos hfree]
  refine ⟨fun other => ?_, ?_, fun found hfound => ?_⟩
  · rw [has_insertOrIgnore, h.rows]
    simp [eq_comm]
  · rw [unseenMentionCount, hfind, hrows, countP_append, ← h.count]
    simpa using hcnt
  · obtain rfl : state = found := Option.some.inj (hfind.symm.trans hfound)
    exact hmax

theorem mentionRows_addUnreadMention (hpos : 0 < mid) :
    MentionRows peerId (db.addUnreadMention peerId mid) (fun other => unseen other ∨ other = mid) := by
  unfold addUnreadMention
  split
  · next hhas =>
    refine h.congr fun other => ⟨Or.inl, ?_⟩
    rintro (hold | rfl)
    · exact hold
    · exact (h.rows other).mp hhas
  · next hnew =>
    cases hstate : db.mentionStates.find peerId with
    | none =>
      refine mentionRows_insert h hnew rfl ?_ rfl
      rw [unseenMentionCount, hstate]
      rfl
    | some current =>
      have hmax := h.state current hstate
      dsimp only
      rw [if_pos (hmax.symm ▸ hpos)]
      have hkey : current.peerId = peerId := key_of_find hstate
      refine mentionRows_insert h hnew hkey ?_ hmax
      rw [unseenMentionCount, hstate]
      rfl

theorem mentionRows_markMentionsAsRead {mids : List Int} (hnd : mids.Nodup) (hmids : ∀ mid ∈ mids, unseen mid) :
    MentionRows peerId (db.markMentionsAsRead peerId mids) (fun other => unseen other ∧ other ∉ mids) := by
  have hcnt : (db.mentionMessageIds.deleteWhere fun row => row.1 = peerId ∧ row.2 ∈ mids).rows.countP
      (fun row => row.1 = peerId) = db.unseenMentionCount peerId - mids.length := by
    have hsplit := db.mentionMessageIds.countP_deleteWhere (fun row => row.1 = peerId)
      fun row => row.1 = peerId ∧ row.2 ∈ mids
    have hread := countP_rows_of_mem db.mentionMessageIds hnd fun mid hmid => (h.rows mid).mpr (hmids mid hmid)
    have hboth : (db.mentionMessageIds.rows.countP fun row =>
        decide (row.1 = peerId) && decide (row.1 = peerId ∧ row.2 ∈ mids)) = mids.length := by
      rw [← hread]
      refine countP_congr fun row _ => ?_
      simp
    rw [hboth] at hsplit
    rw [h.count]
    omega
  refine ⟨fun other => ?_, ?_, fun state hstate => ?_⟩
  · show (db.mentionMessageIds.deleteWhere _).Has (peerId, other) ↔ _
    rw [has_deleteWhere, ← h.rows other]
    constructor
    · rintro ⟨row, hrow, hkey, hstays⟩
      obtain rfl : row = (peerId, other) := hkey
      exact ⟨⟨_, hrow, rfl⟩, by simpa using hstays⟩
    · rintro ⟨⟨row, hrow, hkey⟩, hstays⟩
      obtain rfl : row = (peerId, other) := hkey
      exact ⟨_, hrow, rfl, by simpa using hstays⟩
  · show (((db.markMentionsAsRead peerId mids).mentionStates.find peerId).elim 0 TGUnseenPeerMentionsState.count) =
      (db.mentionMessageIds.deleteWhere _).rows.countP _
    rw [hcnt, unseenMentionCount, ChatDatabase.markMentionsAsRead]
    cases hstate : db.mentionStates.find peerId with
    | none => simp [hstate]
    | some current =>
      have hkey : current.peerId = peerId := key_of_find hstate
      dsimp only
      rw [find_insertOrReplace, if_pos hkey]
      rfl
  · rw [ChatDatabase.markMentionsAsRead] at hstate
    dsimp only at hstate
    cases hold : db.mentionStates.find peerId with
    | none =>
      rw [hold] at hstate
      exact absurd (hold.symm.trans hstate) (Option.some_ne_none state).symm
    | some current =>
      rw [hold] at hstate
      dsimp only at hstate
      have hkey : current.peerId = peerId := key_of_find hold
      rw [find_insertOrReplace] at hstate
      dsimp only at hstate
      rw [if_pos hkey] at hstate
      obtain rfl := Option.some.inj hstate
      exact h.state current hold

end

variable {other : Int}

theorem mentionRows_addUnreadMention_of_ne (h : MentionRows peerId db unseen) (hne : other ≠ peerId) (mid : Int) :
    MentionRows peerId (db.addUnreadMention other mid) unseen := by
  unfold addUnreadMention
  split
  · exact h
  · next hnew =>
    have hfree : db.mentionMessageIds.find (id (other, mid)) = none := KeyedTable.find_eq_none_iff_not_has.mpr hnew
    refine h.of_same (fun mid' => ?_) ?_ ?_
    · rw [has_insertOrIgnore]
      simp [hne]
    · have hrows : (db.mentionMessageIds.insertOrIgnore (other, mid)).rows = db.mentionMessageIds.rows ++ [(other, mid)] := by
        rw [insertOrIgnore, dif_pos hfree]
      rw [hrows, countP_append]
      simp [hne]
    · refine (find_insertOrReplace ..).trans (if_neg ?_)
      cases hstate : db.mentionStates.find other with
      | none => exact hne
      | some current =>
        have hkey : current.peerId = other := key_of_find hstate
        dsimp only
        split <;> exact hkey ▸ hne

theorem mentionRows_markMentionsAsRead_of_ne (h : MentionRows peerId db unseen) (hne : other ≠ peerId)
    (mids : List Int) : MentionRows peerId (db.markMentionsAsRead other mids) unseen := by
  refine h.of_same (fun mid => ?_) ?_ ?_
  · refine has_deleteWhere.trans ?_
    constructor
    · rintro ⟨row, hrow, hkey, -⟩
      exact ⟨row, hrow, hkey⟩
    · rintro ⟨row, hrow, hkey⟩
      obtain rfl : row = (peerId, mid) := hkey
      exact ⟨_, hrow, rfl, by simp [Ne.symm hne]⟩
  · show (db.mentionMessageIds.deleteWhere _).rows.countP _ = _
    rw [KeyedTable.deleteWhere, countP_filter]
    refine countP_congr fun row _ => ?_
    by_cases hrow : row.1 = peerId
    · simp [hrow, Ne.symm hne]
    · simp [hrow]
  · unfold ChatDatabase.markMentionsAsRead
    cases hstate : db.mentionStates.find other with
    | none => rfl
    | some current =>
      have hkey : current.peerId = other := key_of_find hstate
      exact (find_insertOrReplace ..).trans (if_neg (hkey ▸ hne))

theorem mentionRows_of_noMentions (h : NoMentions peerId db) : MentionRows peerId db fun _ => False := by
  have hnone : ∀ row ∈ db.mentionMessageIds.rows, ¬decide (row.1 = peerId) = true :=
    fun row hrow hkey => h.rows row hrow (of_decide_eq_true hkey)
  refine ⟨fun mid => ⟨?_, False.elim⟩, ?_, fun state hstate => ?_⟩
  · rintro ⟨row, hrow, hkey⟩
    exact h.rows row hrow (congrArg Prod.fst hkey)
  · rw [unseenMentionCount, h.state, countP_eq_zero.mpr hnone]
    rfl
  · rw [h.state] at hstate
    cases hstate

end

/-! ## The mentions of a table of messages -/

theorem isUnseenIn_iff {message : TGMessage} : isUnseenIn peerId message ↔
      message.cid = peerId ∧ message.outgoing = false ∧ message.containsUnseenMention = true := by
  simp [isUnseenIn, isUnseenMention]

def UnseenIn (peerId : Int) (messages : MessageTable) (mid : Int) : Prop :=
  ∃ message ∈ messages.rows, isUnseenIn peerId message ∧ message.mid = mid

section
variable {peerId : Int}

variable {messages : MessageTable} {message : TGMessage}

theorem unseenIn_mid_iff (h : message ∈ messages.rows) :
    UnseenIn peerId messages message.mid ↔ isUnseenIn peerId message := by
  constructor
  · rintro ⟨row, hrow, hunseen, hmid⟩
    rwa [messages.eq_of_key hrow h hmid] at hunseen
  · exact fun hunseen => ⟨message, h, hunseen, rfl⟩

variable {db : ChatDatabase}

theorem MentionRows.countP_messages (h : MentionRows peerId db (UnseenIn peerId messages)) :
    db.unseenMentionCount peerId = messages.rows.countP (isUnseenIn peerId) := by
  have hrows : db.mentionMessageIds.rows.Nodup := by simpa using db.mentionMessageIds.nodup
  have hmids : ((messages.rows.filter (isUnseenIn peerId)).map fun message => (peerId, message.mid)).Nodup := by
    have hnd : ((messages.rows.filter (isUnseenIn peerId)).map TGMessage.mid).Nodup :=
      messages.nodup.sublist (filter_sublist.map _)
    have hpairs := hnd.map (f := fun mid => (peerId, mid)) fun _ _ heq => (Prod.mk.inj heq).2
    rw [map_map] at hpairs
    exact hpairs
  have hperm : (db.mentionMessageIds.rows.filter fun row => row.1 = peerId).Perm
      ((messages.rows.filter (isUnseenIn peerId)).map fun message => (peerId, message.mid)) := by
    refine (perm_ext_iff_of_nodup (hrows.filter _) hmids).mpr fun row => ?_
    rw [mem_filter, mem_map, decide_eq_true_eq]
    constructor
    · rintro ⟨hrow, rfl⟩
      obtain ⟨message, hmsg, hunseen, hmid⟩ := (h.rows row.2).mp ⟨row, hrow, rfl⟩
      exact ⟨message, mem_filter.mpr ⟨hmsg, hunseen⟩, by rw [hmid]⟩
    · rintro ⟨message, hmsg, rfl⟩
      obtain ⟨hm, hunseen⟩ := mem_filter.mp hmsg
      obtain ⟨row, hrow, hkey⟩ := (h.rows message.mid).mpr ⟨message, hm, hunseen, rfl⟩
      obtain rfl : row = (peerId, message.mid) := hkey
      exact ⟨hrow, rfl⟩
  rw [h.count, countP_eq_length_filter, hperm.length_eq, length_map, countP_eq_length_filter]

/-- The mentions of the chat are those of its messages, whose ids are positive. -/
structure MentionsAre (peerId : Int) (db : ChatDatabase) : Prop where
  rows : MentionRows peerId db (UnseenIn peerId db.messages)
  positive : ∀ message ∈ db.messages.rows, message.cid = peerId → 0 < message.mid

theorem MentionsAre.match (h : MentionsAre peerId db) : MentionsMatch peerId db :=
  ⟨h.rows.countP_messages, h.rows.count⟩

theorem mentionsAre_of_noMentions (h : NoMentions peerId db) : MentionsAre peerId db := by
  refine ⟨(mentionRows_of_noMentions h).congr fun mid => ⟨False.elim, ?_⟩, fun message hmsg hcid => ?_⟩
  · rintro ⟨message, hmsg, hunseen, -⟩
    exact absurd (isUnseenIn_iff.mp hunseen).1 (h.messages message hmsg)
  · exact absurd hcid (h.messages message hmsg)

/-! ### Adding -/

theorem mentionsAre_addMessage (h : MentionsAre peerId db) (hpos : message.cid = peerId → 0 < message.mid)
    (hstor : isUnseenIn peerId message → ((db.messages.insertOrIgnore message).find message.mid).any (isUnseenIn peerId)) :
    MentionsAre peerId (ChatState.addMessage message.cid db message) := by
  have hmsgs : (ChatState.addMessage message.cid db message).messages = db.messages.insertOrIgnore message :=
    messages_addMessages message.cid [message] db
  refine ⟨?_, fun row hrow hcid => ?_⟩
  swap
  · rw [hmsgs] at hrow
    rcases mem_insertOrIgnore.mp hrow with hold | ⟨-, rfl⟩
    · exact h.positive row hold hcid
    · exact hpos hcid
  rw [hmsgs]
  have hunseen (mid : Int) : UnseenIn peerId (db.messages.insertOrIgnore message) mid ↔
      UnseenIn peerId db.messages mid ∨ isUnseenIn peerId message ∧ mid = message.mid := by
    constructor
    · rintro ⟨row, hrow, hrowUnseen, rfl⟩
      rcases mem_insertOrIgnore.mp hrow with hold | ⟨-, rfl⟩
      · exact .inl ⟨row, hold, hrowUnseen, rfl⟩
      · exact .inr ⟨hrowUnseen, rfl⟩
    · rintro (⟨row, hrow, hrowUnseen, rfl⟩ | ⟨hmsg, rfl⟩)
      · exact ⟨row, mem_insertOrIgnore.mpr (.inl hrow), hrowUnseen, rfl⟩
      · obtain ⟨row, hfind, hrowUnseen⟩ := (Option.any_eq_true ..).mp (hstor hmsg)
        obtain ⟨hrow, hmid⟩ := find_eq_some.mp hfind
        exact ⟨row, hrow, hrowUnseen, hmid⟩
  have hins (randomIds : List Int) : MentionRows peerId { db with
      messages := db.messages.insertOrIgnore message
      randomIds := randomIds } (UnseenIn peerId db.messages) := h.rows.of_tables_eq rfl rfl
  unfold ChatState.addMessage
  dsimp only
  split
  · next hmention =>
    have hmention : message.outgoing = false ∧ message.containsUnseenMention = true := by simpa using hmention
    by_cases hcid : message.cid = peerId
    · subst hcid
      refine (mentionRows_addUnreadMention (hins _) (hpos rfl)).congr fun mid => ?_
      rw [hunseen]
      simp [isUnseenIn_iff, hmention]
    · refine (mentionRows_addUnreadMention_of_ne (hins _) hcid message.mid).congr fun mid => ?_
      rw [hunseen]
      simp [isUnseenIn_iff, hcid]
  · next hmention =>
    have hmention : message.outgoing = false → message.containsUnseenMention = false := by simpa using hmention
    refine (hins _).congr fun mid => ?_
    rw [hunseen]
    have hnot : ¬isUnseenIn peerId message := fun h => by
      obtain ⟨-, hinc, hflag⟩ := isUnseenIn_iff.mp h
      rw [hmention hinc] at hflag
      cases hflag
    simp [hnot]

theorem mentionsAre_addMessages {messages : List TGMessage} (h : MentionsAre peerId db)
    (hpos : ∀ message ∈ messages, message.cid = peerId → 0 < message.mid) (hstor : ∀ message ∈ messages, isUnseenIn peerId message →
      ((db.messages.insertAll messages).find message.mid).any (isUnseenIn peerId)) :
    MentionsAre peerId (messages.foldl (fun db message => ChatState.addMessage message.cid db message) db) := by
  induction messages generalizing db with
  | nil => exact h
  | cons message messages ih =>
    have hfirst : (ChatState.addMessage message.cid db message).messages = db.messages.insertOrIgnore message :=
      messages_addMessages message.cid [message] db
    refine ih (mentionsAre_addMessage h (hpos message mem_cons_self) fun hunseen => ?_)
      (fun other hother => hpos other (mem_cons_of_mem message hother)) fun other hother hunseen => ?_
    · have hany := hstor message mem_cons_self hunseen
      rw [KeyedTable.find_insertAll] at hany
      rw [KeyedTable.find_insertOrIgnore]
      simpa using hany
    · rw [hfirst]
      exact hstor other (mem_cons_of_mem message hother) hunseen

theorem db_addPeerMessages (peerId : Int) (messages : List TGMessage) (s : ChatState) :
    (s.addPeerMessages peerId messages).db =
      (messages.filter fun message => !message.clearsChat).foldl (ChatState.addMessage peerId) s.db := by
  unfold addPeerMessages
  dsimp only
  split
  · split <;> rfl
  · split <;> rfl

theorem db_addAll (t : ChatTransaction) (db : ChatDatabase) (s : ChatState) : (t.addAll db s).db =
      (t.addedRows db).foldl (fun db message => ChatState.addMessage message.cid db message) s.db := by
  unfold ChatTransaction.addAll ChatTransaction.addedRows
  dsimp only
  generalize t.peerOrder.read ((t.freshMessages db).map TGMessage.cid).dedup = peerIds
  induction peerIds generalizing s with
  | nil => rfl
  | cons other peerIds ih =>
    rw [foldl_cons, ih, flatMap_cons, foldl_append, db_addPeerMessages]
    congr 1
    refine foldl_ext _ _ _ fun db message hmsg => ?_
    have hcid : message.cid = other := by
      simpa using (mem_filter.mp (mem_filter.mp hmsg).1).2
    rw [hcid]

/-! ### Removing -/

variable {mids : List Int} {mid : Int}

theorem mem_removedOf {p : TGMessage → Bool} :
    mid ∈ removedOf p messages mids ↔ mid ∈ mids ∧ (messages.find mid).any p := by
  induction mids generalizing messages with
  | nil => simp [removedOf]
  | cons first mids ih =>
    have hrest : ((messages.deleteWhere fun message => message.mid = first).find mid).any p ↔
        mid ≠ first ∧ (messages.find mid).any p := by
      rw [find_deleteWhere]
      cases hfind : messages.find mid with
      | none => simp
      | some message =>
        have hkey : message.mid = mid := key_of_find hfind
        by_cases hmid : mid = first <;> simp [hkey, hmid]
    rw [removedOf]
    split
    · next hfirst =>
      rw [mem_cons, ih, hrest, mem_cons]
      by_cases hmid : mid = first
      · subst hmid
        simp [hfirst]
      · simp [hmid]
    · next hfirst =>
      rw [ih, hrest, mem_cons]
      by_cases hmid : mid = first
      · subst hmid
        simp [hfirst]
      · simp [hmid]

theorem nodup_removedOf (p : TGMessage → Bool) (messages : MessageTable) (mids : List Int) :
    (removedOf p messages mids).Nodup := by
  induction mids generalizing messages with
  | nil => exact nodup_nil
  | cons first mids ih =>
    rw [removedOf]
    split
    · refine nodup_cons.mpr ⟨fun hm => ?_, ih _⟩
      have hgone := (mem_removedOf.mp hm).2
      rw [find_deleteWhere] at hgone
      cases hfind : messages.find first with
      | none =>
        rw [hfind] at hgone
        cases hgone
      | some message =>
        have hkey : message.mid = first := key_of_find hfind
        simp [hfind, hkey] at hgone
    · exact ih _

theorem db_removePeerMessages (peerId : Int) (mids : List Int) (s : ChatState) :
    ∃ messages, messages = s.db.messages.deleteWhere (fun message => message.mid ∈ mids) ∧
      (s.removePeerMessages peerId mids).db = { s.db with messages := messages }.markMentionsAsRead peerId
        (removedOf TGMessage.containsUnseenMention s.db.messages mids) := by
  refine ⟨_, rfl, ?_⟩
  unfold removePeerMessages
  dsimp only
  split
  · split <;> rfl
  · rfl

variable {s : ChatState}

theorem mentionsAre_removePeerMessages (h : MentionsAre peerId s.db) {other : Int}
    (hrem : ∀ message ∈ s.db.messages.rows, message.containsUnseenMention → message.mid ∈ mids →
      (other = peerId ↔ isUnseenIn peerId message)) : MentionsAre peerId (s.removePeerMessages other mids).db := by
  obtain ⟨messages, rfl, hdb⟩ := db_removePeerMessages other mids s
  rw [hdb]
  refine ⟨?_, fun row hrow hcid => h.positive row (mem_deleteWhere.mp hrow).1 hcid⟩
  have hrows : MentionRows peerId { s.db with messages := s.db.messages.deleteWhere fun message => message.mid ∈ mids }
      (UnseenIn peerId s.db.messages) := h.rows.of_tables_eq rfl rfl
  show MentionRows peerId _ (UnseenIn peerId (s.db.messages.deleteWhere fun message => message.mid ∈ mids))
  have hrest (mid : Int) : UnseenIn peerId (s.db.messages.deleteWhere fun message => message.mid ∈ mids) mid ↔
      UnseenIn peerId s.db.messages mid ∧ mid ∉ mids := by
    constructor
    · rintro ⟨row, hrow, hunseen, rfl⟩
      obtain ⟨hm, hstays⟩ := mem_deleteWhere.mp hrow
      exact ⟨⟨row, hm, hunseen, rfl⟩, by simpa using hstays⟩
    · rintro ⟨⟨row, hrow, hunseen, rfl⟩, hstays⟩
      exact ⟨row, mem_deleteWhere.mpr ⟨hrow, by simpa using hstays⟩, hunseen, rfl⟩
  by_cases hother : other = peerId
  · subst hother
    have hm (mid : Int) : mid ∈ removedOf TGMessage.containsUnseenMention s.db.messages mids ↔
        mid ∈ mids ∧ UnseenIn other s.db.messages mid := by
      rw [mem_removedOf]
      refine and_congr_right fun hmid => ⟨fun hany => ?_, ?_⟩
      · obtain ⟨row, hfind, hflag⟩ := (Option.any_eq_true ..).mp hany
        obtain ⟨hrow, rfl⟩ := find_eq_some.mp hfind
        exact ⟨row, hrow, (hrem row hrow hflag hmid).mp rfl, rfl⟩
      · rintro ⟨row, hrow, hunseen, rfl⟩
        exact (Option.any_eq_true ..).mpr ⟨row, find_key hrow, (isUnseenIn_iff.mp hunseen).2.2⟩
    have hread := mentionRows_markMentionsAsRead hrows (nodup_removedOf TGMessage.containsUnseenMention s.db.messages mids)
      fun mid hmid => ((hm mid).mp hmid).2
    refine hread.congr fun mid => ?_
    rw [hrest, hm]
    tauto
  · refine (mentionRows_markMentionsAsRead_of_ne hrows hother _).congr fun mid => ?_
    rw [hrest, iff_self_and]
    rintro ⟨row, hrow, hunseen, rfl⟩ hmid
    exact hother ((hrem row hrow (isUnseenIn_iff.mp hunseen).2.2 hmid).mpr hunseen)

theorem mentionsAre_removeAll {t : ChatTransaction} (h : MentionsAre peerId s.db)
    (hrem : ∀ message ∈ s.db.messages.rows, message.containsUnseenMention →
      ∀ other ∈ removalPeerIds db t.allRemovals, message.mid ∈ removalIds db t.allRemovals other →
        (other = peerId ↔ isUnseenIn peerId message)) : MentionsAre peerId (t.removeAll db s).db := by
  have hfold (others : List Int) : ∀ s : ChatState, MentionsAre peerId s.db →
      (∀ other ∈ others, other ∈ removalPeerIds db t.allRemovals) →
      (∀ message ∈ s.db.messages.rows, message.containsUnseenMention →
        ∀ other ∈ removalPeerIds db t.allRemovals, message.mid ∈ removalIds db t.allRemovals other →
          (other = peerId ↔ isUnseenIn peerId message)) → MentionsAre peerId (others.foldl (fun s other =>
        s.removePeerMessages other (removalIds db t.allRemovals other)) s).db := by
    induction others with
    | nil => exact fun s hs _ _ => hs
    | cons other others ih =>
      intro s hs hothers hrem
      have hother := hothers other mem_cons_self
      refine ih _ (mentionsAre_removePeerMessages hs fun message hmsg hflag hmid =>
        hrem message hmsg hflag other hother hmid)
        (fun o ho => hothers o (mem_cons_of_mem other ho)) fun message hmsg => ?_
      rw [messages_removePeerMessages] at hmsg
      exact hrem message (mem_deleteWhere.mp hmsg).1
  exact hfold _ s h (fun other hother => (mem_removalOrder t db).mp hother) hrem

/-! ### Updating -/

def marksFor (peerId : Int) (marks : List (Int × Int)) : List Int :=
  (marks.filter fun mark => mark.1 = peerId).map Prod.snd

theorem marksFor_append (marks more : List (Int × Int)) :
    marksFor peerId (marks ++ more) = marksFor peerId marks ++ marksFor peerId more := by
  simp [marksFor]

variable {marks : List (Int × Int)}

theorem marksFor_of_forall_ne (h : ∀ mark ∈ marks, mark.1 ≠ peerId) : marksFor peerId marks = [] := by
  rw [marksFor, filter_eq_nil_iff.mpr fun mark hmark => by simpa using h mark hmark, map_nil]

variable {flag : Bool}

theorem mentionFlags_cons_of_eq (update : TGDatabaseUpdateMessage) (hflag : update.mentionFlag = some flag)
    (updates : List TGDatabaseUpdateMessage) :
    mentionFlags update.messageId (update :: updates) = flag :: mentionFlags update.messageId updates := by
  simp [mentionFlags, hflag]

variable {update : TGDatabaseUpdateMessage}

theorem mentionFlags_cons_of_ne (hne : update.messageId ≠ mid) (updates : List TGDatabaseUpdateMessage) :
    mentionFlags mid (update :: updates) = mentionFlags mid updates := by
  simp [mentionFlags, hne]

/-- What an update in its place leaves of an incoming message. -/
structure SetsFlag (message updated : TGMessage) (flag : Bool) (reads unreads : List (Int × Int)) : Prop where
  updated : updated.containsUnseenMention = flag
  reads : reads = if message.containsUnseenMention = true ∧ flag = false then [(message.cid, message.mid)] else []
  unreads : unreads = [] ∧ (flag = true → message.containsUnseenMention = true) ∨
    unreads = [(message.cid, message.mid)] ∧ flag = true

variable {updated : TGMessage} {reads unreads : List (Int × Int)}

section
variable (h : UpdatesTo message update updated reads unreads)
include h

theorem UpdatesTo.mid_eq (hplace : update.IsInPlace) (hmid : message.mid = update.messageId) :
    updated.mid = message.mid := by
  cases h with
  | delivered => exact hplace.elim
  | read _ _ _ hsame | contentsRead _ _ _ hsame => exact hsame
  | unread => rfl
  | _ => exact hplace.trans hmid.symm

theorem UpdatesTo.marks_cid : (∀ mark ∈ reads, mark.1 = message.cid) ∧ ∀ mark ∈ unreads, mark.1 = message.cid := by
  cases h <;> simp

theorem UpdatesTo.setsFlag (hplace : update.IsInPlace) (hmid : message.mid = update.messageId)
    (hinc : message.outgoing = false) :
    ∃ flag, update.mentionFlag = some flag ∧ SetsFlag message updated flag reads unreads := by
  have hunseen : isUnseenMention message = message.containsUnseenMention := by simp [isUnseenMention, hinc]
  cases h with
  | delivered => exact hplace.elim
  | read messageId _ hmention _ _ hflag =>
    rw [hunseen] at hmention
    obtain rfl : message.mid = messageId := hmid
    exact ⟨false, rfl, hflag, by simp [hmention], .inl ⟨rfl, fun hfalse => by cases hfalse⟩⟩
  | contentsRead _ _ hmention _ _ hflag =>
    rw [hunseen] at hmention
    exact ⟨false, rfl, hflag.trans hmention, by simp [hmention], .inl ⟨rfl, fun hfalse => by cases hfalse⟩⟩
  | unread messageId =>
    obtain rfl : message.mid = messageId := hmid
    exact ⟨true, rfl, rfl, by simp, .inr ⟨rfl, rfl⟩⟩
  | replaced _ _ hflag =>
    refine ⟨_, rfl, rfl, ?_, .inl ⟨rfl, fun hnew => hflag.symm.trans hnew⟩⟩
    rw [if_neg fun hboth => by rw [hflag, hboth.1] at hboth; cases hboth.2]
  | replacedRead messageId _ hold hnew =>
    obtain rfl : message.mid = messageId := hmid
    exact ⟨_, rfl, rfl, by simp [hold, hnew], .inl ⟨rfl, fun hset => by rw [hnew] at hset; cases hset⟩⟩
  | replacedUnread messageId _ hold hnew =>
    obtain rfl : message.mid = messageId := hmid
    exact ⟨_, rfl, rfl, by simp [hold], .inr ⟨rfl, hnew⟩⟩

end

variable {updates : List TGDatabaseUpdateMessage}

theorem UpdatesTo.leavesFlag (h : UpdatesTo message update updated reads unreads) (hplace : update.IsInPlace)
    (hmid : message.mid = update.messageId) (hout : message.outgoing = true)
    (hleaves : LeavesFlag message (update :: updates)) :
    updated.containsUnseenMention = message.containsUnseenMention ∧ reads = [] ∧ unreads = [] := by
  have hown := hleaves update mem_cons_self hmid.symm
  cases h with
  | delivered => exact hplace.elim
  | read _ _ hmention => simp [isUnseenMention, hout] at hmention
  | contentsRead _ _ _ _ _ hflag | replaced _ _ hflag => exact ⟨hflag, rfl, rfl⟩
  | unread => exact hown.elim
  | replacedRead _ _ hold hnew | replacedUnread _ _ hold hnew =>
    have hsame : updated.containsUnseenMention = message.containsUnseenMention := hown
    rw [hold, hnew] at hsame
    cases hsame

variable {row : TGMessage}

theorem mem_storeUpdated (hmsg : message ∈ s.db.messages.rows) (hmid : updated.mid = message.mid) :
    row ∈ (s.storeUpdated message updated).db.messages.rows ↔
      row ∈ s.db.messages.rows ∧ row.mid ≠ message.mid ∨ row = message.updateTo updated := by
  have hrows : (s.storeUpdated message updated).db.messages.rows =
      s.db.messages.rows.map fun row => if row.mid = message.mid then row.updateTo updated else row := by
    unfold ChatState.storeUpdated
    dsimp only
    rw [if_pos hmid.symm]
    rfl
  rw [hrows, mem_map]
  constructor
  · rintro ⟨old, hold, rfl⟩
    split
    · next hkey => exact .inr (by rw [s.db.messages.eq_of_key hold hmsg hkey])
    · next hkey => exact .inl ⟨hold, hkey⟩
  · rintro (⟨hrow, hkey⟩ | rfl)
    · exact ⟨row, hrow, if_neg hkey⟩
    · exact ⟨message, hmsg, if_pos rfl⟩

theorem unseenIn_storeUpdated (hmsg : message ∈ s.db.messages.rows) (hmid : updated.mid = message.mid) (mid : Int) :
    UnseenIn peerId (s.storeUpdated message updated).db.messages mid ↔
      UnseenIn peerId s.db.messages mid ∧ mid ≠ message.mid ∨
        mid = message.mid ∧ isUnseenIn peerId (message.updateTo updated) := by
  constructor
  · rintro ⟨row, hrow, hunseen, rfl⟩
    rcases (mem_storeUpdated hmsg hmid).mp hrow with ⟨hold, hne⟩ | rfl
    · exact .inl ⟨⟨row, hold, hunseen, rfl⟩, hne⟩
    · exact .inr ⟨rfl, hunseen⟩
  · rintro (⟨⟨row, hrow, hunseen, rfl⟩, hne⟩ | ⟨rfl, hunseen⟩)
    · exact ⟨row, (mem_storeUpdated hmsg hmid).mpr (.inl ⟨hrow, hne⟩), hunseen, rfl⟩
    · exact ⟨_, (mem_storeUpdated hmsg hmid).mpr (.inr rfl), hunseen, rfl⟩

/-- **The marks of a chat**, of which `unseen` were the mentions before: no mention is marked as read twice, and what is
unseen now follows from the marks. `updates` are those to come. -/
structure MarksOf (peerId : Int) (unseen : Int → Prop) (s : ChatState) (updates : List TGDatabaseUpdateMessage) : Prop where
  nodup : (marksFor peerId s.markAsRead).Nodup
  marked : ∀ mid ∈ marksFor peerId s.markAsRead, unseen mid ∨ mid ∈ marksFor peerId s.markAsUnread
  unseen : ∀ mid, UnseenIn peerId s.db.messages mid ↔
    (unseen mid ∨ mid ∈ marksFor peerId s.markAsUnread) ∧ mid ∉ marksFor peerId s.markAsRead
  positive : ∀ mid ∈ marksFor peerId s.markAsUnread, 0 < mid
  ids : ∀ message ∈ s.db.messages.rows, message.cid = peerId → 0 < message.mid
  incoming : ∀ message ∈ s.db.messages.rows, message.cid = peerId → message.outgoing = false →
    ReadLast message.containsUnseenMention (mentionFlags message.mid updates) ∧
      (message.mid ∈ marksFor peerId s.markAsRead → ∀ flag ∈ mentionFlags message.mid updates, flag = false)
  outgoing : ∀ message ∈ s.db.messages.rows, message.cid = peerId → message.outgoing = true → LeavesFlag message updates

theorem LeavesFlag.tail (h : LeavesFlag message (update :: updates)) : LeavesFlag message updates :=
  fun other hother => h other (mem_cons_of_mem update hother)

variable {flags : List Bool}

theorem readLast_of_forall (h : ∀ later ∈ flags, later = false) : ReadLast false flags := by
  induction flags with
  | nil => trivial
  | cons next flags ih =>
    obtain ⟨rfl, hrest⟩ := forall_mem_cons.mp h
    simpa [ReadLast] using ih hrest

theorem ReadLast.tail {next : Bool} (h : ReadLast flag (next :: flags)) : ReadLast next flags := by
  unfold ReadLast at h
  split at h
  · next hread =>
    rw [hread.2]
    exact readLast_of_forall h
  · exact h

section
variable {unseen : Int → Prop} {s : ChatState} {update : TGDatabaseUpdateMessage} {updates : List TGDatabaseUpdateMessage}

section
variable (h : MarksOf peerId unseen s (update :: updates))
include h

theorem MarksOf.skip (hskip : ∀ message, s.db.messages.find update.messageId = some message →
      ∃ messageId, update = .contentsRead messageId ∧ message.containsUnseenMention = false) :
    MarksOf peerId unseen s updates := by
  refine ⟨h.nodup, h.marked, h.unseen, h.positive, h.ids, fun message hmsg hcid hinc => ?_,
    fun message hmsg hcid hout => (h.outgoing message hmsg hcid hout).tail⟩
  obtain ⟨hlast, hread⟩ := h.incoming message hmsg hcid hinc
  by_cases hmid : update.messageId = message.mid
  · obtain ⟨messageId, rfl, hflag⟩ := hskip message (hmid ▸ find_key hmsg)
    obtain rfl : messageId = message.mid := hmid
    have hcons := mentionFlags_cons_of_eq (.contentsRead message.mid) rfl updates
    have hflags : mentionFlags message.mid (.contentsRead message.mid :: updates) =
        false :: mentionFlags message.mid updates := hcons
    rw [hflags] at hlast hread
    rw [hflag]
    exact ⟨hlast.tail, fun hm flag hin => hread hm flag (mem_cons_of_mem false hin)⟩
  · rw [mentionFlags_cons_of_ne hmid] at hlast hread
    exact ⟨hlast, hread⟩

theorem MarksOf.write (hmsg : message ∈ s.db.messages.rows) (hid : message.mid = update.messageId)
    (hmid : updated.mid = message.mid) (hother : message.cid = peerId → message.outgoing = true ∧
      updated.containsUnseenMention = message.containsUnseenMention)
    (hreads : marksFor peerId reads = []) (hunreads : marksFor peerId unreads = []) :
    MarksOf peerId unseen ((s.addMarks reads unreads).storeUpdated message updated) updates := by
  have hreads' : marksFor peerId (s.markAsRead ++ reads) = marksFor peerId s.markAsRead := by
    rw [marksFor_append, hreads, append_nil]
  have hunreads' : marksFor peerId (s.markAsUnread ++ unreads) = marksFor peerId s.markAsUnread := by
    rw [marksFor_append, hunreads, append_nil]
  have hstor : message ∈ (s.addMarks reads unreads).db.messages.rows := hmsg
  have hnotBefore : ¬isUnseenIn peerId message := fun hunseen => by
    obtain ⟨hcid, hinc, -⟩ := isUnseenIn_iff.mp hunseen
    rw [(hother hcid).1] at hinc
    cases hinc
  have hnotAfter : ¬isUnseenIn peerId (message.updateTo updated) := fun hunseen => by
    obtain ⟨hcid, hinc, -⟩ := isUnseenIn_iff.mp hunseen
    have hout : (message.updateTo updated).outgoing = true := (hother hcid).1
    rw [hout] at hinc
    cases hinc
  constructor
  · show (marksFor peerId (s.markAsRead ++ reads)).Nodup
    rw [hreads']
    exact h.nodup
  · show ∀ mid ∈ marksFor peerId (s.markAsRead ++ reads), unseen mid ∨ mid ∈ marksFor peerId (s.markAsUnread ++ unreads)
    rw [hreads', hunreads']
    exact h.marked
  · intro mid
    show _ ↔ (unseen mid ∨ mid ∈ marksFor peerId (s.markAsUnread ++ unreads)) ∧ mid ∉ marksFor peerId (s.markAsRead ++ reads)
    rw [hreads', hunreads', ← h.unseen, unseenIn_storeUpdated hstor hmid]
    constructor
    · rintro (⟨hunseen, -⟩ | ⟨-, hunseen⟩)
      · exact hunseen
      · exact absurd hunseen hnotAfter
    · intro hunseen
      refine .inl ⟨hunseen, ?_⟩
      rintro rfl
      exact hnotBefore ((unseenIn_mid_iff hmsg).mp hunseen)
  · show ∀ mid ∈ marksFor peerId (s.markAsUnread ++ unreads), 0 < mid
    rw [hunreads']
    exact h.positive
  · intro row hrow hcid
    rcases (mem_storeUpdated hstor hmid).mp hrow with ⟨hold, -⟩ | rfl
    · exact h.ids row hold hcid
    · exact h.ids message hmsg hcid
  · intro row hrow hcid hinc
    show _ ∧ (row.mid ∈ marksFor peerId (s.markAsRead ++ reads) → _)
    rw [hreads']
    rcases (mem_storeUpdated hstor hmid).mp hrow with ⟨hold, hne⟩ | rfl
    · have hold' := h.incoming row hold hcid hinc
      rwa [mentionFlags_cons_of_ne fun heq => hne (heq.symm.trans hid.symm)] at hold'
    · have hout : (message.updateTo updated).outgoing = true := (hother hcid).1
      rw [hout] at hinc
      cases hinc
  · intro row hrow hcid hout
    rcases (mem_storeUpdated hstor hmid).mp hrow with ⟨hold, -⟩ | rfl
    · exact (h.outgoing row hold hcid hout).tail
    · have hleaves := (h.outgoing message hmsg hcid hout).tail
      intro later hlater hmid'
      have hkeeps := hleaves later hlater hmid'
      cases later with
      | mentionUnread => exact hkeeps
      | withMessage _ next =>
        have hsame : next.containsUnseenMention = message.containsUnseenMention := hkeeps
        exact hsame.trans (hother hcid).2.symm
      | deliveredInBackground | contentsRead => trivial

theorem MarksOf.writeIncoming (hmsg : message ∈ s.db.messages.rows) (hid : message.mid = update.messageId)
    (hmid : updated.mid = message.mid) (hcid : message.cid = peerId) (hinc : message.outgoing = false)
    (hflag : update.mentionFlag = some flag) (hsets : SetsFlag message updated flag reads unreads) :
    MarksOf peerId unseen ((s.addMarks reads unreads).storeUpdated message updated) updates := by
  subst hcid
  have hstor : message ∈ (s.addMarks reads unreads).db.messages.rows := hmsg
  have hflags : mentionFlags message.mid (update :: updates) = flag :: mentionFlags message.mid updates := by
    rw [hid]
    exact mentionFlags_cons_of_eq update hflag updates
  obtain ⟨hlast, hread⟩ := h.incoming message hmsg rfl hinc
  rw [hflags] at hlast hread
  have hbefore : UnseenIn message.cid s.db.messages message.mid ↔ message.containsUnseenMention = true := by
    rw [unseenIn_mid_iff hmsg, isUnseenIn_iff]
    simp [hinc]
  have hafter : isUnseenIn message.cid (message.updateTo updated) ↔ flag = true := by
    rw [isUnseenIn_iff, ← hsets.updated]
    simp [TGMessage.updateTo, hinc]
  have hstate := h.unseen message.mid
  rw [hbefore] at hstate
  -- a flag is set again only where the mention is not marked as read
  have hunread : flag = true → message.mid ∉ marksFor message.cid s.markAsRead := by
    rintro rfl hm
    exact absurd (hread hm true mem_cons_self) (by decide)
  have hreads : ∀ mid, mid ∈ marksFor message.cid (s.markAsRead ++ reads) ↔ mid ∈ marksFor message.cid s.markAsRead ∨
      mid = message.mid ∧ message.containsUnseenMention = true ∧ flag = false := by
    intro mid
    rw [marksFor_append, hsets.reads, mem_append]
    split
    · next hboth => simp [marksFor, hboth]
    · next hboth => simp [marksFor, hboth]
  obtain ⟨raised, hunreads, hraised, hset⟩ : ∃ raised : Prop,
      (∀ mid, mid ∈ marksFor message.cid (s.markAsUnread ++ unreads) ↔ mid ∈ marksFor message.cid s.markAsUnread ∨
        mid = message.mid ∧ raised) ∧ (raised → flag = true) ∧
      (flag = true → message.containsUnseenMention = true ∨ raised) := by
    rcases hsets.unreads with ⟨rfl, hkept⟩ | ⟨rfl, hflag⟩
    · exact ⟨False, fun mid => by simp, False.elim, fun hflag => .inl (hkept hflag)⟩
    · refine ⟨True, fun mid => ?_, fun _ => hflag, fun _ => .inr trivial⟩
      rw [marksFor_append, mem_append]
      simp [marksFor]
  constructor
  · show (marksFor message.cid (s.markAsRead ++ reads)).Nodup
    rw [marksFor_append, hsets.reads]
    split
    · next hboth =>
      have hfree := (hstate.mp hboth.1).2
      have hsingle : marksFor message.cid [(message.cid, message.mid)] = [message.mid] := by simp [marksFor]
      rw [hsingle]
      refine nodup_append.mpr ⟨h.nodup, nodup_singleton _, fun mid hm other hother heq => ?_⟩
      exact hfree (mem_singleton.mp hother ▸ heq ▸ hm)
    · simpa [marksFor] using h.nodup
  · intro mid hm
    show unseen mid ∨ mid ∈ marksFor message.cid (s.markAsUnread ++ unreads)
    rw [hunreads]
    rcases (hreads mid).mp hm with hold | ⟨rfl, hwas, -⟩
    · exact (h.marked mid hold).imp_right Or.inl
    · exact (hstate.mp hwas).1.imp_right Or.inl
  · intro mid
    show _ ↔ (unseen mid ∨ mid ∈ marksFor message.cid (s.markAsUnread ++ unreads)) ∧
      mid ∉ marksFor message.cid (s.markAsRead ++ reads)
    rw [unseenIn_storeUpdated hstor hmid, hafter, hreads, hunreads]
    by_cases hown : mid = message.mid
    · subst hown
      cases hflagValue : flag with
      | true =>
        have hfree := hunread hflagValue
        have hsome : unseen message.mid ∨ message.mid ∈ marksFor message.cid s.markAsUnread ∨ raised :=
          (hset hflagValue).elim (fun hwas => (hstate.mp hwas).1.imp_right Or.inl) fun hr => .inr (.inr hr)
        simpa [hfree] using hsome
      | false =>
        have hnot : ¬raised := fun hr => by
          rw [hraised hr] at hflagValue
          cases hflagValue
        simp only [ne_eq, not_true, and_false, Bool.false_eq_true, false_iff, hnot, or_false, true_and, and_true,
          not_or, Bool.not_eq_true, not_and]
        intro hsome hfree
        simpa using hstate.mpr ⟨hsome, hfree⟩
    · have hsame : UnseenIn message.cid (s.addMarks reads unreads).db.messages mid ↔ _ := h.unseen mid
      simpa [hown] using hsame
  · intro mid hm
    rcases (hunreads mid).mp hm with hold | ⟨rfl, -⟩
    · exact h.positive mid hold
    · exact h.ids message hmsg rfl
  · intro row hrow hcid
    rcases (mem_storeUpdated hstor hmid).mp hrow with ⟨hold, -⟩ | rfl
    · exact h.ids row hold hcid
    · exact h.ids message hmsg rfl
  · intro row hrow hcid hrowIncoming
    show _ ∧ (row.mid ∈ marksFor message.cid (s.markAsRead ++ reads) → _)
    rw [hreads]
    rcases (mem_storeUpdated hstor hmid).mp hrow with ⟨hold, hne⟩ | rfl
    · have hold' := h.incoming row hold hcid hrowIncoming
      rw [mentionFlags_cons_of_ne fun heq => hne (heq.symm.trans hid.symm)] at hold'
      exact ⟨hold'.1, fun hm => hold'.2 (hm.resolve_right fun hown => hne hown.1)⟩
    · have hval : (message.updateTo updated).containsUnseenMention = flag := hsets.updated
      rw [hval]
      refine ⟨hlast.tail, ?_⟩
      rintro (hold | ⟨-, hwas, rfl⟩)
      · exact fun later hlater => hread hold later (mem_cons_of_mem flag hlater)
      · have hall : ∀ later ∈ mentionFlags message.mid updates, later = false := by simpa [ReadLast, hwas] using hlast
        exact hall
  · intro row hrow hcid hout
    rcases (mem_storeUpdated hstor hmid).mp hrow with ⟨hold, -⟩ | rfl
    · exact (h.outgoing row hold hcid hout).tail
    · have hsame : (message.updateTo updated).outgoing = false := hinc
      rw [hsame] at hout
      cases hout

theorem MarksOf.step (hplace : update.IsInPlace) : MarksOf peerId unseen (s.updateMessage update) updates := by
  rcases updateMessage_cases s update with ⟨hsame, hskip⟩ | ⟨message, updated, reads, unreads, hfind, hupdates, hupd⟩
  · rw [hsame]
    exact h.skip hskip
  · obtain ⟨hmsg, hid⟩ := find_eq_some.mp hfind
    have hmid := hupdates.mid_eq hplace hid
    rw [hupd]
    by_cases hcid : message.cid = peerId
    · cases hout : message.outgoing with
      | false =>
        obtain ⟨flag, hflag, hsets⟩ := hupdates.setsFlag hplace hid hout
        exact h.writeIncoming hmsg hid hmid hcid hout hflag hsets
      | true =>
        obtain ⟨hsame, rfl, rfl⟩ := hupdates.leavesFlag hplace hid hout (h.outgoing message hmsg hcid hout)
        exact h.write hmsg hid hmid (fun _ => ⟨hout, hsame⟩) rfl rfl
    · obtain ⟨hreads, hunreads⟩ := hupdates.marks_cid
      refine h.write hmsg hid hmid (fun heq => absurd heq hcid) ?_ ?_
      · exact marksFor_of_forall_ne fun mark hmark => (hreads mark hmark).symm ▸ hcid
      · exact marksFor_of_forall_ne fun mark hmark => (hunreads mark hmark).symm ▸ hcid

end

theorem MarksOf.run (h : MarksOf peerId unseen s updates) (hplace : ∀ update ∈ updates, update.IsInPlace) :
    MarksOf peerId unseen (updates.foldl ChatState.updateMessage s) [] := by
  induction updates generalizing s with
  | nil => exact h
  | cons update updates ih =>
    obtain ⟨hfirst, hrest⟩ := forall_mem_cons.mp hplace
    exact ih (h.step hfirst) hrest

end

/-! ### The end of a transaction -/

variable {unseen : Int → Prop}

theorem mentionRows_addUnreadMentions (h : MentionRows peerId db unseen)
    (hpos : ∀ mid ∈ marksFor peerId marks, 0 < mid) :
    MentionRows peerId (marks.foldl (fun db mark => db.addUnreadMention mark.1 mark.2) db)
      (fun mid => unseen mid ∨ mid ∈ marksFor peerId marks) := by
  induction marks generalizing db unseen with
  | nil => exact h.congr fun mid => by simp [marksFor]
  | cons mark marks ih =>
    obtain ⟨other, mid⟩ := mark
    by_cases hother : other = peerId
    · subst hother
      have hcons : marksFor other ((other, mid) :: marks) = mid :: marksFor other marks := by simp [marksFor]
      rw [hcons] at hpos ⊢
      obtain ⟨hfirst, hrest⟩ := forall_mem_cons.mp hpos
      refine (ih (mentionRows_addUnreadMention h hfirst) hrest).congr fun mid' => ?_
      simp [or_assoc]
    · have hcons : marksFor peerId ((other, mid) :: marks) = marksFor peerId marks := by simp [marksFor, hother]
      rw [hcons] at hpos ⊢
      exact ih (mentionRows_addUnreadMention_of_ne h hother mid) hpos

theorem mentionRows_applyMentionMarks (h : MentionRows peerId s.db unseen)
    (hpos : ∀ mid ∈ marksFor peerId s.markAsUnread, 0 < mid) (hnd : (marksFor peerId s.markAsRead).Nodup)
    (hmarked : ∀ mid ∈ marksFor peerId s.markAsRead, unseen mid ∨ mid ∈ marksFor peerId s.markAsUnread)
    (peerOrder : RowOrder Int) : MentionRows peerId (s.applyMentionMarks peerOrder).db
      (fun mid => (unseen mid ∨ mid ∈ marksFor peerId s.markAsUnread) ∧ mid ∉ marksFor peerId s.markAsRead) := by
  have hunread := mentionRows_addUnreadMentions h hpos
  let mids : Int → List Int := fun other => marksFor other s.markAsRead
  have hothers (others : List Int) (hnot : peerId ∉ others) : ∀ {db : ChatDatabase} {unseen : Int → Prop},
      MentionRows peerId db unseen →
        MentionRows peerId (others.foldl (fun db other => db.markMentionsAsRead other (mids other)) db) unseen := by
    induction others with
    | nil => exact fun hdb => hdb
    | cons other others ih =>
      intro db unseen hdb
      obtain ⟨hne, hrest⟩ := not_or.mp (mt mem_cons.mpr hnot)
      exact ih hrest (mentionRows_markMentionsAsRead_of_ne hdb (Ne.symm hne) (mids other))
  have horder : (peerOrder.read (s.markAsRead.map Prod.fst).dedup).Nodup :=
    (peerOrder.perm _).nodup_iff.mpr (nodup_dedup _)
  by_cases hpeer : peerId ∈ peerOrder.read (s.markAsRead.map Prod.fst).dedup
  · obtain ⟨before, after, hsplit⟩ := append_of_mem hpeer
    rw [hsplit] at horder
    obtain ⟨-, hafter, hbefore⟩ := nodup_append.mp horder
    have hnotBefore : peerId ∉ before := fun hm => hbefore peerId hm peerId mem_cons_self rfl
    have hread := hothers after (nodup_cons.mp hafter).1
      (mentionRows_markMentionsAsRead (hothers before hnotBefore hunread) hnd hmarked)
    have hfold : (s.applyMentionMarks peerOrder).db =
        after.foldl (fun db other => db.markMentionsAsRead other (mids other))
          ((before.foldl (fun db other => db.markMentionsAsRead other (mids other))
            (s.markAsUnread.foldl (fun db mark => db.addUnreadMention mark.1 mark.2) s.db)).markMentionsAsRead peerId
              (mids peerId)) := by
      unfold ChatState.applyMentionMarks
      dsimp only
      rw [hsplit, foldl_append, foldl_cons]
      rfl
    rw [hfold]
    exact hread
  · have hnone : marksFor peerId s.markAsRead = [] := by
      refine marksFor_of_forall_ne fun mark hmark hkey => hpeer ?_
      rw [(peerOrder.perm _).mem_iff, mem_dedup]
      exact mem_map.mpr ⟨mark, hmark, hkey⟩
    refine (hothers _ hpeer hunread).congr fun mid => ?_
    simp [hnone]

/-! ### What the other parts keep -/

structure SameMarks (s s' : ChatState) : Prop where
  markAsRead : s'.markAsRead = s.markAsRead
  markAsUnread : s'.markAsUnread = s.markAsUnread
  queued : s'.db.queuedReadMessageContents = s.db.queuedReadMessageContents

variable {s' : ChatState}

variable {s'' : ChatState}

theorem SameMarks.trans (h : SameMarks s s') (h' : SameMarks s' s'') : SameMarks s s'' :=
  ⟨h'.markAsRead.trans h.markAsRead, h'.markAsUnread.trans h.markAsUnread, h'.queued.trans h.queued⟩

variable {α : Type*} {f : ChatState → α → ChatState}

theorem SameMarks.foldl (h : ∀ s x, SameMarks s (f s x)) (xs : List α) (s : ChatState) :
    SameMarks s (xs.foldl f s) :=
  foldl_rel (fun _ => ⟨rfl, rfl, rfl⟩) (fun h h' => h.trans h') (fun s x _ => h s x) s

theorem OnlyPeers.sameMarks (h : OnlyPeers s s') : SameMarks s s' :=
  ⟨h.markAsRead, h.markAsUnread, by rw [h.db]⟩

theorem queued_addUnreadMention (db : ChatDatabase) (other mid : Int) :
    (db.addUnreadMention other mid).queuedReadMessageContents = db.queuedReadMessageContents := by
  unfold addUnreadMention
  split <;> rfl

theorem sameMarks_addPeerMessages (other : Int) (messages : List TGMessage) (s : ChatState) :
    SameMarks s (s.addPeerMessages other messages) := by
  have hone (db : ChatDatabase) (message : TGMessage) :
      (ChatState.addMessage other db message).queuedReadMessageContents = db.queuedReadMessageContents := by
    unfold ChatState.addMessage
    dsimp only
    split
    · rw [queued_addUnreadMention]
    · rfl
  have hqueued : (s.addPeerMessages other messages).db.queuedReadMessageContents = s.db.queuedReadMessageContents := by
    rw [db_addPeerMessages]
    generalize s.db = db
    induction messages.filter fun message => !message.clearsChat generalizing db with
    | nil => rfl
    | cons message messages ih => rw [foldl_cons, ih, hone]
  refine ⟨?_, ?_, hqueued⟩
  · unfold addPeerMessages
    dsimp only
    split <;> split <;> rfl
  · unfold addPeerMessages
    dsimp only
    split <;> split <;> rfl

theorem sameMarks_removePeerMessages (other : Int) (mids : List Int) (s : ChatState) :
    SameMarks s (s.removePeerMessages other mids) := by
  unfold removePeerMessages
  dsimp only
  split
  · split <;> exact ⟨rfl, rfl, rfl⟩
  · exact ⟨rfl, rfl, rfl⟩

structure SameMentions (s s' : ChatState) : Prop where
  rows : s'.db.mentionMessageIds = s.db.mentionMessageIds
  states : s'.db.mentionStates = s.db.mentionStates

theorem SameMentions.trans (h : SameMentions s s') (h' : SameMentions s' s'') : SameMentions s s'' :=
  ⟨h'.rows.trans h.rows, h'.states.trans h.states⟩

theorem SameMentions.foldl (h : ∀ s x, SameMentions s (f s x)) (xs : List α) (s : ChatState) :
    SameMentions s (xs.foldl f s) :=
  foldl_rel (fun _ => ⟨rfl, rfl⟩) (fun h h' => h.trans h') (fun s x _ => h s x) s

structure KeepsMentions (s s' : ChatState) : Prop extends SameMarks s s', SameMentions s s'

theorem KeepsMentions.trans (h : KeepsMentions s s') (h' : KeepsMentions s' s'') : KeepsMentions s s'' :=
  ⟨h.toSameMarks.trans h'.toSameMarks, h.toSameMentions.trans h'.toSameMentions⟩

theorem KeepsMentions.foldl (h : ∀ s x, KeepsMentions s (f s x)) (xs : List α) (s : ChatState) :
    KeepsMentions s (xs.foldl f s) :=
  foldl_rel (fun _ => ⟨⟨rfl, rfl, rfl⟩, ⟨rfl, rfl⟩⟩) (fun h h' => h.trans h') (fun s x _ => h s x) s

theorem OnlyPeers.keepsMentions (h : OnlyPeers s s') : KeepsMentions s s' :=
  ⟨h.sameMarks, ⟨by rw [h.db], by rw [h.db]⟩⟩

theorem sameMentions_updateMessage (s : ChatState) (update : TGDatabaseUpdateMessage) :
    SameMentions s (s.updateMessage update) ∧
      (s.updateMessage update).db.queuedReadMessageContents = s.db.queuedReadMessageContents := by
  rcases updateMessage_cases s update with ⟨hsame, -⟩ | ⟨message, updated, reads, unreads, -, -, hupd⟩
  · rw [hsame]
    exact ⟨⟨rfl, rfl⟩, rfl⟩
  · rw [hupd]
    exact ⟨⟨rfl, rfl⟩, rfl⟩

theorem keepsMentions_removeMessagesFromConversation (s : ChatState) (other : Int) :
    KeepsMentions s (s.removeMessagesFromConversation other) := by
  unfold ChatState.removeMessagesFromConversation
  dsimp only
  split <;> exact ⟨⟨rfl, rfl, rfl⟩, ⟨rfl, rfl⟩⟩

/-! ### Flags after the updates -/

/-- The row is one of those before with the last of the flags that it was given. -/
structure HasLastFlag (old row : TGMessage) (updates : List TGDatabaseUpdateMessage) : Prop where
  mid : row.mid = old.mid
  cid : row.cid = old.cid
  outgoing : row.outgoing = old.outgoing
  incomingFlag : row.outgoing = false →
    row.containsUnseenMention = (mentionFlags row.mid updates).getLastD old.containsUnseenMention
  outgoingFlag : row.outgoing = true → LeavesFlag old updates → row.containsUnseenMention = old.containsUnseenMention

theorem hasLastFlag_updateMessage (hplace : update.IsInPlace) (hrow : row ∈ (s.updateMessage update).db.messages.rows) :
    ∃ old ∈ s.db.messages.rows, HasLastFlag old row [update] := by
  have hother : ∀ row, update.messageId ≠ row.mid → HasLastFlag row row [update] := fun row hne =>
    ⟨rfl, rfl, rfl, fun _ => by rw [mentionFlags_cons_of_ne hne]; rfl, fun _ _ => rfl⟩
  rcases updateMessage_cases s update with ⟨hsame, hskip⟩ | ⟨message, updated, reads, unreads, hfind, hupdates, hupd⟩
  · rw [hsame] at hrow
    refine ⟨row, hrow, ?_⟩
    by_cases hmid : update.messageId = row.mid
    · obtain ⟨messageId, rfl, hflag⟩ := hskip row (hmid ▸ find_key hrow)
      obtain rfl : messageId = row.mid := hmid
      have hflags : mentionFlags row.mid [.contentsRead row.mid] = [false] :=
        mentionFlags_cons_of_eq (.contentsRead row.mid) rfl []
      refine ⟨rfl, rfl, rfl, fun _ => ?_, fun _ _ => rfl⟩
      rw [hflags, hflag]
      rfl
    · exact hother row hmid
  · obtain ⟨hmsg, hid⟩ := find_eq_some.mp hfind
    have hmid := hupdates.mid_eq hplace hid
    have hstor : message ∈ (s.addMarks reads unreads).db.messages.rows := hmsg
    rw [hupd] at hrow
    rcases (mem_storeUpdated hstor hmid).mp hrow with ⟨hold, hne⟩ | rfl
    · exact ⟨row, hold, hother row fun heq => hne (heq.symm.trans hid.symm)⟩
    · refine ⟨message, hmsg, rfl, rfl, rfl, fun hinc => ?_, fun hout hleaves => ?_⟩
      · obtain ⟨flag, hflag, hsets⟩ := hupdates.setsFlag hplace hid hinc
        have hflags : mentionFlags message.mid [update] = [flag] := by
          rw [hid]
          exact mentionFlags_cons_of_eq update hflag []
        show updated.containsUnseenMention = (mentionFlags message.mid [update]).getLastD _
        rw [hflags, hsets.updated]
        rfl
      · exact (hupdates.leavesFlag hplace hid hout hleaves).1

theorem hasLastFlag_updateMessages (hplace : ∀ update ∈ updates, update.IsInPlace)
    (hrow : row ∈ (updates.foldl ChatState.updateMessage s).db.messages.rows) :
    ∃ old ∈ s.db.messages.rows, HasLastFlag old row updates := by
  induction updates generalizing s with
  | nil => exact ⟨row, hrow, rfl, rfl, rfl, fun _ => rfl, fun _ _ => rfl⟩
  | cons update updates ih =>
    obtain ⟨hfirst, hrest⟩ := forall_mem_cons.mp hplace
    obtain ⟨middle, hmiddle, hlater⟩ := ih hrest hrow
    obtain ⟨old, hold, hone⟩ := hasLastFlag_updateMessage hfirst hmiddle
    refine ⟨old, hold, hlater.mid.trans hone.mid, hlater.cid.trans hone.cid, hlater.outgoing.trans hone.outgoing,
      fun hinc => ?_, fun hout hleaves => ?_⟩
    · have happend : mentionFlags row.mid (update :: updates) =
          mentionFlags row.mid [update] ++ mentionFlags row.mid updates := by
        rw [mentionFlags, ← singleton_append, filterMap_append]
        rfl
      have hone' := hone.incomingFlag (hlater.outgoing.symm.trans hinc)
      rw [hlater.incomingFlag hinc, hone', ← hlater.mid, happend]
      simp [getLast?_append]
    · have hkeeps : LeavesFlag old [update] := fun other hother => by
        rw [mem_singleton.mp hother]
        exact hleaves update mem_cons_self
      have hsame := hone.outgoingFlag (hlater.outgoing.symm.trans hout) hkeeps
      have hkeeps' : LeavesFlag middle updates := by
        intro later hlater' hmid
        have hold' := hleaves later (mem_cons_of_mem update hlater') (hmid.trans hone.mid)
        rwa [← hsame] at hold'
      exact (hlater.outgoingFlag hout hkeeps').trans hsame

/-! ## The whole transaction -/

section
variable {db : ChatDatabase} {t : ChatTransaction}

theorem rows_removeAll_addAll (db : ChatDatabase) (t : ChatTransaction) :
    (t.removeAll db (t.addAll db (t.readHistories (t.beginChanges db)))).db.messages.rows = keptMessages db t := by
  rw [t.rows_removeAll db, t.messages_addAll db, db_readHistories]
  rfl

theorem isInPlace_allUpdates (hplace : UpdatesInPlace db t) : ∀ update ∈ t.allUpdates, update.IsInPlace := by
  intro update hupd
  unfold UpdatesInPlace at hplace
  rcases mem_append.mp hupd with hown | hread
  · cases hupdates : t.updateMessages with
    | none =>
      rw [hupdates] at hown
      exact absurd hown not_mem_nil
    | some updates =>
      rw [hupdates] at hown hplace
      rcases mem_append.mp hown with hgiven | hread
      · exact hplace update hgiven
      · obtain ⟨message, -, rfl⟩ := mem_map.mp hread
        trivial
  · obtain ⟨contents, -, hcontents⟩ := mem_flatMap.mp hread
    obtain ⟨mid, -, rfl⟩ := mem_map.mp hcontents
    trivial

theorem mentionsAre_kept (h : MentionsAre peerId db) (hcond : CountsMentions peerId db t) :
    MentionsAre peerId (t.removeAll db (t.addAll db (t.readHistories (t.beginChanges db)))).db := by
  refine mentionsAre_removeAll ?_ fun message hmsg => ?_
  · rw [db_addAll, db_readHistories]
    refine mentionsAre_addMessages h (fun message hmsg => ?_) fun message hmsg => ?_
    · exact hcond.positive message ((t.addedRows_perm db).mem_iff.mp hmsg)
    · exact hcond.added message ((t.addedRows_perm db).mem_iff.mp hmsg)
  · rw [t.messages_addAll db, db_readHistories] at hmsg
    exact hcond.removed message hmsg

theorem sameMarks_kept (db : ChatDatabase) (t : ChatTransaction) : SameMarks (t.beginChanges db)
    (t.removeAll db (t.addAll db (t.readHistories (t.beginChanges db)))) := by
  have hread := (replacesPeers_readHistories t (t.beginChanges db)).onlyPeers.sameMarks
  have hadd (s : ChatState) : SameMarks s (t.addAll db s) :=
    .foldl (fun s other => sameMarks_addPeerMessages other _ s) _ s
  have hremove (s : ChatState) : SameMarks s (t.removeAll db s) :=
    .foldl (fun s other => sameMarks_removePeerMessages other _ s) _ s
  exact (hread.trans (hadd _)).trans (hremove _)

theorem keepsMentions_clearAll (t : ChatTransaction) (s : ChatState) : KeepsMentions s (t.clearAll (t.applyReads s)) := by
  have hclear (s : ChatState) (other : Int) : KeepsMentions s (s.clearConversation other) :=
    (keepsMentions_removeMessagesFromConversation s other).trans ⟨⟨rfl, rfl, rfl⟩, ⟨rfl, rfl⟩⟩
  have hcleared := (onlyPeers_applyReads t s).keepsMentions.trans
    (.foldl hclear t.clearConversationsWithPeerIds (t.applyReads s))
  have hmsgs := hcleared.trans
    (.foldl keepsMentions_removeMessagesFromConversation t.removeConversationsWithPeerIds _)
  have hdel (s : ChatState) (conversations : ConversationTable) :
      KeepsMentions s { s with db := { s.db with conversations := conversations } } := ⟨⟨rfl, rfl, rfl⟩, ⟨rfl, rfl⟩⟩
  exact (hmsgs.trans (hdel _ _)).trans
    (OnlyPeers.foldl onlyPeers_updateConversationData t.updateConversationDatas _).keepsMentions

theorem mem_transaction : row ∈ (transaction db t).messages.rows ↔
    row ∈ (t.updateAll (t.removeAll db (t.addAll db (t.readHistories (t.beginChanges db))))).db.messages.rows ∧
      row.cid ∉ t.clearConversationsWithPeerIds ++ t.removeConversationsWithPeerIds := by
  show row ∈ (t.changeChats db).db.messages.rows ↔ _
  rw [t.messages_changeChats db, t.mem_clearAll, ChatTransaction.changesBeforeClearing, (onlyPeers_applyReads t _).db]

theorem mentionsAre_transaction (hplace : UpdatesInPlace db t) (hcond : CountsMentions peerId db t)
    (h : MentionsAre peerId db) : MentionsAre peerId (transaction db t) := by
  have hkept := mentionsAre_kept h hcond
  have hrows := rows_removeAll_addAll db t
  have hbegin := sameMarks_kept db t
  generalize hs : t.removeAll db (t.addAll db (t.readHistories (t.beginChanges db))) = s at hkept hrows hbegin
  have hstart : MarksOf peerId (UnseenIn peerId s.db.messages) s t.allUpdates := by
    have hreads : marksFor peerId s.markAsRead = [] := by
      rw [hbegin.markAsRead]
      rfl
    have hunreads : marksFor peerId s.markAsUnread = [] := by
      rw [hbegin.markAsUnread]
      rfl
    refine ⟨by simp [hreads], by simp [hreads], by simp [hreads, hunreads], by simp [hunreads], hkept.positive, ?_, ?_⟩
    · intro message hmsg hcid hinc
      rw [hrows] at hmsg
      exact ⟨hcond.incoming message hmsg hcid hinc, by simp [hreads]⟩
    · intro message hmsg hcid hout
      rw [hrows] at hmsg
      exact hcond.outgoing message hmsg hcid hout
  have hmarks : MarksOf peerId (UnseenIn peerId s.db.messages) (t.updateAll s) [] :=
    hstart.run (isInPlace_allUpdates hplace)
  have hm (row : TGMessage) : row ∈ (transaction db t).messages.rows ↔ row ∈ (t.updateAll s).db.messages.rows ∧
      row.cid ∉ t.clearConversationsWithPeerIds ++ t.removeConversationsWithPeerIds := by
    rw [mem_transaction, hs]
  have hmentions : SameMentions s (t.clearAll (t.applyReads (t.updateAll s))) :=
    (SameMentions.foldl (fun s update => (sameMentions_updateMessage s update).1) t.allUpdates s).trans
      (keepsMentions_clearAll t _).toSameMentions
  have hsameMarks := (keepsMentions_clearAll t (t.updateAll s)).toSameMarks
  have hbefore : MentionRows peerId (t.queueReadContents (t.clearAll (t.applyReads (t.updateAll s)))).db
      (UnseenIn peerId s.db.messages) := hkept.rows.of_tables_eq hmentions.rows hmentions.states
  have hreads : (t.queueReadContents (t.clearAll (t.applyReads (t.updateAll s)))).markAsRead = (t.updateAll s).markAsRead :=
    hsameMarks.markAsRead
  have hunreads : (t.queueReadContents (t.clearAll (t.applyReads (t.updateAll s)))).markAsUnread =
      (t.updateAll s).markAsUnread := hsameMarks.markAsUnread
  have hend := mentionRows_applyMentionMarks hbefore (hunreads.symm ▸ hmarks.positive) (hreads.symm ▸ hmarks.nodup)
    (hunreads.symm ▸ hreads.symm ▸ hmarks.marked) t.peerOrder
  rw [hreads, hunreads] at hend
  refine ⟨?_, fun row hrow hcid => hmarks.ids row ((hm row).mp hrow).1 hcid⟩
  have hchange : (transaction db t).mentionMessageIds =
      ((t.queueReadContents (t.clearAll (t.applyReads (t.updateAll s)))).applyMentionMarks t.peerOrder).db.mentionMessageIds ∧
      (transaction db t).mentionStates =
      ((t.queueReadContents (t.clearAll (t.applyReads (t.updateAll s)))).applyMentionMarks t.peerOrder).db.mentionStates := by
    rw [← hs]
    exact ⟨rfl, rfl⟩
  refine (hend.of_tables_eq hchange.1 hchange.2).congr fun mid => ?_
  rw [← hmarks.unseen]
  constructor
  · rintro ⟨row, hrow, hunseen, rfl⟩
    obtain ⟨hcid, hinc, hflag⟩ := isUnseenIn_iff.mp hunseen
    refine ⟨row, (hm row).mpr ⟨hrow, fun hcleared => ?_⟩, hunseen, rfl⟩
    rw [hcid] at hcleared
    obtain ⟨old, hold, hlast⟩ := hasLastFlag_updateMessages (isInPlace_allUpdates hplace) hrow
    rw [hrows] at hold
    have hnone := hcond.cleared hcleared old hold (hlast.cid.symm.trans hcid) (hlast.outgoing.symm.trans hinc)
    rw [hlast.incomingFlag hinc, hlast.mid, hnone] at hflag
    cases hflag
  · rintro ⟨row, hrow, hunseen, rfl⟩
    exact ⟨row, ((hm row).mp hrow).1, hunseen, rfl⟩

/-! ### Arrival -/

theorem queued_transaction (db : ChatDatabase) (t : ChatTransaction) : (transaction db t).queuedReadMessageContents =
    db.queuedReadMessageContents ++ t.readMessageContents.rows.flatMap Prod.snd := by
  have hadd (marks : List (Int × Int)) : ∀ db : ChatDatabase,
      (marks.foldl (fun db mark => db.addUnreadMention mark.1 mark.2) db).queuedReadMessageContents =
        db.queuedReadMessageContents := by
    induction marks with
    | nil => exact fun _ => rfl
    | cons mark marks ih => exact fun db => (ih _).trans (queued_addUnreadMention db mark.1 mark.2)
  have hread (mids : Int → List Int) (others : List Int) : ∀ db : ChatDatabase,
      (others.foldl (fun db other => db.markMentionsAsRead other (mids other)) db).queuedReadMessageContents =
        db.queuedReadMessageContents := by
    induction others with
    | nil => exact fun _ => rfl
    | cons other others ih => exact fun db => ih _
  have hmarks (s : ChatState) : (s.applyMentionMarks t.peerOrder).db.queuedReadMessageContents =
      s.db.queuedReadMessageContents :=
    (hread (fun other => marksFor other s.markAsRead)
      (t.peerOrder.read (s.markAsRead.map Prod.fst).dedup) _).trans (hadd s.markAsUnread s.db)
  have hupdates (s : ChatState) : (t.updateAll s).db.queuedReadMessageContents = s.db.queuedReadMessageContents := by
    unfold ChatTransaction.updateAll
    induction t.allUpdates generalizing s with
    | nil => rfl
    | cons update updates ih => exact (ih _).trans (sameMentions_updateMessage s update).2
  have hbefore : (t.clearAll (t.changesBeforeClearing db)).db.queuedReadMessageContents = db.queuedReadMessageContents :=
    ((keepsMentions_clearAll t _).queued.trans (hupdates _)).trans (sameMarks_kept db t).queued
  show (t.changeChats db).db.queuedReadMessageContents = _
  rw [t.changeChats_eq db, hmarks, ← hbefore]
  rfl

variable {mid : Int}

theorem find_readContents {messages : List TGMessage} {contents : KeyedTable (Prod.fst : Int × List Int → Int)}
    (hsame : ∀ message ∈ messages, message.cid = peerId → message.mid = mid)
    (hsome : contents.find peerId = some (peerId, [mid]) ∨ ∃ message ∈ messages, message.cid = peerId) :
    (messages.foldl (fun contents message => contents.insertOrReplace (message.cid, [message.mid])) contents).find peerId =
      some (peerId, [mid]) := by
  induction messages generalizing contents with
  | nil => simpa using hsome
  | cons message messages ih =>
    obtain ⟨hfirst, hrest⟩ := forall_mem_cons.mp hsame
    refine ih hrest ?_
    rw [find_insertOrReplace]
    by_cases hcid : message.cid = peerId
    · rw [if_pos hcid, hfirst hcid, hcid]
      exact .inl rfl
    · rw [if_neg hcid]
      refine hsome.imp_right ?_
      rintro ⟨other, hother, hkey⟩
      rcases mem_cons.mp hother with rfl | hm
      · exact absurd hkey hcid
      · exact ⟨other, hm, hkey⟩

theorem lastFlag_of_readMessageContents {contents : Int × List Int}
    (hcontents : contents ∈ t.readMessageContents.rows) (hmid : mid ∈ contents.2) (flag : Bool) :
    (mentionFlags mid t.allUpdates).getLastD flag = false := by
  let reads := t.readMessageContents.rows.flatMap fun contents => contents.2.map TGDatabaseUpdateMessage.contentsRead
  have hall : ∀ last ∈ mentionFlags mid reads, last = false := by
    intro last hlast
    obtain ⟨update, hupd, hflag⟩ := mem_filterMap.mp hlast
    obtain ⟨_, -, hread⟩ := mem_flatMap.mp hupd
    obtain ⟨other, -, rfl⟩ := mem_map.mp hread
    split at hflag
    · exact (Option.some.inj hflag).symm
    · cases hflag
  have hsome : false ∈ mentionFlags mid reads := by
    refine mem_filterMap.mpr ⟨.contentsRead mid, ?_, if_pos rfl⟩
    exact mem_flatMap.mpr ⟨contents, hcontents, mem_map_of_mem hmid⟩
  obtain ⟨last, hlast⟩ : ∃ last, (mentionFlags mid reads).getLast? = some last :=
    ⟨_, getLast?_eq_some_getLast (ne_nil_of_mem hsome)⟩
  have hsplit : mentionFlags mid t.allUpdates = mentionFlags mid (t.updateMessages.elim [] fun updates =>
      updates ++ (t.addMessages.filter t.isReadOnArrival).map fun message => .contentsRead message.mid) ++
        mentionFlags mid reads := filterMap_append ..
  rw [hsplit, getLastD_eq_getLast?, getLast?_append, hlast]
  exact hall last (mem_of_getLast? hlast)

theorem flag_of_added (hread : t.isReadOnArrival message)
    (hcid : row.cid = message.cid) (hnew : ¬db.messages.Has row.mid) (hrow : row ∈ (messagesWithAdded db t).rows) :
    row.containsUnseenMention = false := by
  have hpeer : message.cid ∈ t.automaticallyReadPeerIds := by
    simp only [ChatTransaction.isReadOnArrival, Bool.and_eq_true, decide_eq_true_eq] at hread
    exact hread.2
  rcases KeyedTable.mem_insertAll hrow with hold | hadded
  · exact absurd ⟨row, hold, rfl⟩ hnew
  · have hfresh := (mem_filter.mp ((t.addedRows_perm db).mem_iff.mp hadded)).1
    obtain ⟨given, -, rfl⟩ := mem_map.mp (mem_filter.mp hfresh).1
    split
    · rfl
    · next hnot =>
      have hgiven : given.cid = message.cid := by
        rw [if_neg hnot] at hcid
        exact hcid
      cases hflag : given.containsUnseenMention with
      | false => rfl
      | true => exact absurd (by simp [ChatTransaction.isReadOnArrival, hflag, hgiven, hpeer]) hnot

theorem readsOnArrival_of_countsMentions (hplace : UpdatesInPlace db t) (hcond : CountsMentions peerId db t) :
    ReadsOnArrival peerId db t := by
  intro message hmsg hcid hread
  have hcontents : (peerId, [message.mid]) ∈ t.readMessageContents.rows := by
    refine (find_eq_some.mp (find_readContents (fun other hother hother' => ?_) (Or.inr ?_))).1
    · obtain ⟨hm, hreadOther⟩ := mem_filter.mp hother
      exact hcond.arrival other hm message hmsg hother' hcid hreadOther hread
    · exact ⟨message, mem_filter.mpr ⟨hmsg, hread⟩, hcid⟩
  refine ⟨⟨_, queued_transaction db t, ?_⟩, fun hnew row hrow hmid hrowCid => ?_⟩
  · exact mem_flatMap.mpr ⟨_, hcontents, mem_singleton_self message.mid⟩
  · obtain ⟨hlastRow, -⟩ := mem_transaction.mp hrow
    obtain ⟨old, hold, hlast⟩ := hasLastFlag_updateMessages (isInPlace_allUpdates hplace) hlastRow
    rw [rows_removeAll_addAll] at hold
    cases hout : row.outgoing with
    | false =>
      rw [hlast.incomingFlag hout, hmid]
      exact lastFlag_of_readMessageContents hcontents (mem_singleton_self message.mid) _
    | true =>
      have hleaves := hcond.outgoing old hold (hlast.cid.symm.trans hrowCid) (hlast.outgoing.symm.trans hout)
      rw [hlast.outgoingFlag hout hleaves]
      have holdMid : old.mid = message.mid := hlast.mid.symm.trans hmid
      exact flag_of_added hread ((hlast.cid.symm.trans hrowCid).trans hcid.symm) (holdMid ▸ hnew)
        (mem_filter.mp hold).1

end

end

/-! ## Runs -/

/-- The count of a chat stays the number of its unseen mentions and of its rows as long as every transaction meets the
conditions, and then what arrives in a chat that is being read is read. -/
theorem unseenMentions_hold {peerId : Int} {db : ChatDatabase} (h : NoMentions peerId db) {ts : List ChatTransaction}
    (hts : AllSteps transaction UpdatesInPlace db ts) (hcond : AllSteps transaction (CountsMentions peerId) db ts) :
    AllSteps transaction (fun db t => MentionsMatch peerId (transaction db t) ∧ ReadsOnArrival peerId db t) db ts := by
  have hstep : ∀ db t, MentionsAre peerId db → UpdatesInPlace db t ∧ CountsMentions peerId db t →
      MentionsAre peerId (transaction db t) := fun db t hdb ht => mentionsAre_transaction ht.1 ht.2 hdb
  exact AllSteps.of_invariant hstep
    (fun db t hdb ht => ⟨(hstep db t hdb ht).match, readsOnArrival_of_countsMentions ht.1 ht.2⟩)
    (mentionsAre_of_noMentions h) (hts.and hcond)

def mentionMessage (mid : Int) : TGMessage := ⟨mid, 5, 0, 0, "mention", [], false, 100, true, false⟩

theorem noMentions_init (peerId : Int) : NoMentions peerId initChatDatabase :=
  ⟨fun _ h => absurd h not_mem_nil, rfl, fun _ h => absurd h not_mem_nil⟩

theorem updatesInPlace_of_none {db : ChatDatabase} {t : ChatTransaction} (h : t.updateMessages = none) :
    UpdatesInPlace db t := by
  intro update hupd
  rw [h] at hupd
  exact absurd hupd not_mem_nil

/-- A mention that comes is counted. -/
theorem unseenMentions_hold_add :
    AllSteps transaction (fun db t => MentionsMatch 5 (transaction db t) ∧ ReadsOnArrival 5 db t) initChatDatabase
      [{ noChange with addMessages := [mentionMessage 11] }] := by
  refine unseenMentions_hold (noMentions_init 5) ⟨updatesInPlace_of_none rfl, trivial⟩ ⟨?_, trivial⟩
  refine ⟨by decide, by decide, ?_, fun _ _ _ _ => trivial, ?_, ?_, by decide⟩
  · exact fun _ _ _ _ hremoval => absurd hremoval not_mem_nil
  · exact fun _ _ _ _ update hupdate => absurd hupdate not_mem_nil
  · exact fun hcleared => absurd hcleared not_mem_nil

/-- The count of a chat that is cleared stays; of two mentions that arrive in a chat that is being read the first gets no
action. -/
theorem cleared_stays_counted :
    (AllSteps transaction UpdatesInPlace initChatDatabase
        [{ noChange with addMessages := [mentionMessage 11] }, { noChange with clearConversationsWithPeerIds := [5] }] ∧
      ¬AllSteps transaction (fun db t => MentionsMatch 5 (transaction db t)) initChatDatabase
        [{ noChange with addMessages := [mentionMessage 11] }, { noChange with clearConversationsWithPeerIds := [5] }]) ∧
    ¬ReadsOnArrival 5 initChatDatabase
      { noChange with addMessages := [mentionMessage 11, mentionMessage 12], automaticallyReadPeerIds := [5] } ∧
    NoMentions 5 initChatDatabase := by
  refine ⟨⟨⟨updatesInPlace_of_none rfl, updatesInPlace_of_none rfl, trivial⟩, fun h => ?_⟩, fun h => ?_, noMentions_init 5⟩
  · exact absurd h.2.1.messages (by decide)
  · obtain ⟨queued, hqueued, hmem⟩ := (h (mentionMessage 11) (by decide) rfl (by decide)).1
    have hlast : (transaction initChatDatabase { noChange with
        addMessages := [mentionMessage 11, mentionMessage 12]
        automaticallyReadPeerIds := [5] }).queuedReadMessageContents = [12] := by decide
    rw [hlast] at hqueued
    obtain rfl : [12] = queued := hqueued
    exact absurd hmem (by decide)

end TelegramClient.Database
