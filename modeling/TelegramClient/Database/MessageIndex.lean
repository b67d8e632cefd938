import TelegramClient.Database.StoredMessages
import TelegramClient.Lib.BatchLoops
import TelegramClient.Lib.Runs

/-!
# The search index of secret chats

The texts of secret chats are indexed on the device. The transactions of the database change the messages, and put jobs
for the index into a queue of its own.

* `IndexJob`, `runJob` : the jobs; what is removed is taken out of the index 20 ids at a time;
* `IndexFollows` : **once the queue has run, each entry of the index is of a message that is stored**;
* `index_follows` : **in every run of transactions whose parts meet this the index follows the messages**.
-/

namespace TelegramClient.Database
open List
open KeyedTable (changeKey_of_has has_changeKey has_insertAll has_key mem_deleteWhere)

/-! ## The index -/

structure IndexRow where
  docid : Int
  text : String
deriving DecidableEq

abbrev IndexTable := KeyedTable IndexRow.docid

inductive IndexJob where
  | addMessages (peerId : Int) (messages : List TGMessage)
  | deleteMids (mids : List Int)
  /-- `UPDATE ... SET docid=? WHERE docid=?` for each pair of a previous and an updated id. -/
  | changeMids (changes : List (Int × Int))

def indexRow (peerId : Int) (message : TGMessage) : IndexRow :=
  ⟨message.mid, (message.indexText ++ s!" z0z9p{peerId.natAbs}" ++ (if peerId < 0 then "c" else "p")).toLower⟩

def changeDocid (index : IndexTable) (change : Int × Int) : IndexTable :=
  index.changeKey change.1 change.2 (fun row => { row with docid := change.2 }) fun _ => rfl

def IndexJob.run (index : IndexTable) : IndexJob → IndexTable
  | .addMessages peerId messages =>
    -- the ids that are indexed before the first message is added
    let fresh := messages.filter fun message => ¬index.Has message.mid
    index.insertAll ((fresh.filter fun message => message.indexText ≠ "").map (indexRow peerId))
  | .deleteMids mids =>
    (nestedBatches 20 mids).foldl (fun index batch => index.deleteWhere fun row => row.docid ∈ batch) index
  | .changeMids changes => changes.foldl changeDocid index

structure MessageIndex where
  messages : MessageTable
  randomIds : List Int
  index : IndexTable
  indexQueue : List IndexJob
  /-- What the current transaction has changed, with one pair for a previous id. -/
  changedMessageIds : List (Int × Int)

def initMessageIndex : MessageIndex := ⟨.empty, [], .empty, [], []⟩

namespace MessageIndex

def dispatchOnIndexThread (job : IndexJob) (s : MessageIndex) : MessageIndex :=
  { s with indexQueue := s.indexQueue ++ [job] }

/-! ## The parts of a transaction -/

/-- `_addMessages` for one peer. A message that clears the chat is not stored. -/
def addMessages (peerId : Int) (messages : List TGMessage) (s : MessageIndex) : MessageIndex :=
  let stored := messages.filter fun message => !message.clearsChat
  let randomIds := (stored.map TGMessage.randomId).filter fun randomId => randomId ≠ 0
  let s := { s with messages := s.messages.insertAll stored, randomIds := s.randomIds ++ randomIds }
  if peerIdIsSecretChat peerId then s.dispatchOnIndexThread (.addMessages peerId messages) else s

/-- `_removeMessages` for one peer. -/
def removeMessages (peerId : Int) (mids : List Int) (s : MessageIndex) : MessageIndex :=
  let s := { s with messages := s.messages.deleteWhere fun message => message.mid ∈ mids }
  if peerIdIsSecretChat peerId then s.dispatchOnIndexThread (.deleteMids mids) else s

def changeMid (messages : MessageTable) (mid updatedMid : Int) : MessageTable :=
  messages.changeKey mid updatedMid (fun message => { message with mid := updatedMid }) fun _ => rfl

/-- `_updateMessages` with one message that was delivered. -/
def updateMessage (messageId updatedMessageId : Int) (s : MessageIndex) : MessageIndex :=
  match s.messages.find messageId with
  | none => s
  | some message =>
    if message.mid = updatedMessageId then s
    else
      let s := { s with messages := changeMid s.messages message.mid updatedMessageId }
      let s := if peerIdIsSecretChat message.cid then
        s.dispatchOnIndexThread (.changeMids [(message.mid, updatedMessageId)]) else s
      if message.text ≠ "" then
        { s with changedMessageIds := s.changedMessageIds.filter (fun change => change.1 ≠ message.mid) ++
          [(message.mid, updatedMessageId)] }
      else s

/-- `_removeMessagesFromConversationsWithPeerIds` for one peer, when a conversation is cleared or removed. -/
def removeMessagesFromConversation (peerId : Int) (order : RowOrder TGMessage) (s : MessageIndex) : MessageIndex :=
  let midsInConversation :=
    (order.read (s.messages.rows.filter fun message => message.cid = peerId)).map TGMessage.mid
  { s with messages := s.messages.deleteWhere fun message => message.cid = peerId }.dispatchOnIndexThread
    (.deleteMids midsInConversation)

/-- The end of `transactionAddMessages`, in an order of the keys of `changedMessageIds`. -/
def finishTransaction (order : RowOrder (Int × Int)) (s : MessageIndex) : MessageIndex :=
  if s.changedMessageIds = [] then s
  else { s with changedMessageIds := [] }.dispatchOnIndexThread (.changeMids (order.read s.changedMessageIds))

inductive IndexOp where
  | addMessages (peerId : Int) (messages : List TGMessage)
  | removeMessages (peerId : Int) (mids : List Int)
  | updateMessage (messageId updatedMessageId : Int)
  | removeMessagesFromConversation (peerId : Int) (order : RowOrder TGMessage)
  | finishTransaction (order : RowOrder (Int × Int))

def stepOp (s : MessageIndex) : IndexOp → MessageIndex
  | .addMessages peerId messages => s.addMessages peerId messages
  | .removeMessages peerId mids => s.removeMessages peerId mids
  | .updateMessage messageId updatedMessageId => s.updateMessage messageId updatedMessageId
  | .removeMessagesFromConversation peerId order => s.removeMessagesFromConversation peerId order
  | .finishTransaction order => s.finishTransaction order

/-! ## Transactions -/

/-- The arguments of a transaction on secret chats, and the orders of its dictionaries. -/
structure Transaction where
  addMessages : List TGMessage
  removeMessages : List (Int × List Int)
  updateMessages : List (Int × Int)
  clearConversationsWithPeerIds : List Int
  removeConversationsWithPeerIds : List Int
  peerOrder : RowOrder Int
  messageOrder : RowOrder TGMessage
  changeOrder : RowOrder (Int × Int)
  secret_addMessages : ∀ message ∈ addMessages, peerIdIsSecretChat message.cid = true
  secret_removeMessages : ∀ remove ∈ removeMessages, peerIdIsSecretChat remove.1 = true

/-- `_prepareTransactionWithMessages`: the messages that are neither stored nor known by their random id. -/
def newMessages (s : MessageIndex) (messages : List TGMessage) : List TGMessage :=
  messages.filter fun message => ¬s.messages.Has message.mid ∧ (message.randomId = 0 ∨ message.randomId ∉ s.randomIds)

/-- The parts of a transaction, in the order in which they are done. -/
def ops (s : MessageIndex) (t : Transaction) : List IndexOp :=
  let messages := s.newMessages t.addMessages
  ((t.peerOrder.read (messages.map TGMessage.cid).dedup).map fun peerId =>
      .addMessages peerId (messages.filter fun message => message.cid = peerId)) ++
    t.removeMessages.map (fun remove => .removeMessages remove.1 remove.2) ++
    t.updateMessages.map (fun update => .updateMessage update.1 update.2) ++
    t.clearConversationsWithPeerIds.map (fun peerId => .removeMessagesFromConversation peerId t.messageOrder) ++
    t.removeConversationsWithPeerIds.map (fun peerId => .removeMessagesFromConversation peerId t.messageOrder) ++
    [.finishTransaction t.changeOrder]

inductive IndexEvent where
  | transaction (t : Transaction)
  /-- The first job of the queue of the index. -/
  | runIndex

def stepIndex (s : MessageIndex) : IndexEvent → MessageIndex
  | .transaction t => (s.ops t).foldl stepOp s
  | .runIndex =>
    match s.indexQueue with
    | [] => s
    | job :: jobs => { s with index := job.run s.index, indexQueue := jobs }

/-! ## What the index has to be -/

def settledIndex (s : MessageIndex) : IndexTable := s.indexQueue.foldl IndexJob.run s.index

def IndexFollows (s : MessageIndex) : Prop := ∀ docid, s.settledIndex.Has docid → s.messages.Has docid

/-! ## The conditions -/

/-- Every indexed id of the list stands at a position that the inner loop over the batches reaches. -/
def MidsReached (s : MessageIndex) (mids : List Int) : Prop :=
  ∀ mid ∈ mids, s.settledIndex.Has mid → ∃ i, mids[i]? = some mid ∧ InBatch 20 i

variable {s : MessageIndex} {mids : List Int}

theorem midsReached_of_length_le (h : mids.length ≤ 20) : s.MidsReached mids := by
  intro mid hmid _
  obtain ⟨i, hi, hget⟩ := mem_iff_getElem.mp hmid
  exact ⟨i, List.getElem?_eq_some_iff.mpr ⟨hi, hget⟩, inBatch_of_lt (hi.trans_le h)⟩

/-- Each of the changes finds no entry, or the updated id is stored. -/
def ChangesFit (messages : MessageTable) : IndexTable → List (Int × Int) → Prop
  | _, [] => True
  | index, change :: changes =>
    (index.Has change.1 → messages.Has change.2) ∧ ChangesFit messages (changeDocid index change) changes

def OpFits (s : MessageIndex) : IndexOp → Prop
  | .addMessages _ messages => ∀ message ∈ messages, message.clearsChat = true → message.indexText = ""
  | .removeMessages _ mids => s.MidsReached mids
  | .updateMessage _ _ => True
  | .removeMessagesFromConversation peerId order =>
    s.MidsReached ((order.read (s.messages.rows.filter fun message => message.cid = peerId)).map TGMessage.mid)
  | .finishTransaction order => ChangesFit s.messages s.settledIndex (order.read s.changedMessageIds)

def TransactionFits (s : MessageIndex) : IndexEvent → Prop
  | .transaction t => AllSteps stepOp OpFits s (s.ops t)
  | .runIndex => True

/-! ## Jobs -/

@[simp] theorem settledIndex_dispatchOnIndexThread (job : IndexJob) (s : MessageIndex) :
    (s.dispatchOnIndexThread job).settledIndex = job.run s.settledIndex := by
  simp [settledIndex, dispatchOnIndexThread]

@[simp] theorem run_changeMids_singleton (index : IndexTable) (change : Int × Int) :
    IndexJob.run index (.changeMids [change]) = changeDocid index change := rfl

@[simp] theorem messages_dispatchOnIndexThread (job : IndexJob) (s : MessageIndex) :
    (s.dispatchOnIndexThread job).messages = s.messages := rfl

variable {index : IndexTable} {docid : Int}

theorem has_run_addMessages {peerId : Int} {messages : List TGMessage}
    (h : (IndexJob.run index (.addMessages peerId messages)).Has docid) :
    index.Has docid ∨ ∃ message ∈ messages, message.indexText ≠ "" ∧ message.mid = docid := by
  rcases has_insertAll.mp h with hold | ⟨row, hrow, hkey⟩
  · exact .inl hold
  · obtain ⟨message, hmsg, rfl⟩ := mem_map.mp hrow
    simp only [mem_filter, decide_eq_true_eq] at hmsg
    exact .inr ⟨message, hmsg.1.1, hmsg.2, hkey⟩

theorem has_foldl_deleteWhere {batches : List (List Int)}
    (h : (batches.foldl (fun index batch => index.deleteWhere fun row => row.docid ∈ batch) index).Has docid) :
    index.Has docid ∧ docid ∉ batches.flatten := by
  induction batches generalizing index with
  | nil => exact ⟨h, by simp⟩
  | cons batch batches ih =>
    obtain ⟨hbatch, hrest⟩ := ih h
    obtain ⟨row, hrow, rfl, hkept⟩ := KeyedTable.has_deleteWhere.mp hbatch
    exact ⟨has_key hrow, by simpa [hrest] using hkept⟩

theorem has_run_deleteMids (h : (IndexJob.run index (.deleteMids mids)).Has docid) :
    index.Has docid ∧ ¬∃ i, mids[i]? = some docid ∧ InBatch 20 i := by
  rw [← mem_flatten_nestedBatches]
  exact has_foldl_deleteWhere h

theorem mem_of_run_deleteMids (hreached : s.MidsReached mids)
    (h : (IndexJob.run s.settledIndex (.deleteMids mids)).Has docid) : s.settledIndex.Has docid ∧ docid ∉ mids := by
  obtain ⟨hold, hnot⟩ := has_run_deleteMids h
  exact ⟨hold, fun hm => hnot (hreached docid hm hold)⟩

theorem has_changeDocid {change : Int × Int} (h : (changeDocid index change).Has docid) :
    index.Has docid ∨ docid = change.2 ∧ index.Has change.1 := by
  by_cases htaken : index.Has change.2
  · rw [changeDocid, changeKey_of_has htaken] at h
    exact .inl h
  · rcases (has_changeKey htaken _).mp h with hnew | ⟨-, hold⟩
    · exact .inr hnew
    · exact .inl hold

theorem has_foldl_changeDocid {messages : MessageTable} {changes : List (Int × Int)}
    (hfits : ChangesFit messages index changes) (hidx : ∀ docid, index.Has docid → messages.Has docid) :
    ∀ docid, (changes.foldl changeDocid index).Has docid → messages.Has docid := by
  induction changes generalizing index with
  | nil => exact hidx
  | cons change changes ih =>
    refine ih hfits.2 fun docid hdocid => ?_
    rcases has_changeDocid hdocid with hold | ⟨rfl, hprev⟩
    · exact hidx docid hold
    · exact hfits.1 hprev

/-! ## The parts of a transaction keep the index to the messages -/

def IndexOp.Secret : IndexOp → Prop
  | .addMessages _ messages => ∀ message ∈ messages, peerIdIsSecretChat message.cid = true
  | .removeMessages peerId _ => peerIdIsSecretChat peerId = true
  | _ => True

structure IndexInv (s : MessageIndex) : Prop where
  follows : s.IndexFollows
  secret : ∀ message ∈ s.messages.rows, peerIdIsSecretChat message.cid = true

namespace IndexInv

variable {s : MessageIndex}

section
variable (h : IndexInv s)
include h

theorem addMessages (peerId : Int) {messages : List TGMessage}
    (hsecret : ∀ message ∈ messages, peerIdIsSecretChat message.cid = true)
    (hfits : ∀ message ∈ messages, message.clearsChat = true → message.indexText = "") :
    IndexInv (s.addMessages peerId messages) := by
  have hstor : ∀ docid, s.messages.Has docid ∨ (∃ message ∈ messages, message.indexText ≠ "" ∧ message.mid = docid) →
        (s.messages.insertAll (messages.filter fun message => !message.clearsChat)).Has docid := by
    intro docid hdocid
    rw [has_insertAll]
    refine hdocid.imp id fun ⟨message, hmsg, htext, hmid⟩ => ⟨message, ?_, hmid⟩
    refine mem_filter.mpr ⟨hmsg, ?_⟩
    cases hclears : message.clearsChat with
    | false => rfl
    | true => exact absurd (hfits message hmsg hclears) htext
  have hrows : ∀ message ∈ (s.messages.insertAll (messages.filter fun message => !message.clearsChat)).rows,
      peerIdIsSecretChat message.cid = true := by
    intro message hmsg
    rcases KeyedTable.mem_insertAll hmsg with hold | hnew
    · exact h.secret message hold
    · exact hsecret message (mem_of_mem_filter hnew)
  unfold MessageIndex.addMessages
  dsimp only
  split
  · refine ⟨fun docid hdocid => hstor docid ?_, hrows⟩
    rw [settledIndex_dispatchOnIndexThread] at hdocid
    exact (has_run_addMessages hdocid).imp (h.follows docid) id
  · exact ⟨fun docid hdocid => hstor docid (.inl (h.follows docid hdocid)), hrows⟩

theorem removeMessages {peerId : Int} (hsecret : peerIdIsSecretChat peerId = true) {mids : List Int}
    (hreached : s.MidsReached mids) : IndexInv (s.removeMessages peerId mids) := by
  unfold MessageIndex.removeMessages
  rw [if_pos hsecret]
  refine ⟨fun docid hdocid => ?_, fun message hmsg => h.secret message (mem_deleteWhere.mp hmsg).1⟩
  rw [settledIndex_dispatchOnIndexThread] at hdocid
  obtain ⟨hold, hnot⟩ := mem_of_run_deleteMids hreached hdocid
  obtain ⟨message, hmsg, rfl⟩ := h.follows docid hold
  exact ⟨message, mem_deleteWhere.mpr ⟨hmsg, by simpa using hnot⟩, rfl⟩

theorem removeMessagesFromConversation (peerId : Int) (order : RowOrder TGMessage)
    (hreached : s.MidsReached ((order.read (s.messages.rows.filter fun message => message.cid = peerId)).map TGMessage.mid)) :
    IndexInv (s.removeMessagesFromConversation peerId order) := by
  refine ⟨fun docid hdocid => ?_, fun message hmsg => h.secret message (mem_deleteWhere.mp hmsg).1⟩
  unfold MessageIndex.removeMessagesFromConversation at hdocid
  rw [settledIndex_dispatchOnIndexThread] at hdocid
  obtain ⟨hold, hnot⟩ := mem_of_run_deleteMids hreached hdocid
  obtain ⟨message, hmsg, rfl⟩ := h.follows docid hold
  refine ⟨message, mem_deleteWhere.mpr ⟨hmsg, ?_⟩, rfl⟩
  by_contra hcid
  refine hnot (mem_map_of_mem ((order.perm _).mem_iff.mpr ?_))
  exact mem_filter.mpr ⟨hmsg, by simpa using hcid⟩

theorem updateMessage (messageId updatedMessageId : Int) : IndexInv (s.updateMessage messageId updatedMessageId) := by
  unfold MessageIndex.updateMessage
  split
  · exact h
  · next message hfind =>
    have hmsg := (KeyedTable.find_eq_some.mp hfind).1
    split
    · exact h
    · have hidx : ∀ docid, (changeDocid s.settledIndex (message.mid, updatedMessageId)).Has docid →
          (changeMid s.messages message.mid updatedMessageId).Has docid := by
        intro docid hdocid
        by_cases htaken : s.messages.Has updatedMessageId
        · rw [changeMid, changeKey_of_has htaken]
          rcases has_changeDocid hdocid with hold | ⟨rfl, -⟩
          · exact h.follows docid hold
          · exact htaken
        · have hfree : ¬s.settledIndex.Has updatedMessageId := fun hhas => htaken (h.follows _ hhas)
          refine (has_changeKey htaken _).mpr ?_
          exact ((has_changeKey hfree _).mp hdocid).imp
            (fun hnew => ⟨hnew.1, h.follows _ hnew.2⟩) fun hold => ⟨hold.1, h.follows _ hold.2⟩
      have hrows : ∀ row ∈ (changeMid s.messages message.mid updatedMessageId).rows,
          peerIdIsSecretChat row.cid = true := by
        intro row hrow
        rcases KeyedTable.mem_changeKey hrow with hold | ⟨old, hold, rfl⟩
        · exact h.secret row hold
        · exact h.secret old hold
      dsimp only
      rw [if_pos (h.secret message hmsg)]
      split
      · exact ⟨fun docid hdocid => hidx docid (by simpa [settledIndex, dispatchOnIndexThread] using hdocid), hrows⟩
      · exact ⟨fun docid hdocid => hidx docid (by simpa [settledIndex, dispatchOnIndexThread] using hdocid), hrows⟩

theorem finishTransaction (order : RowOrder (Int × Int))
    (hfits : ChangesFit s.messages s.settledIndex (order.read s.changedMessageIds)) :
    IndexInv (s.finishTransaction order) := by
  unfold MessageIndex.finishTransaction
  split
  · exact h
  · refine ⟨fun docid hdocid => ?_, h.secret⟩
    rw [settledIndex_dispatchOnIndexThread] at hdocid
    exact has_foldl_changeDocid hfits h.follows docid hdocid

theorem stepOp {op : IndexOp} (hfits : s.OpFits op) (hsecret : op.Secret) : IndexInv (s.stepOp op) := by
  cases op with
  | addMessages peerId messages => exact h.addMessages peerId hsecret hfits
  | removeMessages peerId mids => exact h.removeMessages hsecret hfits
  | updateMessage messageId updatedMessageId => exact h.updateMessage messageId updatedMessageId
  | removeMessagesFromConversation peerId order => exact h.removeMessagesFromConversation peerId order hfits
  | finishTransaction order => exact h.finishTransaction order hfits

end

end IndexInv

theorem secret_ops (s : MessageIndex) (t : Transaction) : ∀ op ∈ s.ops t, op.Secret := by
  intro op hop
  simp only [ops, mem_append, mem_map, mem_singleton] at hop
  rcases hop with ((((⟨peerId, -, rfl⟩ | ⟨remove, hremove, rfl⟩) | ⟨update, -, rfl⟩) | ⟨peerId, -, rfl⟩) |
    ⟨peerId, -, rfl⟩) | rfl
  · intro message hmsg
    exact t.secret_addMessages message (mem_of_mem_filter (mem_of_mem_filter hmsg))
  · exact t.secret_removeMessages remove hremove
  all_goals trivial

theorem IndexInv.step (h : IndexInv s) {event : IndexEvent} (hfits : s.TransactionFits event) :
    IndexInv (s.stepIndex event) := by
  cases event with
  | transaction t =>
    have hstep : ∀ s op, IndexInv s → s.OpFits op ∧ op.Secret → IndexInv (s.stepOp op) :=
      fun _ _ hinv hop => hinv.stepOp hop.1 hop.2
    exact AllSteps.invariant hstep h (hfits.and (allSteps_of_forall (s.secret_ops t) s))
  | runIndex =>
    dsimp only [stepIndex]
    split
    · exact h
    · next job jobs hq =>
      -- a job that runs leaves what the index will be
      refine ⟨fun docid hdocid => h.follows docid ?_, h.secret⟩
      unfold settledIndex
      rw [hq]
      exact hdocid

/-- **The index follows the messages**, after every event of a run from the empty database, as long as the transactions
reach the indexed ids of what they remove and give no id away twice. -/
theorem index_follows {events : List IndexEvent} (h : AllSteps stepIndex TransactionFits initMessageIndex events) :
    AllSteps stepIndex (fun s event => (s.stepIndex event).IndexFollows) initMessageIndex events := by
  have hstep : ∀ s event, IndexInv s → s.TransactionFits event → IndexInv (s.stepIndex event) :=
    fun _ _ hinv hfits => hinv.step hfits
  have hfollows : ∀ s event, IndexInv s → s.TransactionFits event → (s.stepIndex event).IndexFollows :=
    fun _ _ hinv hfits => (hinv.step hfits).follows
  refine AllSteps.of_invariant hstep hfollows ⟨fun docid hdocid => ?_, fun message hmessage => ?_⟩ h
  · exact absurd hdocid (KeyedTable.not_has_empty docid)
  · exact absurd hmessage not_mem_nil

/-! ## Removing twenty-one messages -/

def secretPeer : Int := -3000000000

theorem peerIdIsSecretChat_secretPeer : peerIdIsSecretChat secretPeer = true := by decide

def secretMessage (mid : Int) : TGMessage := ⟨mid, secretPeer, 0, 0, "a secret", [], false, 0, false, false⟩

def addSecretMessages (mids : List Int) : Transaction :=
  ⟨mids.map secretMessage, [], [], [], [], .asStored, .asStored, .asStored, by
    intro message hmessage
    obtain ⟨mid, -, rfl⟩ := mem_map.mp hmessage
    exact peerIdIsSecretChat_secretPeer, by simp⟩

def removeSecretMessages (mids : List Int) : Transaction :=
  ⟨[], [(secretPeer, mids)], [], [], [], .asStored, .asStored, .asStored, by simp, by
    intro remove hremove
    obtain rfl := mem_singleton.mp hremove
    exact peerIdIsSecretChat_secretPeer⟩

def clearSecretChat : Transaction :=
  ⟨[], [], [], [secretPeer], [], .asStored, .asStored, .asStored, by simp, by simp⟩

/-- Of five messages that are indexed two are removed, and then the chat is cleared. -/
theorem index_follows_removed :
    AllSteps stepIndex (fun s event => (s.stepIndex event).IndexFollows) initMessageIndex
      [.transaction (addSecretMessages [1, 2, 3, 4, 5]), .runIndex, .transaction (removeSecretMessages [2, 4]), .runIndex,
        .transaction clearSecretChat, .runIndex] := by
  apply index_follows
  refine ⟨⟨?_, trivial, trivial⟩, trivial, ⟨midsReached_of_length_le (by decide), trivial, trivial⟩, trivial,
    ⟨midsReached_of_length_le (by decide), trivial, trivial⟩, trivial, trivial⟩
  have hnone : ∀ message ∈ [1, 2, 3, 4, 5].map secretMessage, message.clearsChat = true → message.indexText = "" := by
    decide
  exact hnone

def twentyOne : List Int := [1, 2, 3, 4, 5, 6, 7, 8, 9, 10, 11, 12, 13, 14, 15, 16, 17, 18, 19, 20, 21]

/-- When twenty-one messages are removed at once, the last one stays in the index. -/
theorem removedMessage_indexed :
    ¬∀ events, AllSteps stepIndex (fun s event => (s.stepIndex event).IndexFollows) initMessageIndex events := by
  intro h
  have hrun := h [.transaction (addSecretMessages twentyOne), .transaction (removeSecretMessages twentyOne)]
  have hlast := hrun.2.1 21 (by decide)
  exact absurd hlast (by decide)

end MessageIndex

end TelegramClient.Database
