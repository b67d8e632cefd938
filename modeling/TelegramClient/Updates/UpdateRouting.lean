import TelegramClient.Lib.Bytes

/-!
# Which queue an update goes to

The server sends updates one by one, in short forms, and in containers. `TGUpdateMessageService` sorts them into four
queues: those with `pts`, those with `qts`, and the others by the `seq` of their container or by its date. Each queue
has an actor that hands them to `_tryApplyingUpdates`, which stores the highest `pts` of what it is given.

* `TLUpdate`, `TLUpdates` : the updates, and the messages that carry them;
* `updateMessageService_routedOnce_iff` : exactly which messages are routed so.

What no function here looks at (users, chats, the rest of an update) is kept as bytes.
-/

namespace TelegramClient.Updates
open List

/-! ## Updates -/

inductive TLPeer where
  | peerUser (userId : Int32)
  | peerChat (chatId : Int32)
deriving DecidableEq

/-- `TLMessage$modernMessage` as it is made of a short message. Its `media` is `messageMediaEmpty`. -/
structure ModernMessage where
  nId : Int32
  flags : Int32
  fromId : Int32
  toId : TLPeer
  date : Int32
  message : Bytes
  fwdFrom : Bytes
  replyToMsgId : Int32
  entities : List Bytes
  viaBotId : Int32
deriving DecidableEq

inductive TLMessage where
  | modernMessage (message : ModernMessage)
  | other (data : Bytes)
deriving DecidableEq

/-- The classes of updates. All but the last two have `pts` and `pts_count`. -/
inductive TLUpdate where
  | updateNewMessage (message : TLMessage) (pts ptsCount : Int32)
  | updateEditMessage (message : TLMessage) (pts ptsCount : Int32)
  | updateDeleteMessages (messages : List Int32) (pts ptsCount : Int32)
  | updateReadHistoryInbox (data : Bytes) (pts ptsCount : Int32)
  | updateReadHistoryOutbox (data : Bytes) (pts ptsCount : Int32)
  | updateReadMessagesContents (messages : List Int32) (pts ptsCount : Int32)
  | updateChangePts (pts ptsCount : Int32)
  | updateWebPage (data : Bytes) (pts ptsCount : Int32)
  | updateNewEncryptedMessage (data : Bytes) (qts : Int32)
  | other (data : Bytes)
deriving DecidableEq

def TLUpdate.hasPts : TLUpdate → Bool
  | .updateNewMessage .. => true
  | .updateEditMessage .. => true
  | .updateDeleteMessages .. => true
  | .updateReadHistoryInbox .. => true
  | .updateReadHistoryOutbox .. => true
  | .updateReadMessagesContents .. => true
  | .updateChangePts .. => true
  | .updateWebPage .. => true
  | _ => false

/-- The property `pts` of the classes that have it. -/
def TLUpdate.pts : TLUpdate → Int32
  | .updateNewMessage _ pts _ => pts
  | .updateEditMessage _ pts _ => pts
  | .updateDeleteMessages _ pts _ => pts
  | .updateReadHistoryInbox _ pts _ => pts
  | .updateReadHistoryOutbox _ pts _ => pts
  | .updateReadMessagesContents _ pts _ => pts
  | .updateChangePts pts _ => pts
  | .updateWebPage _ pts _ => pts
  | _ => 0

/-- `respondsToSelector:@selector(qts)`. -/
def TLUpdate.respondsToQts : TLUpdate → Bool
  | .updateNewEncryptedMessage .. => true
  | _ => false

/-! ## Messages -/

structure ShortMessage where
  flags : Int32
  nId : Int32
  userId : Int32
  message : Bytes
  pts : Int32
  ptsCount : Int32
  date : Int32
  fwdHeader : Bytes
  viaBotId : Int32
  replyToMsgId : Int32
  entities : List Bytes

structure ShortChatMessage where
  flags : Int32
  nId : Int32
  fromId : Int32
  chatId : Int32
  message : Bytes
  pts : Int32
  ptsCount : Int32
  date : Int32
  fwdHeader : Bytes
  viaBotId : Int32
  replyToMsgId : Int32
  entities : List Bytes

inductive TLUpdates where
  | updates (updates : List TLUpdate) (users chats : List Bytes) (date seq : Int32)
  | updatesCombined (updates : List TLUpdate) (users chats : List Bytes) (date seqStart seq : Int32)
  | updateShort (update : TLUpdate) (date : Int32)
  | modernUpdateShortMessage (message : ShortMessage)
  | modernUpdateShortChatMessage (message : ShortChatMessage)
  | updatesTooLong
  | other (data : Bytes)

/-! ## The queues -/

/-- `TGUpdatesWithPts` and `TGUpdatesWithQts`. -/
structure UpdatesGroup where
  updates : List TLUpdate
  users : List Bytes
  chats : List Bytes

structure UpdatesWithSeq extends UpdatesGroup where
  date : Int32
  seqStart : Int32
  seqEnd : Int32

structure UpdatesWithDate extends UpdatesGroup where
  date : Int32

/-- The arrays that are passed to the actors, and how often `updatestate` was asked for. -/
structure UpdateQueues where
  withPts : List UpdatesGroup
  withQts : List UpdatesGroup
  withSeq : List UpdatesWithSeq
  withDate : List UpdatesWithDate
  stateRequests : Nat

def UpdateQueues.empty : UpdateQueues := ⟨[], [], [], [], 0⟩

namespace UpdateQueues

def addWithPts (queues : UpdateQueues) (group : UpdatesGroup) : UpdateQueues :=
  { queues with withPts := queues.withPts ++ [group] }

def addWithQts (queues : UpdateQueues) (group : UpdatesGroup) : UpdateQueues :=
  { queues with withQts := queues.withQts ++ [group] }

def addWithSeq (queues : UpdateQueues) (group : UpdatesWithSeq) : UpdateQueues :=
  { queues with withSeq := queues.withSeq ++ [group] }

def addWithDate (queues : UpdateQueues) (group : UpdatesWithDate) : UpdateQueues :=
  { queues with withDate := queues.withDate ++ [group] }

/-- What both methods do with the updates of a container. An update with `pts` is not kept from the others. -/
def addContainer (queues : UpdateQueues) (containedUpdates : List TLUpdate) (users chats : List Bytes)
    (date seqStart seqEnd : Int32) : UpdateQueues :=
  let updatesWithPts := containedUpdates.filter (·.hasPts)
  let updatesWithQts := containedUpdates.filter (·.respondsToQts)
  let otherUpdates := containedUpdates.filter (!·.respondsToQts)
  let queues := if updatesWithPts.length ≠ 0 then queues.addWithPts ⟨updatesWithPts, users, chats⟩ else queues
  let queues := if updatesWithQts.length ≠ 0 then queues.addWithQts ⟨updatesWithQts, users, chats⟩ else queues
  if seqEnd ≠ 0 then queues.addWithSeq ⟨⟨otherUpdates, users, chats⟩, date, seqStart, seqEnd⟩
  else queues.addWithDate ⟨⟨otherUpdates, users, chats⟩, date⟩

def addShort (queues : UpdateQueues) (update : TLUpdate) (date : Int32) : UpdateQueues :=
  if update.hasPts then queues.addWithPts ⟨[update], [], []⟩
  else if update.respondsToQts then queues.addWithQts ⟨[update], [], []⟩
  else queues.addWithDate ⟨⟨[update], [], []⟩, date⟩

end UpdateQueues

def ShortMessage.synthesize (clientUserId : Int32) (short : ShortMessage) : TLUpdate :=
  let outgoing := short.flags &&& 2 ≠ 0
  .updateNewMessage (.modernMessage {
    nId := short.nId
    flags := short.flags
    fromId := if outgoing then clientUserId else short.userId
    toId := .peerUser (if outgoing then short.userId else clientUserId)
    date := short.date
    message := short.message
    fwdFrom := short.fwdHeader
    replyToMsgId := short.replyToMsgId
    entities := short.entities
    viaBotId := short.viaBotId }) short.pts short.ptsCount

def ShortChatMessage.synthesize (short : ShortChatMessage) : TLUpdate :=
  .updateNewMessage (.modernMessage {
    nId := short.nId
    flags := short.flags
    fromId := short.fromId
    toId := .peerChat short.chatId
    date := short.date
    message := short.message
    fwdFrom := short.fwdHeader
    replyToMsgId := short.replyToMsgId
    entities := short.entities
    viaBotId := short.viaBotId }) short.pts short.ptsCount

/-- `NSAssert(false, @"Unknown updates message class %@", incomingMessage.body)`. -/
structure UnknownUpdatesClass where
  data : Bytes
deriving DecidableEq

section
variable (clientUserId : Int32)

/-- A round of the loop of `processMessages:`. -/
def processMessage (queues : UpdateQueues) : TLUpdates → Except UnknownUpdatesClass UpdateQueues
  | .updates updates users chats date seq => .ok (queues.addContainer updates users chats date seq seq)
  | .updatesCombined updates users chats date seqStart seq =>
    .ok (queues.addContainer updates users chats date seqStart seq)
  | .updateShort update date => .ok (queues.addShort update date)
  | .modernUpdateShortChatMessage short => .ok (queues.addWithPts ⟨[short.synthesize], [], []⟩)
  | .modernUpdateShortMessage short => .ok (queues.addWithPts ⟨[short.synthesize clientUserId], [], []⟩)
  | .updatesTooLong =>
    .ok (if clientUserId ≠ 0 then { queues with stateRequests := queues.stateRequests + 1 } else queues)
  | .other data => .error ⟨data⟩

def processMessages (messages : List TLUpdates) : Except UnknownUpdatesClass UpdateQueues :=
  messages.foldlM (processMessage clientUserId) UpdateQueues.empty

end

/-- `addUpdates:`, for the result of a request. Of a body that is no container it takes nothing. -/
def addUpdates : TLUpdates → UpdateQueues
  | .updates updates users chats date seq => UpdateQueues.empty.addContainer updates users chats date seq seq
  | .updatesCombined updates users chats date seqStart seq =>
    UpdateQueues.empty.addContainer updates users chats date seqStart seq
  | _ => UpdateQueues.empty.addContainer [] [] [] 0 0 0

/-- The `pts` that `_tryApplyingUpdates` stores when it is not zero. -/
def statePts (updates : List TLUpdate) : Int32 :=
  updates.foldl (fun statePts update => if update.hasPts then max statePts update.pts else statePts) 0

/-! ## The right queue -/

section
variable (clientUserId : Int32)

/-- The updates that a message brings. A short message stands for an `updateNewMessage`. -/
def TLUpdates.containedUpdates : TLUpdates → List TLUpdate
  | .updates contained _ _ _ _ => contained
  | .updatesCombined contained _ _ _ _ _ => contained
  | .updateShort update _ => [update]
  | .modernUpdateShortMessage short => [short.synthesize clientUserId]
  | .modernUpdateShortChatMessage short => [short.synthesize]
  | .updatesTooLong => []
  | .other _ => []

def TLUpdates.hasSeq : TLUpdates → Bool
  | .updates _ _ _ _ seq => seq ≠ 0
  | .updatesCombined _ _ _ _ _ seq => seq ≠ 0
  | _ => false

def TLUpdates.isContainer : TLUpdates → Bool
  | .updates .. => true
  | .updatesCombined .. => true
  | _ => false

/-- One of the messages that `processMessages:` knows. -/
def TLUpdates.isKnown : TLUpdates → Bool
  | .other _ => false
  | _ => true

/-- The updates that belong in none of the first two queues. -/
def TLUpdate.isOther (update : TLUpdate) : Bool := !update.hasPts && !update.respondsToQts

/-- Each contained update stands once in the queue it belongs to, in the order of arrival, and nothing else does; and no
`pts` is stored on the way of the last two queues. -/
structure RoutedOnce (messages : List TLUpdates) (queues : UpdateQueues) : Prop where
  withPts : queues.withPts.flatMap (·.updates) =
    (messages.flatMap (·.containedUpdates clientUserId)).filter (·.hasPts)
  withQts : queues.withQts.flatMap (·.updates) =
    (messages.flatMap (·.containedUpdates clientUserId)).filter fun update => !update.hasPts && update.respondsToQts
  withSeq : queues.withSeq.flatMap (·.updates) =
    ((messages.filter (·.hasSeq)).flatMap (·.containedUpdates clientUserId)).filter (·.isOther)
  withDate : queues.withDate.flatMap (·.updates) =
    ((messages.filter (!·.hasSeq)).flatMap (·.containedUpdates clientUserId)).filter (·.isOther)
  statePts : ∀ group, group ∈ queues.withSeq.map (·.updates) ++ queues.withDate.map (·.updates) →
    statePts group = 0

/-! ## What a message adds -/

/-- The updates that a message adds to each queue. -/
structure AddedUpdates where
  withPts : List TLUpdate
  withQts : List TLUpdate
  withSeq : List TLUpdate
  withDate : List TLUpdate

def AddedUpdates.ofContainer (containedUpdates : List TLUpdate) (seqEnd : Int32) : AddedUpdates where
  withPts := containedUpdates.filter (·.hasPts)
  withQts := containedUpdates.filter (·.respondsToQts)
  withSeq := if seqEnd ≠ 0 then containedUpdates.filter (!·.respondsToQts) else []
  withDate := if seqEnd ≠ 0 then [] else containedUpdates.filter (!·.respondsToQts)

structure Extends (queues : UpdateQueues) (added : AddedUpdates) (queues' : UpdateQueues) : Prop where
  withPts : queues'.withPts.flatMap (·.updates) = queues.withPts.flatMap (·.updates) ++ added.withPts
  withQts : queues'.withQts.flatMap (·.updates) = queues.withQts.flatMap (·.updates) ++ added.withQts
  withSeq : queues'.withSeq.flatMap (·.updates) = queues.withSeq.flatMap (·.updates) ++ added.withSeq
  withDate : queues'.withDate.flatMap (·.updates) = queues.withDate.flatMap (·.updates) ++ added.withDate

variable (updates : List TLUpdate) (queues : UpdateQueues)

variable (group : UpdatesGroup)

theorem extends_addWithPts : Extends queues ⟨group.updates, [], [], []⟩ (queues.addWithPts group) := by
  constructor <;> simp [UpdateQueues.addWithPts]

theorem extends_addWithQts : Extends queues ⟨[], group.updates, [], []⟩ (queues.addWithQts group) := by
  constructor <;> simp [UpdateQueues.addWithQts]

theorem extends_addWithSeq (group : UpdatesWithSeq) :
    Extends queues ⟨[], [], group.updates, []⟩ (queues.addWithSeq group) := by
  constructor <;> simp [UpdateQueues.addWithSeq]

theorem extends_addWithDate (group : UpdatesWithDate) :
    Extends queues ⟨[], [], [], group.updates⟩ (queues.addWithDate group) := by
  constructor <;> simp [UpdateQueues.addWithDate]

theorem Extends.refl : Extends queues ⟨[], [], [], []⟩ queues := by
  constructor <;> simp

theorem Extends.trans {queues queues' queues'' : UpdateQueues} {added added' : AddedUpdates}
    (h : Extends queues added queues') (h' : Extends queues' added' queues'') :
    Extends queues ⟨added.withPts ++ added'.withPts, added.withQts ++ added'.withQts, added.withSeq ++ added'.withSeq,
      added.withDate ++ added'.withDate⟩ queues'' := by
  constructor
  · rw [h'.withPts, h.withPts, append_assoc]
  · rw [h'.withQts, h.withQts, append_assoc]
  · rw [h'.withSeq, h.withSeq, append_assoc]
  · rw [h'.withDate, h.withDate, append_assoc]

theorem extends_addContainer (containedUpdates : List TLUpdate) (users chats : List Bytes)
    (date seqStart seqEnd : Int32) : Extends queues (AddedUpdates.ofContainer containedUpdates seqEnd)
      (queues.addContainer containedUpdates users chats date seqStart seqEnd) := by
  set updatesWithPts := containedUpdates.filter (·.hasPts) with hwithPts
  set updatesWithQts := containedUpdates.filter (·.respondsToQts) with hwithQts
  have hpts : Extends queues ⟨updatesWithPts, [], [], []⟩
      (if updatesWithPts.length ≠ 0 then queues.addWithPts ⟨updatesWithPts, users, chats⟩ else queues) := by
    split
    · exact extends_addWithPts queues ⟨updatesWithPts, users, chats⟩
    case isFalse hnone =>
      rw [length_eq_zero_iff.mp (not_not.mp hnone)]
      exact Extends.refl queues
  have hqts : ∀ queues : UpdateQueues, Extends queues ⟨[], updatesWithQts, [], []⟩
      (if updatesWithQts.length ≠ 0 then queues.addWithQts ⟨updatesWithQts, users, chats⟩ else queues) := by
    intro queues
    split
    · exact extends_addWithQts queues ⟨updatesWithQts, users, chats⟩
    case isFalse hnone =>
      rw [length_eq_zero_iff.mp (not_not.mp hnone)]
      exact Extends.refl queues
  have hboth := hpts.trans (hqts _)
  unfold UpdateQueues.addContainer AddedUpdates.ofContainer
  dsimp only
  rw [← hwithPts, ← hwithQts]
  split
  · simpa only [append_nil, nil_append] using hboth.trans (extends_addWithSeq _
      ⟨⟨containedUpdates.filter (!·.respondsToQts), users, chats⟩, date, seqStart, seqEnd⟩)
  · simpa only [append_nil, nil_append] using hboth.trans (extends_addWithDate _
      ⟨⟨containedUpdates.filter (!·.respondsToQts), users, chats⟩, date⟩)

def TLUpdates.added : TLUpdates → AddedUpdates
  | .updates contained _ _ _ seq => AddedUpdates.ofContainer contained seq
  | .updatesCombined contained _ _ _ _ seq => AddedUpdates.ofContainer contained seq
  | .updateShort update _ =>
    ⟨[update].filter (·.hasPts), [update].filter fun update => !update.hasPts && update.respondsToQts, [],
      [update].filter (·.isOther)⟩
  | .modernUpdateShortMessage short => ⟨[short.synthesize clientUserId], [], [], []⟩
  | .modernUpdateShortChatMessage short => ⟨[short.synthesize], [], [], []⟩
  | .updatesTooLong => ⟨[], [], [], []⟩
  | .other _ => ⟨[], [], [], []⟩

theorem extends_addShort (update : TLUpdate) (date : Int32) :
    Extends queues ((TLUpdates.updateShort update date).added clientUserId) (queues.addShort update date) := by
  unfold UpdateQueues.addShort TLUpdates.added TLUpdate.isOther
  by_cases hpts : update.hasPts = true
  · simpa [hpts] using extends_addWithPts queues ⟨[update], [], []⟩
  · by_cases hqts : update.respondsToQts = true
    · simpa [hpts, hqts] using extends_addWithQts queues ⟨[update], [], []⟩
    · simpa [hpts, hqts] using extends_addWithDate queues ⟨⟨[update], [], []⟩, date⟩

theorem extends_processMessage {message : TLUpdates} (hknown : message.isKnown = true) :
    ∃ queues', processMessage clientUserId queues message = .ok queues' ∧
      Extends queues (message.added clientUserId) queues' := by
  cases message with
  | updates updates users chats date seq => exact ⟨_, rfl, extends_addContainer queues updates users chats date seq seq⟩
  | updatesCombined updates users chats date seqStart seq =>
    exact ⟨_, rfl, extends_addContainer queues updates users chats date seqStart seq⟩
  | updateShort update date => exact ⟨_, rfl, extends_addShort clientUserId queues update date⟩
  | modernUpdateShortMessage short =>
    exact ⟨_, rfl, extends_addWithPts queues ⟨[short.synthesize clientUserId], [], []⟩⟩
  | modernUpdateShortChatMessage short => exact ⟨_, rfl, extends_addWithPts queues ⟨[short.synthesize], [], []⟩⟩
  | updatesTooLong =>
    refine ⟨_, rfl, ?_⟩
    split
    · constructor <;> simp [TLUpdates.added]
    · exact Extends.refl queues
  | other data => exact absurd hknown Bool.false_ne_true

def addedByAll (messages : List TLUpdates) : AddedUpdates where
  withPts := messages.flatMap fun message => (message.added clientUserId).withPts
  withQts := messages.flatMap fun message => (message.added clientUserId).withQts
  withSeq := messages.flatMap fun message => (message.added clientUserId).withSeq
  withDate := messages.flatMap fun message => (message.added clientUserId).withDate

variable {messages : List TLUpdates}

theorem extends_processMessages (hknown : ∀ message ∈ messages, message.isKnown = true) (queues : UpdateQueues) :
    ∃ queues', messages.foldlM (processMessage clientUserId) queues = .ok queues' ∧
      Extends queues (addedByAll clientUserId messages) queues' := by
  induction messages generalizing queues with
  | nil => exact ⟨queues, rfl, Extends.refl queues⟩
  | cons message messages ih =>
    obtain ⟨queues', hrun, hadded⟩ := extends_processMessage clientUserId queues (hknown message mem_cons_self)
    obtain ⟨queues'', hrun', hadded'⟩ :=
      ih (fun other hm => hknown other (mem_cons_of_mem message hm)) queues'
    refine ⟨queues'', ?_, hadded.trans hadded'⟩
    rw [foldlM_cons, hrun]
    exact hrun'

/-! ## When it is the right queue -/

theorem hasPts_eq_false_of_qts {update : TLUpdate} (h : update.respondsToQts = true) : update.hasPts = false := by
  cases update <;> first | rfl | exact absurd h Bool.false_ne_true

variable (message : TLUpdates)

theorem filter_qts :
    (updates.filter fun update => !update.hasPts && update.respondsToQts) = updates.filter (·.respondsToQts) := by
  refine filter_congr fun update _ => ?_
  cases hqts : update.respondsToQts with
  | true => rw [hasPts_eq_false_of_qts hqts]; rfl
  | false => rw [Bool.and_false]

theorem filter_isOther : updates.filter (·.isOther) = (updates.filter (!·.respondsToQts)).filter (!·.hasPts) := by
  rw [filter_filter]
  rfl

theorem withPts_added :
    (message.added clientUserId).withPts = (message.containedUpdates clientUserId).filter (·.hasPts) := by
  cases message <;> rfl

theorem withQts_added : (message.added clientUserId).withQts =
      (message.containedUpdates clientUserId).filter fun update => !update.hasPts && update.respondsToQts := by
  cases message with
  | updates updates users chats date seq => exact (filter_qts updates).symm
  | updatesCombined updates users chats date seqStart seq => exact (filter_qts updates).symm
  | _ => rfl

theorem AddedUpdates.filter_ofContainer (seqEnd : Int32) :
    (AddedUpdates.ofContainer updates seqEnd).withSeq.filter (!·.hasPts) =
        (if decide (seqEnd ≠ 0) then updates.filter (·.isOther) else []) ∧
      (AddedUpdates.ofContainer updates seqEnd).withDate.filter (!·.hasPts) =
        if decide (seqEnd ≠ 0) then [] else updates.filter (·.isOther) := by
  rw [filter_isOther]
  unfold AddedUpdates.ofContainer
  by_cases hseq : seqEnd = 0 <;> simp [hseq]

theorem filter_withSeq_added : ((message.added clientUserId).withSeq).filter (!·.hasPts) =
      if message.hasSeq then (message.containedUpdates clientUserId).filter (·.isOther) else [] := by
  cases message with
  | updates updates users chats date seq => exact (AddedUpdates.filter_ofContainer updates seq).1
  | updatesCombined updates users chats date seqStart seq => exact (AddedUpdates.filter_ofContainer updates seq).1
  | _ => rfl

theorem filter_withDate_added : ((message.added clientUserId).withDate).filter (!·.hasPts) =
      if message.hasSeq then [] else (message.containedUpdates clientUserId).filter (·.isOther) := by
  cases message with
  | updates updates users chats date seq => exact (AddedUpdates.filter_ofContainer updates seq).2
  | updatesCombined updates users chats date seqStart seq => exact (AddedUpdates.filter_ofContainer updates seq).2
  | updateShort update date =>
    show ([update].filter (·.isOther)).filter (!·.hasPts) = [update].filter (·.isOther)
    rw [filter_isOther, filter_filter, filter_filter]
    simp
  | _ => rfl

theorem filter_flatMap_filter (p : TLUpdates → Bool) (f : TLUpdates → List TLUpdate) (q : TLUpdate → Bool)
    (messages : List TLUpdates) : ((messages.filter p).flatMap f).filter q = messages.flatMap fun message =>
      if p message then (f message).filter q else [] := by
  induction messages with
  | nil => rfl
  | cons message messages ih =>
    rw [flatMap_cons, ← ih]
    cases hp : p message <;> simp [hp]

theorem statePts_eq_zero {updates : List TLUpdate} (h : ∀ update ∈ updates, update.hasPts = false) :
    statePts updates = 0 := by
  unfold statePts
  induction updates with
  | nil => rfl
  | cons update updates ih =>
    rw [foldl_cons, h update mem_cons_self]
    exact ih fun other hm => h other (mem_cons_of_mem update hm)

/-- The updates of a message that go on without a check of their `pts`. -/
def TLUpdates.unchecked (message : TLUpdates) : List TLUpdate :=
  (message.added clientUserId).withSeq ++ (message.added clientUserId).withDate

theorem routedOnce_iff_unchecked {queues : UpdateQueues}
    (h : Extends UpdateQueues.empty (addedByAll clientUserId messages) queues) :
    RoutedOnce clientUserId messages queues ↔
      ∀ message ∈ messages, ∀ update ∈ message.unchecked clientUserId, update.hasPts = false := by
  have hseq : ((messages.filter (·.hasSeq)).flatMap (·.containedUpdates clientUserId)).filter (·.isOther) =
      (addedByAll clientUserId messages).withSeq.filter (!·.hasPts) := by
    rw [filter_flatMap_filter, addedByAll, filter_flatMap]
    exact flatMap_congr fun message _ => (filter_withSeq_added clientUserId message).symm
  have hdate : ((messages.filter (!·.hasSeq)).flatMap (·.containedUpdates clientUserId)).filter (·.isOther) =
      (addedByAll clientUserId messages).withDate.filter (!·.hasPts) := by
    rw [filter_flatMap_filter, addedByAll, filter_flatMap]
    refine flatMap_congr fun message _ => ?_
    rw [filter_withDate_added]
    cases message.hasSeq <;> rfl
  obtain ⟨hwithPts, hwithQts, hwithSeq, hwithDate⟩ := h
  simp only [UpdateQueues.empty, flatMap_nil, nil_append] at hwithPts hwithQts hwithSeq hwithDate
  constructor
  · intro hrouted message hmsg update hupd
    have hclean : ∀ update ∈ (addedByAll clientUserId messages).withSeq ++ (addedByAll clientUserId messages).withDate,
        update.hasPts = false := by
      have hseqEq := hrouted.withSeq
      have hdateEq := hrouted.withDate
      rw [hwithSeq, hseq] at hseqEq
      rw [hwithDate, hdate] at hdateEq
      intro update hm
      rcases mem_append.mp hm with hm | hm
      · exact Bool.not_eq_true' _ ▸ filter_eq_self.mp hseqEq.symm update hm
      · exact Bool.not_eq_true' _ ▸ filter_eq_self.mp hdateEq.symm update hm
    rcases mem_append.mp hupd with hupd | hupd
    · exact hclean update (mem_append_left _ (mem_flatMap.mpr ⟨message, hmsg, hupd⟩))
    · exact hclean update (mem_append_right _ (mem_flatMap.mpr ⟨message, hmsg, hupd⟩))
  · intro hclean
    have hcleanSeq : ∀ update ∈ (addedByAll clientUserId messages).withSeq, update.hasPts = false := by
      intro update hupd
      obtain ⟨message, hmsg, hm⟩ := mem_flatMap.mp hupd
      exact hclean message hmsg update (mem_append_left _ hm)
    have hcleanDate : ∀ update ∈ (addedByAll clientUserId messages).withDate, update.hasPts = false := by
      intro update hupd
      obtain ⟨message, hmsg, hm⟩ := mem_flatMap.mp hupd
      exact hclean message hmsg update (mem_append_right _ hm)
    constructor
    · rw [hwithPts, filter_flatMap]
      exact flatMap_congr fun message _ => withPts_added clientUserId message
    · rw [hwithQts, filter_flatMap]
      exact flatMap_congr fun message _ => withQts_added clientUserId message
    · rw [hwithSeq, hseq, filter_eq_self.mpr fun update hm => by rw [hcleanSeq update hm]; rfl]
    · rw [hwithDate, hdate, filter_eq_self.mpr fun update hm => by rw [hcleanDate update hm]; rfl]
    · intro group hgroup
      refine statePts_eq_zero fun update hupd => ?_
      rcases mem_append.mp hgroup with hgroup | hgroup
      · obtain ⟨updatesWithSeq, hm, rfl⟩ := mem_map.mp hgroup
        exact hcleanSeq update (hwithSeq ▸ mem_flatMap.mpr ⟨updatesWithSeq, hm, hupd⟩)
      · obtain ⟨updatesWithDate, hm, rfl⟩ := mem_map.mp hgroup
        exact hcleanDate update (hwithDate ▸ mem_flatMap.mpr ⟨updatesWithDate, hm, hupd⟩)

theorem unchecked_ofContainer (contained : List TLUpdate) (seqEnd : Int32) :
    (AddedUpdates.ofContainer contained seqEnd).withSeq ++ (AddedUpdates.ofContainer contained seqEnd).withDate =
      contained.filter (!·.respondsToQts) := by
  unfold AddedUpdates.ofContainer
  split
  · exact append_nil _
  · rfl

theorem unchecked_iff : (∀ update ∈ message.unchecked clientUserId, update.hasPts = false) ↔
      (message.isContainer = true → ∀ update ∈ message.containedUpdates clientUserId, update.hasPts = false) := by
  have hcont : ∀ contained : List TLUpdate, (∀ update ∈ contained.filter (!·.respondsToQts), update.hasPts = false) ↔
        ∀ update ∈ contained, update.hasPts = false := by
    intro contained
    constructor
    · intro h update hm
      cases hqts : update.respondsToQts with
      | true => exact hasPts_eq_false_of_qts hqts
      | false => exact h update (mem_filter.mpr ⟨hm, by rw [hqts]; rfl⟩)
    · exact fun h update hm => h update (mem_filter.mp hm).1
  cases message with
  | updates contained users chats date seq | updatesCombined contained users chats date seqStart seq =>
    show (∀ update ∈ _ ++ _, _) ↔ (true = true → _)
    rw [TLUpdates.added, unchecked_ofContainer, hcont, forall_prop_of_true rfl]
    rfl
  | updateShort update date =>
    have hother : ∀ other ∈ [update].filter (·.isOther), other.hasPts = false := by
      intro other hm
      have := (mem_filter.mp hm).2
      rw [TLUpdate.isOther, Bool.and_eq_true, Bool.not_eq_true'] at this
      exact this.1
    simpa [TLUpdates.isContainer, TLUpdates.unchecked, TLUpdates.added] using hother
  | _ => simp [TLUpdates.isContainer, TLUpdates.unchecked, TLUpdates.added]

/-! ## The two methods -/

theorem processMessages_routedOnce_iff (hknown : ∀ message ∈ messages, message.isKnown = true) :
    (∃ queues, processMessages clientUserId messages = .ok queues ∧ RoutedOnce clientUserId messages queues) ↔
      ∀ message ∈ messages, message.isContainer = true →
        ∀ update ∈ message.containedUpdates clientUserId, update.hasPts = false := by
  obtain ⟨queues, hrun, hadded⟩ := extends_processMessages clientUserId hknown UpdateQueues.empty
  have hiff := routedOnce_iff_unchecked clientUserId hadded
  simp only [unchecked_iff] at hiff
  rw [← hiff]
  constructor
  · rintro ⟨queues', hrun', hrouted⟩
    have heq : queues' = queues := Except.ok.inj (hrun'.symm.trans hrun)
    exact heq ▸ hrouted
  · exact fun hrouted => ⟨queues, hrun, hrouted⟩

variable {body : TLUpdates}

theorem addUpdates_container_iff (hcont : body.isContainer = true) : RoutedOnce clientUserId [body] (addUpdates body) ↔
      ∀ update ∈ body.containedUpdates clientUserId, update.hasPts = false := by
  have hadded : Extends UpdateQueues.empty (body.added clientUserId) (addUpdates body) := by
    cases body with
    | updates contained users chats date seq => exact extends_addContainer _ contained users chats date seq seq
    | updatesCombined contained users chats date seqStart seq =>
      exact extends_addContainer _ contained users chats date seqStart seq
    | _ => exact absurd hcont Bool.false_ne_true
  have hall : addedByAll clientUserId [body] = body.added clientUserId := by
    simp [addedByAll]
  rw [routedOnce_iff_unchecked clientUserId (hall ▸ hadded), forall_mem_singleton, unchecked_iff]
  exact forall_prop_of_true hcont

theorem addUpdates_short_iff (hshort : body.isContainer = false) :
    RoutedOnce clientUserId [body] (addUpdates body) ↔ body.containedUpdates clientUserId = [] := by
  have hqueues : addUpdates body = UpdateQueues.empty.addContainer [] [] [] 0 0 0 := by
    cases body <;> first | rfl | exact absurd hshort.symm Bool.false_ne_true
  have hseq : body.hasSeq = false := by
    cases body <;> first | rfl | exact absurd hshort.symm Bool.false_ne_true
  rw [hqueues]
  constructor
  · rintro ⟨hwithPts, hwithQts, -, hwithDate, -⟩
    have hdate : [body].filter (!·.hasSeq) = [body] := filter_eq_self.mpr (by simp [hseq])
    rw [flatMap_singleton] at hwithPts hwithQts
    rw [hdate, flatMap_singleton] at hwithDate
    rw [eq_nil_iff_forall_not_mem]
    intro update hm
    have hnone := fun p (hp : ([] : List TLUpdate) = (body.containedUpdates clientUserId).filter p) =>
      filter_eq_nil_iff.mp hp.symm update hm
    cases hpts : update.hasPts with
    | true => exact hnone _ hwithPts hpts
    | false =>
      cases hqts : update.respondsToQts with
      | true => exact hnone _ hwithQts (by rw [hpts, hqts]; rfl)
      | false => exact hnone _ hwithDate (by rw [TLUpdate.isOther, hpts, hqts]; rfl)
  · intro hempty
    constructor
    all_goals
      simp [hempty, hseq, UpdateQueues.addContainer, UpdateQueues.empty, UpdateQueues.addWithDate, statePts]

/-- The service puts each update into the one queue it belongs to when, and only when, no container brings an update
with `pts`, and what is passed to `addUpdates:` is a container. -/
theorem updateMessageService_routedOnce_iff {messages : List TLUpdates}
    (hknown : ∀ message ∈ messages, message.isKnown = true) (body : TLUpdates) :
    ((∃ queues, processMessages clientUserId messages = .ok queues ∧ RoutedOnce clientUserId messages queues) ↔
        ∀ message ∈ messages, message.isContainer = true →
          ∀ update ∈ message.containedUpdates clientUserId, update.hasPts = false) ∧
      (RoutedOnce clientUserId [body] (addUpdates body) ↔
        ∀ update ∈ body.containedUpdates clientUserId, body.isContainer = true ∧ update.hasPts = false) := by
  refine ⟨processMessages_routedOnce_iff clientUserId hknown, ?_⟩
  cases hcontainer : body.isContainer with
  | true =>
      rw [addUpdates_container_iff clientUserId hcontainer]
      simp
  | false =>
      rw [addUpdates_short_iff clientUserId hcontainer, eq_nil_iff_forall_not_mem]
      simp

end

/-- A container with a seq, a new message and another update. -/
def mixedContainer : TLUpdates := .updates [.updateNewMessage (.other [1]) 120 1, .other [2]] [] [] 1000 7

/-- The new message stands in two queues, and the second one would store its `pts` without a look at the stored one. -/
theorem mixedContainer_routedTwice :
    (∃ queues, processMessages 5 [mixedContainer] = .ok queues ∧
      queues.withPts.map (·.updates) = [[.updateNewMessage (.other [1]) 120 1]] ∧
      queues.withSeq.map (·.updates) = [[.updateNewMessage (.other [1]) 120 1, .other [2]]] ∧
      queues.withSeq.map (fun group => statePts group.updates) = [120]) ∧
      ¬∃ queues, processMessages 5 [mixedContainer] = .ok queues ∧ RoutedOnce 5 [mixedContainer] queues := by
  refine ⟨⟨_, rfl, by decide, by decide, by decide⟩, ?_⟩
  rintro ⟨queues, hrun, hrouted⟩
  cases hrun
  exact absurd (hrouted.statePts _ mem_cons_self) (by decide)

/-- A message of each kind that is routed right. -/
theorem plainMessages_routedOnce :
    (∃ queues, processMessages 5 [.updates [.other [2]] [] [] 1000 7, .updateShort (.updateChangePts 121 1) 1001] =
        .ok queues ∧
      RoutedOnce 5 [.updates [.other [2]] [] [] 1000 7, .updateShort (.updateChangePts 121 1) 1001] queues) ∧
      RoutedOnce 5 [.updates [.other [3]] [] [] 1000 0] (addUpdates (.updates [.other [3]] [] [] 1000 0)) :=
  have hboth := @updateMessageService_routedOnce_iff 5
    [.updates [.other [2]] [] [] 1000 7, .updateShort (.updateChangePts 121 1) 1001] (by decide)
    (.updates [.other [3]] [] [] 1000 0)
  ⟨hboth.1.mpr (by decide), hboth.2.mpr (by decide)⟩

end TelegramClient.Updates
