import TelegramClient.MtProto.Process
import Mathlib.Data.List.Nodup

/-!
# Receipts: what is acted on, and what is confirmed

Runs of `MTProto` over everything that reaches its session, and the log of the messages that came in.

* `Inv` : what the log says about the session; `inv_receive`, `inv_stepEvent`, `inv_runEvents` : it holds throughout;
* `runEvents_atMostOnce` : **an id is acted on at most once in a session**;
* `runEvents_scheduled` : **which ids are confirmed**.
-/

namespace TelegramClient.MtProto
open List hiding get modify

section
variable {η β ρ : Type} (env : Surroundings η β ρ)

/-- A message is processed and logged, also where processing it ends in an exception. -/
def receive (useUnauthorizedMode : Bool) (delivery : Delivery) (message : MTIncomingMessage β) : ProtoM η β ρ Unit :=
  fun s =>
    let record (s' : ProtoState η β ρ) : ProtoState η β ρ :=
      { s' with log := s'.log ++ [⟨s.epoch, message, s'.actions⟩] }
    match processIncomingMessage env useUnauthorizedMode delivery message { s with actions := [] } with
    | .ok _ s' => .ok () (record s')
    | .error e s' => .error e (record s')

/-! ## Runs -/

/-- What reaches `MTProto` on its queue. -/
inductive Event (η β ρ : Type) where
  /-- `transportHasIncomingData:` with the messages that were parsed. -/
  | incoming (delivery : Delivery) (requestTransactionAfterProcessing : Bool) (messages : List (MTIncomingMessage β))
  /-- The same with data that was not understood. -/
  | parseError (delivery : Delivery)
  | transactionsSucceeded (transactionIds : List Nat)
  /-- A transaction with the confirmations of these messages went out. -/
  | assignTransactionId (transactionId : Nat) (messageIds : List (BitVec 64))
  /-- Ids and numbers were taken for outgoing messages. -/
  | outgoing (lastClientMessageId : BitVec 64) (seqNo : BitVec 32)
      (containerMessagesMapping : List (BitVec 64 × List (BitVec 64)))
  | resetSessionInfo
  /-- The block of `requestTransportTransaction`. -/
  | queuePass
  /-- Anything that does not reach the session. -/
  | surroundings (rest : ProtoRest η ρ)

def transportTransactionsSucceeded (transactionIds : List Nat) : ProtoM η β ρ Unit :=
  modify fun s => { s with session := s.session.removeScheduledMessageConfirmations transactionIds }

def queuePass : ProtoM η β ρ Unit := do
  let s ← get
  if s.willRequestTransactionOnNextQueuePass then
    modify fun s => { s with willRequestTransactionOnNextQueuePass := false }
    if !s.rest.has stopped && !s.rest.has paused then performEffect env .setDelegateNeedsTransaction

def stepEvent (useUnauthorizedMode : Bool) : Event η β ρ → ProtoM η β ρ Unit
  | .incoming delivery requestTransactionAfterProcessing messages => do
    transportTransactionsSucceeded [delivery.transactionId]
    forM messages (receive env useUnauthorizedMode delivery)
    requestTransactionIf requestTransactionAfterProcessing
  | .parseError delivery => do
    performEffect env (.transactionsMayHaveFailed [delivery.transactionId])
    resetSessionInfo env
  | .transactionsSucceeded transactionIds => transportTransactionsSucceeded transactionIds
  | .assignTransactionId transactionId messageIds =>
    modify fun s => { s with session := s.session.assignTransactionId transactionId messageIds }
  | .outgoing lastClientMessageId seqNo containerMessagesMapping =>
    modify fun s => { s with session := { s.session with
      lastClientMessageId := lastClientMessageId
      seqNo := seqNo
      containerMessagesMapping := containerMessagesMapping } }
  | .resetSessionInfo => resetSessionInfo env
  | .queuePass => queuePass env
  | .surroundings rest => modifyRest fun _ => rest

def initState (rest : ProtoRest η ρ) : ProtoState η β ρ :=
  ⟨MTSessionInfo.initWithSessionId (env.randomSessionId 0), false, rest, 0, [], []⟩

def runEvents (useUnauthorizedMode : Bool) (events : List (Event η β ρ)) (rest : ProtoRest η ρ) : ProtoState η β ρ :=
  finalState (forM events (stepEvent env useUnauthorizedMode)) (initState env rest)

/-! ## The invariant -/

/-- The receipt is of this id, and of the session with this number. -/
def Receipt.isOf (epoch : Nat) (id : BitVec 64) (receipt : Receipt η β) : Bool :=
  decide (receipt.epoch = epoch ∧ receipt.message.messageId = id)

/-- A response that the message announced, and that no service asked for. -/
def Receipt.Declined (receipt : Receipt η β) (id : BitVec 64) : Prop :=
  (∃ requestMessageId responseLength status,
    receipt.message.body = .inl (.msgDetailedResponseInfo requestMessageId id responseLength status)) ∧
    ∀ action ∈ receipt.actions, action.requests = false

def Receipt.acted (receipt : Receipt η β) : Bool := !receipt.actions.isEmpty

def actedKeys (log : List (Receipt η β)) : List (Nat × BitVec 64) :=
  (log.filter fun receipt => receipt.acted).map fun receipt => (receipt.epoch, receipt.message.messageId)

/-- A reason to confirm the id: a content message, a response that was declined, or a second receipt. -/
def Justified (epoch : Nat) (log : List (Receipt η β)) (id : BitVec 64) : Prop :=
  (∃ receipt ∈ log, receipt.isOf epoch id = true ∧ receipt.message.isContent = true) ∨
    (∃ receipt ∈ log, receipt.epoch = epoch ∧ receipt.Declined id) ∨
    1 < (log.countP fun receipt => receipt.isOf epoch id)

structure Inv (s : ProtoState η β ρ) : Prop where
  epochs : ∀ receipt ∈ s.log, receipt.epoch ≤ s.epoch
  processed : ∀ id, s.session.messageProcessed id = true ↔ ∃ receipt ∈ s.log, receipt.isOf s.epoch id = true
  acted : (actedKeys s.log).Nodup
  passed : ∀ receipt ∈ s.log, ∀ action ∈ receipt.actions,
    action.passesOn = none ∨ action.passesOn = some receipt.message
  scheduled : ∀ id ∈ s.session.scheduledMessageConfirmations, Justified s.epoch s.log id

variable {epoch : Nat} {log : List (Receipt η β)} {id : BitVec 64}

theorem Justified.append (h : Justified epoch log id) (receipt : Receipt η β) :
    Justified epoch (log ++ [receipt]) id := by
  rcases h with ⟨r, hr, h⟩ | ⟨r, hr, h⟩ | h
  · exact .inl ⟨r, mem_append_left _ hr, h⟩
  · exact .inr (.inl ⟨r, mem_append_left _ hr, h⟩)
  · rw [Justified, countP_append]
    exact .inr (.inr (by omega))

theorem inv_init (rest : ProtoRest η ρ) : Inv (initState env rest) := by
  refine ⟨fun _ h => absurd h not_mem_nil, fun id => ⟨fun h => absurd h Bool.false_ne_true, ?_⟩, nodup_nil,
    fun _ h => absurd h not_mem_nil, fun _ h => absurd h not_mem_nil⟩
  rintro ⟨receipt, h, -⟩
  exact absurd h not_mem_nil

variable {s s' : ProtoState η β ρ}

theorem Inv.of_same (h : Inv s) (hepoch : s'.epoch = s.epoch) (hlog : s'.log = s.log)
    (hproc : ∀ id, s'.session.messageProcessed id = s.session.messageProcessed id)
    (hsched : ∀ id ∈ s'.session.scheduledMessageConfirmations, id ∈ s.session.scheduledMessageConfirmations) :
    Inv s' := by
  refine ⟨?_, fun id => ?_, ?_, ?_, fun id hid => ?_⟩
  · rw [hepoch, hlog]
    exact h.epochs
  · rw [hproc, hepoch, hlog]
    exact h.processed id
  · rw [hlog]
    exact h.acted
  · rw [hlog]
    exact h.passed
  · rw [hepoch, hlog]
    exact h.scheduled id (hsched id hid)

variable {passed : Option (MTIncomingMessage β)}

theorem Inv.sessionStep (h : Inv s) (hstep : SessionStep passed s s') : Inv s' := by
  rcases hstep with hstep | hstep
  · refine h.of_same hstep.epoch hstep.log (fun id => ?_) fun id hid => ?_
    · rw [hstep.session]
    · rw [← hstep.session]
      exact hid
  · refine ⟨fun receipt hr => ?_, fun id => ?_, ?_, ?_, fun id hid => ?_⟩
    · rw [hstep.log] at hr
      exact (h.epochs receipt hr).trans hstep.epoch.le
    · rw [hstep.processed, hstep.log]
      refine ⟨fun h => absurd h Bool.false_ne_true, ?_⟩
      rintro ⟨receipt, hr, hof⟩
      have hle := h.epochs receipt hr
      have hlt := hstep.epoch
      have heq := (of_decide_eq_true hof).1
      omega
    · rw [hstep.log]
      exact h.acted
    · rw [hstep.log]
      exact h.passed
    · rw [hstep.scheduled] at hid
      exact absurd hid not_mem_nil

/-! ## Receiving a message -/

theorem finalState_receive (useUnauthorizedMode : Bool) (delivery : Delivery) (message : MTIncomingMessage β)
    (s : ProtoState η β ρ) :
    let s' := finalState (processIncomingMessage env useUnauthorizedMode delivery message) { s with actions := [] }
    finalState (receive env useUnauthorizedMode delivery message) s =
      { s' with log := s'.log ++ [⟨s.epoch, message, s'.actions⟩] } := by
  unfold finalState receive
  dsimp only
  cases processIncomingMessage env useUnauthorizedMode delivery message { s with actions := [] } with
  | ok a s' | error e s' => rfl

variable (useUnauthorizedMode : Bool) (delivery : Delivery)

theorem receive_duplicate (message : MTIncomingMessage β) (h : s.session.messageProcessed message.messageId = true) :
    receive env useUnauthorizedMode delivery message s =
      .ok () { s.confirmed message with actions := [], log := s.log ++ [⟨s.epoch, message, []⟩] } := by
  have hprocess : processIncomingMessage env useUnauthorizedMode delivery message { s with actions := [] } =
      .ok () (ProtoState.confirmed { s with actions := [] } message) :=
    processIncomingMessage_duplicate env useUnauthorizedMode delivery message h
  unfold receive
  dsimp only
  rw [hprocess]
  rfl

theorem Receipt.isOf_iff (epoch : Nat) (id : BitVec 64) (receipt : Receipt η β) :
    receipt.isOf epoch id = true ↔ receipt.epoch = epoch ∧ receipt.message.messageId = id :=
  decide_eq_true_iff

theorem mem_actedKeys (h : (epoch, id) ∈ actedKeys log) : ∃ receipt ∈ log, receipt.isOf epoch id = true := by
  unfold actedKeys at h
  rw [mem_map] at h
  obtain ⟨receipt, hm, heq⟩ := h
  rw [Prod.mk.injEq] at heq
  exact ⟨receipt, (mem_filter.mp hm).1, (Receipt.isOf_iff _ _ _).mpr heq⟩

theorem actedKeys_append (log : List (Receipt η β)) (receipt : Receipt η β) : actedKeys (log ++ [receipt]) =
      actedKeys log ++ if receipt.acted then [(receipt.epoch, receipt.message.messageId)] else [] := by
  unfold actedKeys
  rw [filter_append, map_append]
  by_cases h : receipt.acted = true
  · simp [h]
  · simp [h]

theorem exists_isOf_append (log : List (Receipt η β)) (receipt : Receipt η β) (id : BitVec 64) :
    (∃ r ∈ log ++ [receipt], r.isOf receipt.epoch id = true) ↔
      id = receipt.message.messageId ∨ ∃ r ∈ log, r.isOf receipt.epoch id = true := by
  constructor
  · rintro ⟨r, hr, h⟩
    rcases mem_append.mp hr with hr | hr
    · exact .inr ⟨r, hr, h⟩
    · rw [mem_singleton.mp hr, Receipt.isOf_iff] at h
      exact .inl h.2.symm
  · rintro (rfl | ⟨r, hr, h⟩)
    · exact ⟨receipt, mem_append_right _ (mem_singleton_self _), (Receipt.isOf_iff _ _ _).mpr ⟨rfl, rfl⟩⟩
    · exact ⟨r, mem_append_left _ hr, h⟩

variable {receipt : Receipt η β}

theorem Justified.again (hfirst : ∃ r ∈ log, r.isOf epoch id = true) (hof : receipt.isOf epoch id = true) :
    Justified epoch (log ++ [receipt]) id := by
  have hpos : 0 < log.countP fun r => r.isOf epoch id := countP_pos_iff.mpr hfirst
  refine .inr (Or.inr ?_)
  rw [countP_append, countP_singleton, if_pos hof]
  omega

theorem Inv.append (hs : Inv s) (hof : receipt.epoch = s.epoch) (hlog : s'.log = s.log ++ [receipt])
    (hepoch : s.epoch ≤ s'.epoch)
    (hacted : receipt.acted = true → s.session.messageProcessed receipt.message.messageId = false)
    (hpassed : ∀ action ∈ receipt.actions, action.passesOn = none ∨ action.passesOn = some receipt.message)
    (hproc : ∀ id, s'.session.messageProcessed id = true ↔ ∃ r ∈ s'.log, r.isOf s'.epoch id = true)
    (hsched : ∀ id ∈ s'.session.scheduledMessageConfirmations, Justified s'.epoch s'.log id) : Inv s' := by
  refine ⟨fun r hr => ?_, hproc, ?_, fun r hr => ?_, hsched⟩
  · rw [hlog] at hr
    rcases mem_append.mp hr with hr | hr
    · exact (hs.epochs r hr).trans hepoch
    · rw [mem_singleton.mp hr, hof]
      exact hepoch
  · rw [hlog, actedKeys_append]
    split
    · next h =>
      refine nodup_append.mpr ⟨hs.acted, nodup_singleton _, fun key hkey key' hkey' => ?_⟩
      rw [mem_singleton] at hkey'
      rintro rfl
      rw [hkey', hof] at hkey
      have hproc := (hs.processed _).mpr (mem_actedKeys hkey)
      rw [hacted h] at hproc
      exact Bool.false_ne_true hproc
    · rw [append_nil]
      exact hs.acted
  · rw [hlog] at hr
    rcases mem_append.mp hr with hr | hr
    · exact hs.passed r hr
    · rw [mem_singleton.mp hr]
      exact hpassed

theorem inv_receive_duplicate (hs : Inv s) (message : MTIncomingMessage β)
    (h : s.session.messageProcessed message.messageId = true) :
    Inv { s.confirmed message with actions := [], log := s.log ++ [⟨s.epoch, message, []⟩] } := by
  refine hs.append rfl rfl (le_refl _) (fun h => absurd h Bool.false_ne_true)
    (fun _ h => absurd h not_mem_nil) (fun id => ?_) fun id hid => ?_
  · refine Iff.trans ?_ (exists_isOf_append s.log ⟨s.epoch, message, []⟩ id).symm
    change (s.session.scheduleMessageConfirmation _ _).messageProcessed id = true ↔ _
    rw [MTSessionInfo.messageProcessed_scheduleMessageConfirmation, ← hs.processed id]
    constructor
    · exact Or.inr
    · rintro (rfl | hid)
      · exact h
      · exact hid
  · rcases (MTSessionInfo.mem_scheduleMessageConfirmation _ _ _ _).mp hid with hid | rfl
    · exact (hs.scheduled id hid).append _
    · exact Justified.again ((hs.processed _).mp h) ((Receipt.isOf_iff _ _ _).mpr ⟨rfl, rfl⟩)

variable {message : MTIncomingMessage β} {actions : List (Action η β)}

theorem Inv.append_first (hs : Inv s) (h : s.session.messageProcessed message.messageId = false)
    (hlog : s'.log = s.log ++ [⟨s.epoch, message, actions⟩]) (hepoch : s'.epoch = s.epoch)
    (hpassed : ∀ action ∈ actions, action.passesOn = none ∨ action.passesOn = some message)
    (hproc : ∀ id, s'.session.messageProcessed id = true ↔
      id = message.messageId ∨ s.session.messageProcessed id = true)
    (hsched : ∀ id ∈ s'.session.scheduledMessageConfirmations, id ∈ s.session.scheduledMessageConfirmations ∨
      id = message.messageId ∧ message.isContent = true ∨ Receipt.Declined ⟨s.epoch, message, actions⟩ id) :
    Inv s' := by
  refine hs.append rfl hlog hepoch.ge (fun _ => h) hpassed (fun id => ?_) fun id hid => ?_
  · rw [hproc, hlog, hepoch, hs.processed id]
    exact (exists_isOf_append s.log ⟨s.epoch, message, actions⟩ id).symm
  · have hlast : (⟨s.epoch, message, actions⟩ : Receipt η β) ∈ s.log ++ [⟨s.epoch, message, actions⟩] :=
      mem_append_right _ (mem_singleton_self _)
    rw [hlog, hepoch]
    rcases hsched id hid with hid | ⟨rfl, hcont⟩ | hdeclined
    · exact (hs.scheduled id hid).append _
    · exact .inl ⟨_, hlast, (Receipt.isOf_iff _ _ _).mpr ⟨rfl, rfl⟩, hcont⟩
    · exact .inr (.inl ⟨_, hlast, rfl, hdeclined⟩)

theorem Inv.append_replaced (hs : Inv s) (h : s.session.messageProcessed message.messageId = false)
    (hlog : s'.log = s.log ++ [⟨s.epoch, message, actions⟩]) (hepoch : s.epoch < s'.epoch)
    (hpassed : ∀ action ∈ actions, action.passesOn = none ∨ action.passesOn = some message)
    (hproc : ∀ id, s'.session.messageProcessed id = false)
    (hsched : s'.session.scheduledMessageConfirmations = []) : Inv s' := by
  refine hs.append rfl hlog hepoch.le (fun _ => h) hpassed (fun id => ?_) fun id hid => ?_
  · rw [hproc, hlog]
    refine ⟨fun h => absurd h Bool.false_ne_true, ?_⟩
    rintro ⟨r, hr, hof⟩
    have heq := ((Receipt.isOf_iff _ _ _).mp hof).1
    rcases mem_append.mp hr with hr | hr
    · have hle := hs.epochs r hr
      omega
    · rw [mem_singleton.mp hr] at heq
      exact absurd heq hepoch.ne
  · rw [hsched] at hid
    exact absurd hid not_mem_nil

theorem inv_receive_first (hs : Inv s) (message : MTIncomingMessage β)
    (h : s.session.messageProcessed message.messageId = false) :
    Inv (finalState (receive env useUnauthorizedMode delivery message) s) := by
  obtain ⟨s₁, hmarked, hfinal⟩ := processIncomingMessage_first env useUnauthorizedMode delivery message
    (show ({ s with actions := [] } : ProtoState η β ρ).session.messageProcessed message.messageId = false from h)
  have hstep := dispatchMessage_step env useUnauthorizedMode delivery message s₁
  have hnone : s₁.actions = [] := hmarked.actions
  have hepoch : s₁.epoch = s.epoch := hmarked.epoch
  have hlog : s₁.log = s.log := hmarked.log
  rw [finalState_receive, hfinal]
  generalize finalState (dispatchMessage env useUnauthorizedMode delivery message) s₁ = s' at hstep
  have hpassed (hpasses : Passes (some message) s₁ s') :
      ∀ action ∈ s'.actions, action.passesOn = none ∨ action.passesOn = some message := by
    intro action hact
    rcases hpasses action hact with hm | hpass
    · rw [hnone] at hm
      exact absurd hm not_mem_nil
    · exact hpass
  have hsched (id : BitVec 64) (hid : id ∈ s₁.session.scheduledMessageConfirmations) :
      id ∈ s.session.scheduledMessageConfirmations ∨ id = message.messageId ∧ message.isContent = true := by
    rcases hmarked.scheduled id hid with hid | ⟨hid, -, hcont⟩
    · exact .inl hid
    · exact .inr ⟨hid, hcont⟩
  rcases hstep with (hstays | hreplaced) | hdeclines
  · refine hs.append_first h (by rw [hstays.log, hlog]) (hstays.epoch.trans hepoch) (hpassed hstays.passes)
      (fun id => ?_) fun id hid => ?_
    · rw [hstays.session]
      exact hmarked.processed id
    · rw [hstays.session] at hid
      rcases hsched id hid with hid | hid
      · exact .inl hid
      · exact .inr (.inl hid)
  · exact hs.append_replaced h (by rw [hreplaced.log, hlog]) (hepoch ▸ hreplaced.epoch) (hpassed hreplaced.passes)
      hreplaced.processed hreplaced.scheduled
  · obtain ⟨requestMessageId, responseMessageId, responseLength, status, hbody, hsess⟩ := hdeclines.session
    refine hs.append_first h (by rw [hdeclines.log, hlog]) (hdeclines.epoch.trans hepoch) (hpassed hdeclines.passes)
      (fun id => ?_) fun id hid => ?_
    · rw [hsess, MTSessionInfo.messageProcessed_scheduleMessageConfirmation]
      exact hmarked.processed id
    · rw [hsess, MTSessionInfo.mem_scheduleMessageConfirmation] at hid
      rcases hid with hid | rfl
      · rcases hsched id hid with hid | hid
        · exact .inl hid
        · exact .inr (.inl hid)
      · refine .inr (.inr ⟨⟨_, _, _, hbody⟩, fun action hact => ?_⟩)
        rcases hdeclines.actions action hact with hm | hreqs
        · rw [hnone] at hm
          exact absurd hm not_mem_nil
        · exact hreqs

theorem inv_receive (message : MTIncomingMessage β) :
    Relates (Preserves Inv) (receive env useUnauthorizedMode delivery message) := by
  intro s hs
  cases h : s.session.messageProcessed message.messageId with
  | true =>
    rw [finalState_of_ok (receive_duplicate env useUnauthorizedMode delivery message h)]
    exact inv_receive_duplicate hs message h
  | false => exact inv_receive_first env useUnauthorizedMode delivery hs message h

/-! ## Runs keep the invariant -/

variable {α : Type} {x : ProtoM η β ρ α}

theorem inv_of_sessionStep (h : Relates (SessionStep none) x) : Relates (Preserves Inv) x :=
  h.mono fun _ _ hstep hs => hs.sessionStep hstep

theorem inv_of_stays (h : Relates (Stays none) x) : Relates (Preserves Inv) x :=
  inv_of_sessionStep (sessionStep_of_stays h)

theorem inv_transportTransactionsSucceeded (transactionIds : List Nat) :
    Relates (Preserves Inv) (transportTransactionsSucceeded transactionIds : ProtoM η β ρ Unit) :=
  Relates.modify fun _ hs =>
    hs.of_same rfl rfl (fun _ => rfl) fun _ => MTSessionInfo.mem_removeScheduledMessageConfirmations

theorem queuePass_stays : Relates (Stays passed) (queuePass env) := by
  unfold queuePass
  refine Relates.get_bind fun s => Relates.ite ?_ (Relates.pure ())
  refine Relates.bind (Relates.modify fun _ => .of_actions rfl rfl rfl rfl) fun _ => ?_
  exact Relates.ite (performEffect_stays env _) (Relates.pure ())

/-- Every event keeps the invariant. -/
theorem inv_stepEvent (event : Event η β ρ) : Relates (Preserves Inv) (stepEvent env useUnauthorizedMode event) := by
  cases event with
  | incoming delivery requestTransactionAfterProcessing messages =>
    apply Relates.bind (inv_transportTransactionsSucceeded _)
    intro _
    apply Relates.bind (Relates.forM (inv_receive env useUnauthorizedMode delivery) messages)
    intro _
    exact inv_of_stays (requestTransactionIf_stays _)
  | parseError delivery =>
    apply Relates.bind (inv_of_stays (performEffect_stays env _))
    intro _
    exact inv_of_sessionStep (resetSessionInfo_sessionStep env)
  | transactionsSucceeded transactionIds => exact inv_transportTransactionsSucceeded transactionIds
  | assignTransactionId transactionId messageIds =>
    refine Relates.modify fun s hs => hs.of_same rfl rfl (fun _ => rfl) fun id hid => ?_
    rw [MTSessionInfo.scheduledMessageConfirmations_assignTransactionId] at hid
    exact hid
  | outgoing lastClientMessageId seqNo containerMessagesMapping =>
    exact Relates.modify fun s hs => hs.of_same rfl rfl (fun _ => rfl) fun _ hid => hid
  | resetSessionInfo => exact inv_of_sessionStep (resetSessionInfo_sessionStep env)
  | queuePass => exact inv_of_stays (queuePass_stays env)
  | surroundings rest => exact inv_of_stays (modifyRest_stays fun _ => rest)

theorem inv_runEvents (events : List (Event η β ρ)) (rest : ProtoRest η ρ) :
    Inv (runEvents env useUnauthorizedMode events rest) :=
  Relates.forM (inv_stepEvent env useUnauthorizedMode) events _ (inv_init env rest)

/-! ## What is acted on, and what is confirmed -/

/-- **At most once.** In every run the receipts that led to anything are of distinct ids in each session, no receipt
passes on any other message than its own, and a message whose id was received in this session before is confirmed, with
a request for a transaction where too many confirmations wait: nothing else changes. -/
theorem runEvents_atMostOnce (useUnauthorizedMode : Bool) (events : List (Event η β ρ)) (rest : ProtoRest η ρ) :
    let s := runEvents env useUnauthorizedMode events rest
    (actedKeys s.log).Nodup ∧
      (∀ receipt ∈ s.log, ∀ action ∈ receipt.actions,
        action.passesOn = none ∨ action.passesOn = some receipt.message) ∧
      ∀ (delivery : Delivery) (message : MTIncomingMessage β),
        (∃ receipt ∈ s.log, receipt.isOf s.epoch message.messageId = true) →
          receive env useUnauthorizedMode delivery message s =
            .ok () { s.confirmed message with actions := [], log := s.log ++ [⟨s.epoch, message, []⟩] } := by
  intro s
  have hs := inv_runEvents env useUnauthorizedMode events rest
  refine ⟨hs.acted, hs.passed, fun delivery message hreceived => ?_⟩
  exact receive_duplicate env useUnauthorizedMode delivery message ((hs.processed _).mpr hreceived)

/-- A service that is told everything and asks for nothing. -/
def quietSurroundings : Surroundings Unit Unit Unit where
  respondsToSelector _ _ := true
  reply _ _ rest := ⟨rest, false, false, none⟩
  perform _ rest := (rest, false)
  alreadyRequesting _ _ := false
  randomSessionId epoch := BitVec.ofNat 64 epoch

def connectedRest : ProtoRest Unit Unit := ⟨0, none, none, [()], ()⟩

def largeMessage : MTIncomingMessage Unit := ⟨5, 1, 0, 0, 2000000, .inr ()⟩

theorem runEvents_atMostOnce_largeMessage :
    let s := runEvents quietSurroundings false [.incoming ⟨0, false⟩ false [largeMessage]] connectedRest
    (∃ receipt ∈ s.log, receipt.isOf s.epoch largeMessage.messageId = true) ∧
      receive quietSurroundings false ⟨1, false⟩ largeMessage s =
        .ok () { s.confirmed largeMessage with actions := [], log := s.log ++ [⟨s.epoch, largeMessage, []⟩] } := by
  intro s
  have hreceived : ∃ receipt ∈ s.log, receipt.isOf s.epoch largeMessage.messageId = true := by decide +kernel
  exact ⟨hreceived, (runEvents_atMostOnce quietSurroundings false
    [.incoming ⟨0, false⟩ false [largeMessage]] connectedRest).2.2 ⟨1, false⟩ largeMessage hreceived⟩

/-- Nothing in the source's state changes but what is scheduled. -/
def OnlyConfirmationsChange (s s' : ProtoState η β ρ) : Prop :=
  s'.session = { s.session with scheduledConfirmations := s'.session.scheduledConfirmations } ∧
    s'.willRequestTransactionOnNextQueuePass = s.willRequestTransactionOnNextQueuePass ∧ s'.rest = s.rest

/-- The message is larger than what may wait, so that every copy of it asks for a transaction. -/
theorem not_onlyConfirmationsChange_largeMessage :
    let s := runEvents quietSurroundings false [.incoming ⟨0, false⟩ false [largeMessage], .queuePass] connectedRest
    (∃ receipt ∈ s.log, receipt.isOf s.epoch largeMessage.messageId = true) ∧
      ¬ OnlyConfirmationsChange s (finalState (receive quietSurroundings false ⟨1, false⟩ largeMessage) s) := by
  intro s
  refine ⟨by decide +kernel, fun h => ?_⟩
  have hflag : (finalState (receive quietSurroundings false ⟨1, false⟩ largeMessage) s
      ).willRequestTransactionOnNextQueuePass ≠ s.willRequestTransactionOnNextQueuePass := by decide +kernel
  exact hflag h.2.1

/-- **Only content messages and declined responses are confirmed**, of the ids that came in at most once. -/
theorem runEvents_scheduled (useUnauthorizedMode : Bool) (events : List (Event η β ρ)) (rest : ProtoRest η ρ)
    (id : BitVec 64) :
    let s := runEvents env useUnauthorizedMode events rest
    (s.log.countP fun receipt => receipt.isOf s.epoch id) ≤ 1 →
      id ∈ s.session.scheduledMessageConfirmations →
        (∃ receipt ∈ s.log, receipt.isOf s.epoch id = true ∧ receipt.message.isContent = true) ∨
          ∃ receipt ∈ s.log, receipt.epoch = s.epoch ∧ receipt.Declined id := by
  intro s honce hid
  have hs := inv_runEvents env useUnauthorizedMode events rest
  rcases hs.scheduled id hid with hcontent | hdeclined | hagain
  · exact Or.inl hcontent
  · exact Or.inr hdeclined
  · exact absurd hagain (Nat.not_lt.mpr honce)

theorem runEvents_scheduled_largeMessage :
    let s := runEvents quietSurroundings false [.incoming ⟨0, false⟩ false [largeMessage]] connectedRest
    (∃ receipt ∈ s.log, receipt.isOf s.epoch 5 = true ∧ receipt.message.isContent = true) ∨
      ∃ receipt ∈ s.log, receipt.epoch = s.epoch ∧ receipt.Declined 5 :=
  runEvents_scheduled quietSurroundings false [.incoming ⟨0, false⟩ false [largeMessage]] connectedRest 5
    (by decide +kernel) (by decide +kernel)

/-- The answer to request 3, of 100 bytes, is message 77; the service does not want it. -/
def answerAnnouncement : MTIncomingMessage Unit := ⟨5, 0, 0, 0, 32, .inl (.msgDetailedResponseInfo 3 77 100 0)⟩

/-- The response is confirmed, though no message with its id came in. -/
theorem not_onlyContent_answerAnnouncement :
    let s := runEvents quietSurroundings false [.incoming ⟨0, false⟩ false [answerAnnouncement]] connectedRest
    77 ∈ s.session.scheduledMessageConfirmations ∧
      ¬ ∃ receipt ∈ s.log, receipt.message.messageId = 77 ∧ receipt.message.isContent = true := by
  decide +kernel

end

end TelegramClient.MtProto
