import TelegramClient.Lib.StateRel
import TelegramClient.MtProto.Incoming
import TelegramClient.MtProto.SessionInfo

/-!
# Processing incoming messages: `_processIncomingMessage:totalSize:withTransactionId:address:`

Every message that was parsed is checked against the ids that the session has processed, confirmed where it has to
be, and handed to the branch for its body. The message services, the transport and the context are a parameter
(`Surroundings`): what they do when they are called may change everything but the session, which is only replaced, by
`resetSessionInfo`. A service that is handed a message may do that too: the application does so when its authorization
is refused.

* `Stays`, `SessionStep` : the parts that leave the session alone, and those that may replace it;
* `dispatchMessage_step` : what a branch does to the session;
* `processIncomingMessage_duplicate`, `processIncomingMessage_first` : what a message does whose id was processed, and
  one whose id was not.
-/

namespace TelegramClient.MtProto
open Relates (get_bind)

/-! ## The state -/

/-- `MTProtoState…`, the bits of `_mtState`. -/
def awaitingDatacenterScheme : BitVec 32 := 1

def awaitingDatacenterAuthorization : BitVec 32 := 2

def awaitingDatacenterTempAuthKey : BitVec 32 := 4

def awaitingDatacenterAuthToken : BitVec 32 := 8

def awaitingTimeFixAndSalts : BitVec 32 := 16

def stopped : BitVec 32 := 64

def paused : BitVec 32 := 128

def bindingTempAuthKey : BitVec 32 := 256

def maxUnacknowledgedMessageSize : Int := 1 * 1024 * 1024

def maxUnacknowledgedMessageCount : Nat := 64

/-- The fields of `MTProto` that are not the session. Of the two contexts the message id is kept; `η` are the message
services, and `ρ` is all that no line here reads. -/
structure ProtoRest (η ρ : Type) where
  mtState : BitVec 32
  timeFixContext : Option (BitVec 64)
  bindingTempAuthKeyContext : Option (BitVec 64)
  messageServices : List η
  others : ρ
deriving DecidableEq

inductive ServiceCall (β : Type) where
  | messageDeliveryFailed (messageId : BitVec 64)
  | messageDeliveryConfirmed (messageIds : List (BitVec 64))
  | shouldRequestMessage (responseMessageId requestMessageId : BitVec 64) (currentTransactionId : Nat)
  | serverDidChangeSession (firstValidMessageId : BitVec 64) (otherValidMessageIds : List (BitVec 64))
  | receivedMessage (message : MTIncomingMessage β)
  | didChangeSession

/-- What `MTProto` has done beside that: by the context (a clean-up only where there is a key), by the transport, and by
adding and removing services. -/
inductive Effect where
  | scheduleSessionCleanup (sessionInfo : MTSessionInfo)
  | resetTransport
  | setDelegateNeedsTransaction
  | transactionsMayHaveFailed (transactionIds : List Nat)
  | serviceTasksStateChanged (isPerformingServiceTasks : Bool)
  | requestTimeResync
  | removeTimeSyncServices
  | setTimeDifference (messageId : BitVec 64) (validSalt : Option (BitVec 64))
  | addResendService (messageId : BitVec 64)
  | tempAuthKeyBound (preferForMedia : Bool)

inductive Action (η β : Type) where
  | sent (service : η) (call : ServiceCall β) (answer : Bool)
  | performed (effect : Effect)

/-- A message that was received, the session it was received in, and all that was done about it. -/
structure Receipt (η β : Type) where
  epoch : Nat
  message : MTIncomingMessage β
  actions : List (Action η β)

/-- `MTProto`. Ghosts: the number of the session (and of its random ids), what was done since the last message came in,
and the messages that came in. -/
structure ProtoState (η β ρ : Type) where
  session : MTSessionInfo
  willRequestTransactionOnNextQueuePass : Bool
  rest : ProtoRest η ρ
  epoch : Nat
  actions : List (Action η β)
  log : List (Receipt η β)

/-- What a service does when it is called. Where it resets the session, `afterReset` is what it does from there on. -/
structure Reply (η ρ : Type) where
  rest : ProtoRest η ρ
  requestTransaction : Bool
  answer : Bool
  afterReset : Option (ProtoRest η ρ → ProtoRest η ρ)

/-- The message services and all else that `MTProto` calls. -/
structure Surroundings (η β ρ : Type) where
  respondsToSelector : η → ServiceCall β → Bool
  reply : η → ServiceCall β → ProtoRest η ρ → Reply η ρ
  perform : Effect → ProtoRest η ρ → ProtoRest η ρ × Bool
  alreadyRequesting : η → BitVec 64 → Bool
  randomSessionId : Nat → BitVec 64

abbrev ProtoM (η β ρ : Type) := EStateM Fault (ProtoState η β ρ)

section
variable {η β ρ : Type} (env : Surroundings η β ρ)

/-! ## Services, transactions and the state bits -/

def requestTransportTransaction : ProtoM η β ρ Unit :=
  modify fun s => { s with willRequestTransactionOnNextQueuePass := true }

def requestTransactionIf (condition : Bool) : ProtoM η β ρ Unit :=
  if condition then requestTransportTransaction else pure ()

/-- `respondsToSelector:` and the call. No service resets the session when it is asked about a message or told of a
reset. -/
def sendIfResponds (service : η) (call : ServiceCall β) : ProtoM η β ρ Bool := fun s =>
  if env.respondsToSelector service call then
    let reply := env.reply service call s.rest
    .ok reply.answer { s with
      rest := reply.rest
      willRequestTransactionOnNextQueuePass := s.willRequestTransactionOnNextQueuePass || reply.requestTransaction
      actions := s.actions ++ [.sent service call reply.answer] }
  else
    .ok false s

def performEffect (effect : Effect) : ProtoM η β ρ Unit := fun s =>
  let (rest, requestTransaction) := env.perform effect s.rest
  .ok () { s with
    rest := rest
    willRequestTransactionOnNextQueuePass := s.willRequestTransactionOnNextQueuePass || requestTransaction
    actions := s.actions ++ [.performed effect] }

/-- `for (NSInteger i = count - 1; i >= 0; i--)`, with the service that is at `i` when its turn comes. -/
def forEachService (body : η → ProtoM η β ρ Unit) : Nat → ProtoM η β ρ Unit
  | 0 => pure ()
  | i + 1 => do
    let s ← get
    match s.rest.messageServices[i]? with
    | none => throw .raised
    | some messageService =>
      body messageService
      forEachService body i

def tellServices (body : η → ProtoM η β ρ Unit) : ProtoM η β ρ Unit := do
  let s ← get
  forEachService body s.rest.messageServices.length

def ProtoRest.has (rest : ProtoRest η ρ) (bits : BitVec 32) : Bool := decide (rest.mtState &&& bits ≠ 0)

def ProtoRest.canAskForTransactions (rest : ProtoRest η ρ) : Bool :=
  !rest.has (awaitingDatacenterScheme ||| awaitingDatacenterAuthorization ||| awaitingDatacenterTempAuthKey |||
    awaitingDatacenterAuthToken ||| awaitingTimeFixAndSalts ||| bindingTempAuthKey ||| stopped)

def ProtoRest.canAskForServiceTransactions (rest : ProtoRest η ρ) : Bool :=
  !rest.has (awaitingDatacenterScheme ||| awaitingDatacenterAuthorization ||| awaitingDatacenterTempAuthKey |||
    awaitingDatacenterAuthToken ||| stopped)

def requestTransactionIfAble : ProtoM η β ρ Unit := do
  let s ← get
  requestTransactionIf (s.rest.canAskForTransactions || s.rest.canAskForServiceTransactions)

def modifyRest (f : ProtoRest η ρ → ProtoRest η ρ) : ProtoM η β ρ Unit := modify fun s => { s with rest := f s.rest }

def setMtState (mtState : BitVec 32) : ProtoM η β ρ Unit := do
  let s ← get
  let wasPerformingServiceTasks := s.rest.has awaitingTimeFixAndSalts
  modifyRest fun rest => { rest with mtState := mtState }
  let performingServiceTasks := decide (mtState &&& awaitingTimeFixAndSalts ≠ 0)
  if performingServiceTasks ≠ wasPerformingServiceTasks then
    performEffect env (.serviceTasksStateChanged performingServiceTasks)

/-! ## Time and session -/

def initiateTimeSync : ProtoM η β ρ Unit := do
  let s ← get
  if !s.rest.has awaitingTimeFixAndSalts then
    setMtState env (s.rest.mtState ||| awaitingTimeFixAndSalts)
    performEffect env .requestTimeResync

def completeTimeSync : ProtoM η β ρ Unit := do
  let s ← get
  if s.rest.has awaitingTimeFixAndSalts then
    setMtState env (s.rest.mtState &&& ~~~awaitingTimeFixAndSalts)
    performEffect env .removeTimeSyncServices

/-- The time difference is that of the message id and of the clock. -/
def timeSyncInfoChanged (messageId : BitVec 64) (validSalt : Option (BitVec 64)) : ProtoM η β ρ Unit := do
  performEffect env (.setTimeDifference messageId validSalt)
  requestTransactionIfAble

def resetSessionInfo : ProtoM η β ρ Unit := do
  let s ← get
  performEffect env (.scheduleSessionCleanup s.session)
  modify fun s => { s with
    session := MTSessionInfo.initWithSessionId (env.randomSessionId (s.epoch + 1))
    epoch := s.epoch + 1
    rest := { s.rest with timeFixContext := none, bindingTempAuthKeyContext := none } }
  tellServices fun messageService => discard (sendIfResponds env messageService .didChangeSession)
  performEffect env .resetTransport
  requestTransportTransaction

/-- A call in which the service may reset the session. -/
def notifyIfResponds (service : η) (call : ServiceCall β) : ProtoM η β ρ Unit := do
  let s ← get
  let reply := env.reply service call s.rest
  discard (sendIfResponds env service call)
  match env.respondsToSelector service call, reply.afterReset with
  | true, some afterReset => do
    resetSessionInfo env
    modifyRest afterReset
  | _, _ => pure ()

/-! ## The branches -/

def scheduleMessageConfirmation (messageId : BitVec 64) (size : Int) : ProtoM η β ρ Unit :=
  modify fun s => { s with session := s.session.scheduleMessageConfirmation messageId size }

/-- A confirmation, and a transaction where too many are waiting. -/
def confirmMessage (message : MTIncomingMessage β) : ProtoM η β ρ Unit := do
  scheduleMessageConfirmation message.messageId message.size.toInt
  let s ← get
  requestTransactionIf
    (s.session.scheduledMessageConfirmationsExceed maxUnacknowledgedMessageSize maxUnacknowledgedMessageCount)

/-- The answer to the time request, or the sign that one is needed. -/
def fixTime (badMessageId messageId : BitVec 64) (validSalt : Option (BitVec 64)) : ProtoM η β ρ Unit := do
  let s ← get
  if s.rest.timeFixContext = some badMessageId then
    modifyRest fun rest => { rest with timeFixContext := none }
    completeTimeSync env
    timeSyncInfoChanged env messageId validSalt
  else
    initiateTimeSync env

/-- The class of the notification, then its `errorCode`. -/
def handleBadMsg (badMessageId messageId : BitVec 64) (errorCode : BitVec 32) (nextServerSalt : Option (BitVec 64)) :
    ProtoM η β ρ Unit :=
  if nextServerSalt.isSome then fixTime env badMessageId messageId nextServerSalt
  else if errorCode = 16 ∨ errorCode = 17 then fixTime env badMessageId messageId none
  else if errorCode = 32 ∨ errorCode = 33 then do
    resetSessionInfo env
    initiateTimeSync env
  else if errorCode = 48 then initiateTimeSync env
  else pure ()

/-- `MTBadMsgNotificationMessage`, with the salt of `MTBadServerSaltNotificationMessage`. -/
def processBadMsgNotification (messageId badMessageId : BitVec 64) (errorCode : BitVec 32)
    (nextServerSalt : Option (BitVec 64)) : ProtoM η β ρ Unit := do
  let s ← get
  -- looked up before the session may be replaced
  let containerMessageIds := s.session.messageIdsInContainer badMessageId
  handleBadMsg env badMessageId messageId errorCode nextServerSalt
  tellServices fun messageService => forM (badMessageId :: containerMessageIds.getD []) fun failedMessageId =>
    notifyIfResponds env messageService (.messageDeliveryFailed failedMessageId)
  modifyRest fun rest =>
    if rest.bindingTempAuthKeyContext = some badMessageId then { rest with bindingTempAuthKeyContext := none }
    else rest
  requestTransactionIfAble

def processMsgsAck (messageIds : List (BitVec 64)) : ProtoM η β ρ Unit :=
  tellServices fun messageService => notifyIfResponds env messageService (.messageDeliveryConfirmed messageIds)

/-- The first service that wants the response ends the loop. -/
def anyServiceShouldRequest (call : ServiceCall β) : List η → ProtoM η β ρ Bool
  | [] => return false
  | messageService :: rest => do
    if ← sendIfResponds env messageService call then return true
    else anyServiceShouldRequest call rest

def requestMessageWithId (messageId : BitVec 64) : ProtoM η β ρ Unit := do
  let s ← get
  let alreadyRequestingThisMessage := s.rest.messageServices.any fun service => env.alreadyRequesting service messageId
  if !alreadyRequestingThisMessage && !s.session.messageProcessed messageId then
    performEffect env (.addResendService messageId)

/-- Only `MTMsgDetailedResponseInfoMessage` has a request, and only then the services are asked. -/
def shouldRequestResponse (transactionId : Nat) (responseMessageId : BitVec 64) :
    Option (BitVec 64) → ProtoM η β ρ Bool
  | some requestMessageId => do
    let s ← get
    anyServiceShouldRequest env (.shouldRequestMessage responseMessageId requestMessageId transactionId)
      s.rest.messageServices
  | none => return true

/-- `MTMsgDetailedInfoMessage`. -/
def processDetailedInfo (transactionId : Nat) (requestMessageId : Option (BitVec 64)) (responseMessageId : BitVec 64)
    (responseLength : BitVec 32) : ProtoM η β ρ Unit := do
  let shouldRequest ← shouldRequestResponse env transactionId responseMessageId requestMessageId
  if shouldRequest then requestMessageWithId env responseMessageId
  else
    scheduleMessageConfirmation responseMessageId responseLength.toInt
    requestTransportTransaction

def processNewSession (firstValidMessageId : BitVec 64) : ProtoM η β ρ Unit :=
  tellServices fun messageService => do
    let s ← get
    notifyIfResponds env messageService (.serverDidChangeSession firstValidMessageId
      (s.session.messageIdsInContainersAfterMessageId firstValidMessageId))

/-- The answer to `auth.bindTempAuthKey`: `boolTrue`, `boolFalse` (both are taken for success) or an error. -/
def processBindingResult (preferForMedia : Bool) (data : Bytes) : ProtoM η β ρ Unit := do
  modifyRest fun rest => { rest with bindingTempAuthKeyContext := none }
  let isBool := data.length ≥ 4 ∧
    (ofLeBits 32 (data.take 4) = 0xbc799737 ∨ ofLeBits 32 (data.take 4) = 0x997275b5)
  match parseMessage data with
  | .error .raised => throw .raised
  | .ok (.rpcError _ _) => requestTransportTransaction
  | _ =>
    if isBool then
      performEffect env (.tempAuthKeyBound preferForMedia)
      let s ← get
      if s.rest.has bindingTempAuthKey then
        setMtState env (s.rest.mtState &&& ~~~bindingTempAuthKey)
        requestTransportTransaction
    else
      requestTransportTransaction

def processOther (preferForMedia : Bool) (message : MTIncomingMessage β) : ProtoM η β ρ Unit := do
  tellServices fun messageService => notifyIfResponds env messageService (.receivedMessage message)
  let s ← get
  match message.body with
  | .inl (.pong messageId _) =>
    if s.rest.timeFixContext = some messageId then
      modifyRest fun rest => { rest with timeFixContext := none }
      completeTimeSync env
      requestTransactionIfAble
  | .inl (.rpcResult requestMessageId data) =>
    if s.rest.bindingTempAuthKeyContext = some requestMessageId then processBindingResult env preferForMedia data
  | _ => pure ()

/-! ## A message -/

structure Delivery where
  transactionId : Nat
  preferForMedia : Bool

def dispatchMessage (useUnauthorizedMode : Bool) (delivery : Delivery) (message : MTIncomingMessage β) :
    ProtoM η β ρ Unit :=
  match message.body with
  | .inl (.badMsgNotification badMessageId _ errorCode) =>
    if useUnauthorizedMode then processOther env delivery.preferForMedia message
    else processBadMsgNotification env message.messageId badMessageId errorCode none
  | .inl (.badServerSaltNotification badMessageId _ errorCode nextServerSalt) =>
    if useUnauthorizedMode then processOther env delivery.preferForMedia message
    else processBadMsgNotification env message.messageId badMessageId errorCode (some nextServerSalt)
  | .inl (.msgsAck messageIds) => processMsgsAck env messageIds
  | .inl (.msgDetailedResponseInfo requestMessageId responseMessageId responseLength _) =>
    processDetailedInfo env delivery.transactionId (some requestMessageId) responseMessageId responseLength
  | .inl (.msgDetailedInfo responseMessageId responseLength _) =>
    processDetailedInfo env delivery.transactionId none responseMessageId responseLength
  | .inl (.newSessionCreated firstMessageId _ _) => processNewSession env firstMessageId
  | _ => processOther env delivery.preferForMedia message

/-- `seqNo % 2 != 0`, with the remainder of C. -/
def MTIncomingMessage.isContent (message : MTIncomingMessage β) : Bool := decide (message.seqNo.toInt.tmod 2 ≠ 0)

def confirmContentMessage (useUnauthorizedMode : Bool) (message : MTIncomingMessage β) : ProtoM η β ρ Unit :=
  if !useUnauthorizedMode && message.isContent then confirmMessage message else pure ()

def processIncomingMessage (useUnauthorizedMode : Bool) (delivery : Delivery) (message : MTIncomingMessage β) :
    ProtoM η β ρ Unit := do
  let s ← get
  if s.session.messageProcessed message.messageId then
    confirmMessage message
  else
    modify fun s => { s with session := s.session.setMessageProcessed message.messageId }
    confirmContentMessage useUnauthorizedMode message
    dispatchMessage env useUnauthorizedMode delivery message

/-! ## What leaves the session alone -/

def Action.passesOn : Action η β → Option (MTIncomingMessage β)
  | .sent _ (.receivedMessage message) _ => some message
  | _ => none

/-- Nothing is passed on but `passed`. -/
def Passes (passed : Option (MTIncomingMessage β)) (s s' : ProtoState η β ρ) : Prop :=
  ∀ action ∈ s'.actions, action ∈ s.actions ∨ action.passesOn = none ∨ action.passesOn = passed

theorem Passes.trans {passed : Option (MTIncomingMessage β)} {s₁ s₂ s₃ : ProtoState η β ρ} (h : Passes passed s₁ s₂)
    (h' : Passes passed s₂ s₃) : Passes passed s₁ s₃ := by
  intro action hact
  rcases h' action hact with hm | hpass
  · exact h action hm
  · exact .inr hpass

structure Stays (passed : Option (MTIncomingMessage β)) (s s' : ProtoState η β ρ) : Prop where
  session : s'.session = s.session
  epoch : s'.epoch = s.epoch
  log : s'.log = s.log
  passes : Passes passed s s'

variable {passed : Option (MTIncomingMessage β)}

variable {s s' : ProtoState η β ρ}

theorem Stays.of_actions (hsess : s'.session = s.session) (hepoch : s'.epoch = s.epoch) (hlog : s'.log = s.log)
    (hactions : s'.actions = s.actions) : Stays passed s s' :=
  ⟨hsess, hepoch, hlog, fun _ hact => .inl (hactions ▸ hact)⟩

theorem Stays.of_concat {action : Action η β} (hsess : s'.session = s.session) (hepoch : s'.epoch = s.epoch)
    (hlog : s'.log = s.log) (hactions : s'.actions = s.actions ++ [action])
    (hpass : action.passesOn = none ∨ action.passesOn = passed) : Stays passed s s' := by
  refine ⟨hsess, hepoch, hlog, fun action' hact => ?_⟩
  rw [hactions, List.mem_append, List.mem_singleton] at hact
  rcases hact with hm | rfl
  · exact .inl hm
  · exact .inr hpass

instance Stays.instRefl : Std.Refl (@Stays η β ρ passed) := ⟨fun _ => .of_actions rfl rfl rfl rfl⟩

instance Stays.instTrans : IsTrans (ProtoState η β ρ) (Stays passed) :=
  ⟨fun _ _ _ h h' => ⟨h'.session.trans h.session, h'.epoch.trans h.epoch, h'.log.trans h.log,
    h.passes.trans h'.passes⟩⟩

variable (condition : Bool)

theorem requestTransactionIf_stays : Relates (Stays passed) (requestTransactionIf condition : ProtoM η β ρ Unit) :=
  Relates.ite (Relates.modify fun _ => .of_actions rfl rfl rfl rfl) (Relates.pure ())

theorem requestTransportTransaction_stays : Relates (Stays passed) (requestTransportTransaction : ProtoM η β ρ Unit) :=
  Relates.modify fun _ => .of_actions rfl rfl rfl rfl

theorem modifyRest_stays (f : ProtoRest η ρ → ProtoRest η ρ) :
    Relates (Stays passed) (modifyRest f : ProtoM η β ρ Unit) :=
  Relates.modify fun _ => .of_actions rfl rfl rfl rfl

variable {service : η} {call : ServiceCall β}

theorem sendIfResponds_stays (hpass : ∀ answer, (Action.sent service call answer).passesOn = none ∨
      (Action.sent service call answer).passesOn = passed) :
    Relates (Stays passed) (sendIfResponds env service call) := by
  intro s
  unfold finalState sendIfResponds
  by_cases h : env.respondsToSelector service call = true
  · rw [if_pos h]
    exact .of_concat rfl rfl rfl rfl (hpass _)
  · rw [if_neg h]
    exact .of_actions rfl rfl rfl rfl

theorem performEffect_stays (effect : Effect) : Relates (Stays passed) (performEffect env effect) :=
  fun _ => .of_concat rfl rfl rfl rfl (.inl rfl)

section
variable {R : ProtoState η β ρ → ProtoState η β ρ → Prop} [Std.Refl R] [IsTrans (ProtoState η β ρ) R]

variable {body : η → ProtoM η β ρ Unit}

theorem forEachService_relates (h : ∀ service, Relates R (body service)) (i : Nat) :
    Relates R (forEachService body i) := by
  induction i with
  | zero => exact Relates.pure ()
  | succ i ih =>
    unfold forEachService
    refine get_bind fun s => ?_
    split
    · exact Relates.throw _
    · exact Relates.bind (h _) fun _ => ih

theorem tellServices_relates (h : ∀ service, Relates R (body service)) : Relates R (tellServices body) :=
  get_bind fun _ => forEachService_relates h _

end

theorem requestTransactionIfAble_stays : Relates (Stays passed) (requestTransactionIfAble : ProtoM η β ρ Unit) :=
  get_bind fun _ => requestTransactionIf_stays _

theorem setMtState_stays (mtState : BitVec 32) : Relates (Stays passed) (setMtState env mtState) := by
  unfold setMtState
  refine get_bind fun s => ?_
  apply Relates.bind (modifyRest_stays _)
  intro _
  exact Relates.ite (performEffect_stays env _) (Relates.pure ())

theorem initiateTimeSync_stays : Relates (Stays passed) (initiateTimeSync env) := by
  unfold initiateTimeSync
  refine get_bind fun s => Relates.ite ?_ (Relates.pure ())
  exact Relates.bind (setMtState_stays env _) fun _ => performEffect_stays env _

theorem completeTimeSync_stays : Relates (Stays passed) (completeTimeSync env) := by
  unfold completeTimeSync
  refine get_bind fun s => Relates.ite ?_ (Relates.pure ())
  exact Relates.bind (setMtState_stays env _) fun _ => performEffect_stays env _

variable (useUnauthorizedMode : Bool) (badMessageId messageId : BitVec 64)

theorem fixTime_stays (validSalt : Option (BitVec 64)) :
    Relates (Stays passed) (fixTime env badMessageId messageId validSalt) := by
  unfold fixTime timeSyncInfoChanged
  refine get_bind fun s => Relates.ite ?_ (initiateTimeSync_stays env)
  apply Relates.bind (modifyRest_stays _)
  intro _
  apply Relates.bind (completeTimeSync_stays env)
  intro _
  exact Relates.bind (performEffect_stays env _) fun _ => requestTransactionIfAble_stays

theorem requestMessageWithId_stays : Relates (Stays passed) (requestMessageWithId env messageId) :=
  get_bind fun _ => Relates.ite (performEffect_stays env _) (Relates.pure ())

variable (preferForMedia : Bool)

theorem processBindingResult_stays (data : Bytes) :
    Relates (Stays passed) (processBindingResult env preferForMedia data) := by
  unfold processBindingResult
  apply Relates.bind (modifyRest_stays _)
  intro _
  dsimp only
  split
  · exact Relates.throw _
  · exact requestTransportTransaction_stays
  · refine Relates.ite ?_ requestTransportTransaction_stays
    apply Relates.bind (performEffect_stays env _)
    intro _
    refine get_bind fun s => Relates.ite ?_ (Relates.pure ())
    exact Relates.bind (setMtState_stays env _) fun _ => requestTransportTransaction_stays

/-! ## What may replace the session -/

/-- A new session, in which nothing was processed and nothing is scheduled. -/
structure Replaced (passed : Option (MTIncomingMessage β)) (s s' : ProtoState η β ρ) : Prop where
  epoch : s.epoch < s'.epoch
  processed : ∀ id, s'.session.messageProcessed id = false
  scheduled : s'.session.scheduledMessageConfirmations = []
  log : s'.log = s.log
  passes : Passes passed s s'

def SessionStep (passed : Option (MTIncomingMessage β)) (s s' : ProtoState η β ρ) : Prop :=
  Stays passed s s' ∨ Replaced passed s s'

instance SessionStep.instRefl : Std.Refl (@SessionStep η β ρ passed) := ⟨fun s => Or.inl (Stays.instRefl.refl s)⟩

instance SessionStep.instTrans : IsTrans (ProtoState η β ρ) (SessionStep passed) := by
  refine ⟨fun s₁ s₂ s₃ h h' => ?_⟩
  rcases h with h | h
  · rcases h' with h' | h'
    · exact Or.inl (Stays.instTrans.trans _ _ _ h h')
    · exact Or.inr ⟨h.epoch ▸ h'.epoch, h'.processed, h'.scheduled, h'.log.trans h.log, h.passes.trans h'.passes⟩
  · rcases h' with h' | h'
    · refine Or.inr ⟨h'.epoch ▸ h.epoch, ?_, ?_, h'.log.trans h.log, h.passes.trans h'.passes⟩
      · rw [h'.session]
        exact h.processed
      · rw [h'.session]
        exact h.scheduled
    · exact Or.inr ⟨h.epoch.trans h'.epoch, h'.processed, h'.scheduled, h'.log.trans h.log,
        h.passes.trans h'.passes⟩

theorem sessionStep_of_stays {α : Type} {x : ProtoM η β ρ α} (h : Relates (Stays passed) x) :
    Relates (SessionStep passed) x :=
  h.mono fun _ _ => Or.inl

theorem resetSessionInfo_sessionStep : Relates (SessionStep passed) (resetSessionInfo env) := by
  unfold resetSessionInfo
  refine get_bind fun s => ?_
  apply Relates.bind (sessionStep_of_stays (performEffect_stays env _))
  intro _
  refine Relates.bind (Relates.modify fun s => Or.inr ?_) fun _ => ?_
  · exact ⟨Nat.lt_succ_self _, fun _ => rfl, rfl, rfl, fun _ => Or.inl⟩
  · apply Relates.bind (tellServices_relates fun _ =>
      sessionStep_of_stays (sendIfResponds_stays env fun _ => .inl rfl).discard)
    intro _
    apply Relates.bind (sessionStep_of_stays (performEffect_stays env _))
    intro _
    exact sessionStep_of_stays requestTransportTransaction_stays

theorem notifyIfResponds_sessionStep (hpass : ∀ answer, (Action.sent service call answer).passesOn = none ∨
      (Action.sent service call answer).passesOn = passed) :
    Relates (SessionStep passed) (notifyIfResponds env service call) := by
  unfold notifyIfResponds
  refine get_bind fun s => ?_
  dsimp only
  apply Relates.bind (sessionStep_of_stays (sendIfResponds_stays env hpass).discard)
  intro _
  split
  · exact Relates.bind (resetSessionInfo_sessionStep env) fun _ => sessionStep_of_stays (modifyRest_stays _)
  · exact Relates.pure ()

theorem handleBadMsg_sessionStep (errorCode : BitVec 32) (nextServerSalt : Option (BitVec 64)) :
    Relates (SessionStep passed) (handleBadMsg env badMessageId messageId errorCode nextServerSalt) := by
  have hfix (validSalt : Option (BitVec 64)) :
      Relates (SessionStep passed) (fixTime env badMessageId messageId validSalt) :=
    sessionStep_of_stays (fixTime_stays env badMessageId messageId validSalt)
  have hinitiate : Relates (SessionStep passed) (initiateTimeSync env) :=
    sessionStep_of_stays (initiateTimeSync_stays env)
  unfold handleBadMsg
  refine Relates.ite (hfix _) (Relates.ite (hfix _) (Relates.ite ?_ (Relates.ite hinitiate (Relates.pure ()))))
  exact Relates.bind (resetSessionInfo_sessionStep env) fun _ => hinitiate

theorem processBadMsgNotification_sessionStep (badMessageId : BitVec 64) (errorCode : BitVec 32)
    (nextServerSalt : Option (BitVec 64)) :
    Relates (SessionStep passed) (processBadMsgNotification env messageId badMessageId errorCode nextServerSalt) := by
  unfold processBadMsgNotification
  refine get_bind fun s => ?_
  dsimp only
  apply Relates.bind (handleBadMsg_sessionStep env _ _ _ _)
  intro _
  apply Relates.bind (tellServices_relates fun _ =>
    Relates.forM (fun _ => notifyIfResponds_sessionStep env fun _ => .inl rfl) _)
  intro _
  apply sessionStep_of_stays
  exact Relates.bind (modifyRest_stays _) fun _ => requestTransactionIfAble_stays

theorem processMsgsAck_sessionStep (messageIds : List (BitVec 64)) :
    Relates (SessionStep passed) (processMsgsAck env messageIds) :=
  tellServices_relates fun _ => notifyIfResponds_sessionStep env fun _ => .inl rfl

theorem processNewSession_sessionStep (firstValidMessageId : BitVec 64) :
    Relates (SessionStep passed) (processNewSession env firstValidMessageId) :=
  tellServices_relates fun _ => get_bind fun _ => notifyIfResponds_sessionStep env fun _ => .inl rfl

variable (delivery : Delivery) (message : MTIncomingMessage β)

theorem processOther_sessionStep : Relates (SessionStep (some message)) (processOther env preferForMedia message) := by
  unfold processOther
  apply Relates.bind (tellServices_relates fun _ => notifyIfResponds_sessionStep env fun _ => .inr rfl)
  intro _
  refine get_bind fun s => sessionStep_of_stays ?_
  split
  · refine Relates.ite ?_ (Relates.pure ())
    apply Relates.bind (modifyRest_stays _)
    intro _
    exact Relates.bind (completeTimeSync_stays env) fun _ => requestTransactionIfAble_stays
  · exact Relates.ite (processBindingResult_stays env _ _) (Relates.pure ())
  · exact Relates.pure ()

/-! ## Responses that no service asks for -/

/-- A service answered that it wants the response. -/
def Action.requests : Action η β → Bool
  | .sent _ (.shouldRequestMessage _ _ _) answer => answer
  | _ => false

theorem requests_sent_false (service : η) (call : ServiceCall β) :
    (Action.sent service call false).requests = false := by
  cases call <;> rfl

theorem sendIfResponds_ok (service : η) (call : ServiceCall β) (s : ProtoState η β ρ) :
    ∃ answer s', sendIfResponds env service call s = .ok answer s' ∧
      ∀ action ∈ s'.actions, action ∈ s.actions ∨ action = .sent service call answer := by
  unfold sendIfResponds
  split
  · refine ⟨_, _, rfl, fun action hact => ?_⟩
    rcases List.mem_append.mp hact with h | h
    · exact .inl h
    · exact .inr (List.mem_singleton.mp h)
  · exact ⟨_, _, rfl, fun _ => Or.inl⟩

theorem anyServiceShouldRequest_ok (call : ServiceCall β) (services : List η) (s : ProtoState η β ρ) :
    ∃ answer s', anyServiceShouldRequest env call services s = .ok answer s' ∧
      (answer = false → ∀ action ∈ s'.actions, action ∈ s.actions ∨ action.requests = false) := by
  induction services generalizing s with
  | nil => exact ⟨false, s, rfl, fun _ _ => Or.inl⟩
  | cons service services ih =>
    obtain ⟨answer, s', hsend, hactions⟩ := sendIfResponds_ok env service call s
    cases answer with
    | true =>
      refine ⟨true, s', ?_, fun h => absurd h (by decide)⟩
      unfold anyServiceShouldRequest
      rw [bind_of_ok hsend]
      rfl
    | false =>
      obtain ⟨answer, s'', hrest, hactions'⟩ := ih s'
      refine ⟨answer, s'', ?_, fun h action hact => ?_⟩
      · unfold anyServiceShouldRequest
        rw [bind_of_ok hsend]
        exact hrest
      · rcases hactions' h action hact with h | h
        · rcases hactions action h with h | rfl
          · exact .inl h
          · exact .inr (requests_sent_false service call)
        · exact .inr h

theorem anyServiceShouldRequest_stays
    (hpass : ∀ (service : η) answer, (Action.sent service call answer).passesOn = none) (services : List η) :
    Relates (Stays passed) (anyServiceShouldRequest env call services) := by
  induction services with
  | nil => exact Relates.pure false
  | cons service services ih =>
    unfold anyServiceShouldRequest
    apply Relates.bind (sendIfResponds_stays env fun _ => .inl (hpass _ _))
    intro _
    exact Relates.ite (Relates.pure true) ih

/-- The response was scheduled for confirmation, and no service had asked for it. -/
structure Declines (message : MTIncomingMessage β) (s s' : ProtoState η β ρ) : Prop where
  session : ∃ requestMessageId responseMessageId responseLength status,
    message.body = .inl (.msgDetailedResponseInfo requestMessageId responseMessageId responseLength status) ∧
      s'.session = s.session.scheduleMessageConfirmation responseMessageId responseLength.toInt
  epoch : s'.epoch = s.epoch
  log : s'.log = s.log
  passes : Passes (some message) s s'
  actions : ∀ action ∈ s'.actions, action ∈ s.actions ∨ action.requests = false

theorem processDetailedInfo_none (transactionId : Nat) (responseMessageId : BitVec 64) (responseLength : BitVec 32) :
    Relates (Stays passed) (processDetailedInfo env transactionId none responseMessageId responseLength) := by
  intro s
  unfold processDetailedInfo
  have hask : shouldRequestResponse env transactionId responseMessageId none s = .ok true s := rfl
  rw [finalState_bind_of_ok hask]
  exact requestMessageWithId_stays env responseMessageId s

theorem processDetailedInfo_some (transactionId : Nat) (requestMessageId responseMessageId : BitVec 64)
    (responseLength status : BitVec 32) (message : MTIncomingMessage β)
    (hbody : message.body =
      .inl (.msgDetailedResponseInfo requestMessageId responseMessageId responseLength status))
    (s : ProtoState η β ρ) :
    let s' := finalState (processDetailedInfo env transactionId (some requestMessageId) responseMessageId
      responseLength) s
    Stays (some message) s s' ∨ Declines message s s' := by
  intro s'
  let call : ServiceCall β := .shouldRequestMessage responseMessageId requestMessageId transactionId
  obtain ⟨answer, s₁, hask, hactions⟩ := anyServiceShouldRequest_ok env call s.rest.messageServices s
  have hstays : Stays (some message) s s₁ := by
    rw [← finalState_of_ok hask]
    exact anyServiceShouldRequest_stays env (fun _ _ => rfl) s.rest.messageServices s
  have hask' : shouldRequestResponse env transactionId responseMessageId (some requestMessageId) s = .ok answer s₁ :=
    hask
  unfold s' processDetailedInfo
  rw [finalState_bind_of_ok hask']
  cases answer with
  | true =>
    left
    exact Stays.instTrans.trans _ _ _ hstays (requestMessageWithId_stays env responseMessageId s₁)
  | false =>
    right
    refine ⟨⟨_, _, _, _, hbody, ?_⟩, hstays.epoch, hstays.log, hstays.passes, hactions rfl⟩
    rw [← hstays.session]
    rfl

/-! ## One message -/

theorem dispatchMessage_step (useUnauthorizedMode : Bool) (delivery : Delivery) (message : MTIncomingMessage β)
    (s : ProtoState η β ρ) :
    let s' := finalState (dispatchMessage env useUnauthorizedMode delivery message) s
    SessionStep (some message) s s' ∨ Declines message s s' := by
  intro s'
  have hother := processOther_sessionStep env delivery.preferForMedia message s
  unfold s' dispatchMessage
  split
  · left
    split
    · exact hother
    · exact processBadMsgNotification_sessionStep env _ _ _ _ s
  · left
    split
    · exact hother
    · exact processBadMsgNotification_sessionStep env _ _ _ _ s
  · exact .inl (processMsgsAck_sessionStep env _ s)
  · next requestMessageId responseMessageId responseLength status hbody =>
    rcases processDetailedInfo_some env delivery.transactionId requestMessageId responseMessageId responseLength status
      message hbody s with h | h
    · exact .inl (.inl h)
    · exact .inr h
  · exact .inl (sessionStep_of_stays (processDetailedInfo_none env _ _ _) s)
  · exact .inl (processNewSession_sessionStep env _ s)
  · exact .inl hother

/-- A message whose id was processed: a confirmation, and a transaction where too many are waiting. -/
def ProtoState.confirmed (s : ProtoState η β ρ) (message : MTIncomingMessage β) : ProtoState η β ρ :=
  let session := s.session.scheduleMessageConfirmation message.messageId message.size.toInt
  { s with
    session := session
    willRequestTransactionOnNextQueuePass := s.willRequestTransactionOnNextQueuePass ||
      session.scheduledMessageConfirmationsExceed maxUnacknowledgedMessageSize maxUnacknowledgedMessageCount }

theorem requestTransactionIf_eq (s : ProtoState η β ρ) : requestTransactionIf condition s = .ok () { s with
      willRequestTransactionOnNextQueuePass := s.willRequestTransactionOnNextQueuePass || condition } := by
  cases condition with
  | true =>
    rw [Bool.or_true]
    rfl
  | false =>
    rw [Bool.or_false]
    rfl

theorem confirmMessage_eq (s : ProtoState η β ρ) : confirmMessage message s = .ok () (s.confirmed message) :=
  requestTransactionIf_eq _ { s with
    session := s.session.scheduleMessageConfirmation message.messageId message.size.toInt }

theorem processIncomingMessage_duplicate (h : s.session.messageProcessed message.messageId = true) :
    processIncomingMessage env useUnauthorizedMode delivery message s = .ok () (s.confirmed message) := by
  unfold processIncomingMessage
  rw [get_bind_apply, if_pos h]
  exact confirmMessage_eq message s

/-- The state in which a message that is new to the session reaches its branch. -/
structure Marked (useUnauthorizedMode : Bool) (message : MTIncomingMessage β) (s s₁ : ProtoState η β ρ) : Prop where
  processed : ∀ id, s₁.session.messageProcessed id = true ↔
    id = message.messageId ∨ s.session.messageProcessed id = true
  scheduled : ∀ id ∈ s₁.session.scheduledMessageConfirmations,
    id ∈ s.session.scheduledMessageConfirmations ∨
      id = message.messageId ∧ useUnauthorizedMode = false ∧ message.isContent = true
  epoch : s₁.epoch = s.epoch
  log : s₁.log = s.log
  actions : s₁.actions = s.actions

theorem processIncomingMessage_first (h : s.session.messageProcessed message.messageId = false) :
    ∃ s₁, Marked useUnauthorizedMode message s s₁ ∧
      finalState (processIncomingMessage env useUnauthorizedMode delivery message) s =
        finalState (dispatchMessage env useUnauthorizedMode delivery message) s₁ := by
  let s₀ : ProtoState η β ρ := { s with session := s.session.setMessageProcessed message.messageId }
  have hfinal : finalState (processIncomingMessage env useUnauthorizedMode delivery message) s =
      finalState (confirmContentMessage useUnauthorizedMode message >>= fun _ =>
        dispatchMessage env useUnauthorizedMode delivery message) s₀ := by
    unfold processIncomingMessage
    rw [finalState_get_bind, if_neg (by rw [h]; exact Bool.false_ne_true)]
    exact finalState_bind_of_ok rfl
  have hbind {s₁ : ProtoState η β ρ} (h : confirmContentMessage useUnauthorizedMode message s₀ = .ok () s₁) :
      finalState (processIncomingMessage env useUnauthorizedMode delivery message) s =
        finalState (dispatchMessage env useUnauthorizedMode delivery message) s₁ := by
    rw [hfinal, finalState_bind_of_ok h]
  by_cases hcont : (!useUnauthorizedMode && message.isContent) = true
  · refine ⟨s₀.confirmed message, ⟨fun id => ?_, fun id hid => ?_, rfl, rfl, rfl⟩, hbind ?_⟩
    · unfold ProtoState.confirmed
      rw [MTSessionInfo.messageProcessed_scheduleMessageConfirmation]
      exact MTSessionInfo.messageProcessed_setMessageProcessed _ _ _
    · rcases (MTSessionInfo.mem_scheduleMessageConfirmation _ _ _ _).mp hid with hid | hid
      · exact .inl hid
      · rw [Bool.and_eq_true, Bool.not_eq_true'] at hcont
        exact .inr ⟨hid, hcont⟩
    · unfold confirmContentMessage
      rw [if_pos hcont]
      exact confirmMessage_eq message s₀
  · refine ⟨s₀, ⟨fun id => ?_, fun id => Or.inl, rfl, rfl, rfl⟩, hbind ?_⟩
    · exact MTSessionInfo.messageProcessed_setMessageProcessed _ _ _
    · unfold confirmContentMessage
      rw [if_neg hcont]
      rfl

end

end TelegramClient.MtProto
