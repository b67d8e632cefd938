import TelegramClient.Calls.CallContext

/-!
# The state machine of calls

`TGCallManager`. All its methods run on one queue. What it does with a call is a function of what it keeps of the call.

* `TGCallContext` : what is kept of a call; `CallItem` : what has happened to it, for the statements;
* `TGCallManager`, `updateCallContext`, `stepManager`, `runManager` : all calls, and everything that happens in any order.

A signal that has been replaced, or whose call is gone, delivers nothing. The subscribers of a call are told every state
that is set, in turn. A session hangs up on the main thread, so that it is an event of its own.
-/

namespace TelegramClient.Calls

open MtProto Secret

/-! ## Calls -/

/-- What the manager reads of a `TGCallSession`. -/
structure TGCallSession where
  outgoing : Bool
  hasCallKit : Bool
  completed : Bool
  peerId : Int
  deriving DecidableEq

structure TGCallContext where
  context : Option Context
  session : Option TGCallSession
  disposable : Option Request
  state : Option TGCallStateData
  /-- `acceptCallWithInternalId:` waits for the state `Ready`. -/
  accepting : Bool
  deriving DecidableEq

inductive CallItem where
  /-- An update has been given to it. -/
  | given (context : Context)
  /-- Its random number has been drawn. -/
  | drew (config : AcceptedConfig) (n : Bytes)
  | sent (message : CallMessage)
  | reported (data : TGCallStateData)
  deriving DecidableEq

/-- The entry of `_callContexts` under one id, and what has happened to it. -/
structure CallSlot where
  call : Option TGCallContext
  history : List CallItem
  deriving DecidableEq

namespace CallSlot

def modify (f : TGCallContext → TGCallContext) (s : CallSlot) : CallSlot := { s with call := s.call.map f }

def record (item : CallItem) (s : CallSlot) : CallSlot := { s with history := s.history ++ [item] }

def setContext (context : Context) (s : CallSlot) : CallSlot := s.modify fun c => { c with context := some context }

def setDisposable (request : Option Request) (s : CallSlot) : CallSlot :=
  s.modify fun c => { c with disposable := request }

@[simp] theorem setContext_some (context : Context) (c : TGCallContext) (h : List CallItem) :
    setContext context ⟨some c, h⟩ = ⟨some { c with context := some context }, h⟩ := rfl

@[simp] theorem setDisposable_some (request : Option Request) (c : TGCallContext) (h : List CallItem) :
    setDisposable request ⟨some c, h⟩ = ⟨some { c with disposable := request }, h⟩ := rfl

@[simp] theorem record_mk (item : CallItem) (call : Option TGCallContext) (h : List CallItem) :
    record item ⟨call, h⟩ = ⟨call, h ++ [item]⟩ := rfl

end CallSlot

def cleanupContext (s : CallSlot) : CallSlot := { s with call := none }

section
variable (crypto : CallCrypto) (internalId : Nat)

/-- What `acceptCallWithInternalId:` does when the state is `Ready`. Only a call that has been received gets there. -/
def acceptReady (data : TGCallStateData) (s : CallSlot) : CallSlot :=
  match s.call with
  | none => s
  | some c =>
    match c.context with
    | some (.received receivedContext) =>
      let state : TGCallStateData := {
        internalId := internalId
        callId := receivedContext.callId
        accessHash := receivedContext.accessHash
        state := .accepting
        peerId := data.peerId }
      { call := some { c with
          state := some state
          accepting := false
          disposable := some (.acceptCall receivedContext) }
        history := s.history ++ [.reported state,
          .sent (.acceptCall receivedContext.callId receivedContext.accessHash receivedContext.gB)] }
    | _ => s.modify fun c => { c with accepting := false }

/-- The state is told to the subscribers, of which one may be waiting to accept the call. -/
def setContextState (data : TGCallStateData) (s : CallSlot) : CallSlot :=
  match s.call with
  | none => s
  | some c =>
    let told : CallSlot := ⟨some { c with state := some data }, s.history ++ [.reported data]⟩
    if c.accepting then
      match data.state with
      | .handshake => told
      | .ready => acceptReady internalId data told
      | _ => told.modify fun c => { c with accepting := false }
    else told

def endCall (error : Option String) (s : CallSlot) : CallSlot :=
  cleanupContext (setContextState internalId { internalId := internalId, state := .ended, error := error } s)

def invalidTransition (s : CallSlot) : CallSlot := endCall internalId (some "INVALID_TRANSITION") s

/-- The fields of a state that is reported with a context. -/
def stateOf (call : CallInfo) (state : TGCallState) (peerId : Int) : TGCallStateData :=
  { internalId := internalId, callId := call.callId, accessHash := call.accessHash, state := state, peerId := peerId }

/-! ## Transitions -/

/-- From `nil`. The call notification is not modelled. -/
def transitionFromNil (toContext : Context) (s : CallSlot) : CallSlot :=
  match toContext with
  | .requested requestedContext =>
    setContextState internalId (stateOf internalId requestedContext.toCallInfo .handshake requestedContext.adminId)
      ((s.setContext toContext).setDisposable (some (.receivedIncomingCall requestedContext)))
  | _ => invalidTransition internalId s

def discardedState (reason : TGCallDiscardReason) (outgoing : Bool) : TGCallState :=
  match reason with
  | .busy => .busy
  | .missed => .missed
  | .missedTimeout => if outgoing then .noAnswer else .missed
  | _ => .ended

def isDeclined : Context → Bool
  | .requested requestedContext => requestedContext.declined
  | _ => false

/-- The call is removed at once, without CallKit. -/
def removesAtOnce (context : Context) (session : Option TGCallSession) (discardedContext : DiscardedContext) : Bool :=
  match session with
  | none => true
  | some session =>
    !session.hasCallKit || isDeclined context || session.completed ||
      (discardedContext.reason == .busy && !discardedContext.outside)

def transitionToDiscarded (context : Context) (discardedContext : DiscardedContext) (s : CallSlot) : CallSlot :=
  match s.call with
  | none => s
  | some c =>
    let outgoing := (c.session.map TGCallSession.outgoing).getD false
    let state : TGCallStateData := {
      internalId := internalId
      callId := discardedContext.callId
      state := discardedState discardedContext.reason outgoing
      hungUpOutside := discardedContext.outside
      needsRating := discardedContext.needsRating
      needsDebug := discardedContext.needsDebug
      error := discardedContext.error }
    let s := setContextState internalId state (s.setContext (.discarded discardedContext))
    if removesAtOnce context c.session discardedContext then cleanupContext s else s

def transitionFromRequesting (toContext : Context) (s : CallSlot) : CallSlot :=
  match toContext with
  | .waiting waitingContext =>
    setContextState internalId (stateOf internalId waitingContext.toCallInfo .waiting waitingContext.participantId)
      (s.setContext toContext)
  | _ => invalidTransition internalId s

/-- The modulus of a context, `nil` without a configuration. -/
def WaitingContext.p (waitingContext : WaitingContext) : Bytes :=
  (waitingContext.dhConfig.map fun config => config.p).getD []

def transitionFromWaiting (waitingContext : WaitingContext) (toContext : Context) (s : CallSlot) : CallSlot :=
  match toContext with
  | .waiting updatedWaitingContext =>
    if updatedWaitingContext.receiveDate > waitingContext.receiveDate then
      let newWaitingContext := { updatedWaitingContext with
        a := waitingContext.a, gA := waitingContext.gA, dhConfig := waitingContext.dhConfig }
      setContextState internalId
        (stateOf internalId newWaitingContext.toCallInfo .waitingReceived newWaitingContext.participantId)
        (s.setContext (.waiting newWaitingContext))
    else s
  | .accepted acceptedContext =>
    let key := outgoingKey (mtExp acceptedContext.gB waitingContext.a waitingContext.p)
    let keyId := keyFingerprint crypto key
    ((s.setContext (.accepted { acceptedContext with gA := waitingContext.gA })).setDisposable
        (some (.confirmCall acceptedContext.callId acceptedContext.accessHash key waitingContext.gA keyId))).record
      (.sent (.confirmCall acceptedContext.callId acceptedContext.accessHash waitingContext.gA keyId))
  | _ => invalidTransition internalId s

def transitionFromRequested (toContext : Context) (s : CallSlot) : CallSlot :=
  match toContext with
  | .requested _ => s
  | .waitingConfirm waitingConfirmContext =>
    setContextState internalId
      (stateOf internalId waitingConfirmContext.toCallInfo .accepting waitingConfirmContext.adminId)
      (s.setContext toContext)
  | .received receivedContext =>
    setContextState internalId (stateOf internalId receivedContext.toCallInfo .ready receivedContext.adminId)
      (s.setContext toContext)
  | _ => invalidTransition internalId s

def transitionFromReceived (toContext : Context) (s : CallSlot) : CallSlot :=
  match toContext with
  | .waitingConfirm _ => s.setContext toContext
  | _ => invalidTransition internalId s

/-- The key that the callee makes of `gA`. -/
def WaitingConfirmContext.key (previousContext : WaitingConfirmContext) (gA : Bytes) : Bytes :=
  incomingKey (mtExp gA previousContext.b previousContext.dhConfig.p)

/-- The fingerprint and the commitment are right. -/
def confirms (previousContext : WaitingConfirmContext) (confirmedContext : ConfirmedContext) : Bool :=
  keyFingerprint crypto (previousContext.key confirmedContext.gA) == confirmedContext.keyFingerprint &&
    (crypto.mtSha256 confirmedContext.gA).toList == previousContext.gAHash

def setOngoing (ongoingContext : OngoingContext) (gA : Bytes) (s : CallSlot) : CallSlot :=
  setContextState internalId
    { stateOf internalId ongoingContext.toCallInfo .ongoing ongoingContext.participantId with
      connection := some ⟨ongoingContext.key, visKeyHash crypto ongoingContext.key gA, ongoingContext.connections⟩ }
    (s.setContext (.ongoing ongoingContext))

def transitionFromWaitingConfirm (previousContext : WaitingConfirmContext) (toContext : Context) (s : CallSlot) :
    CallSlot :=
  match toContext with
  | .confirmed confirmedContext =>
    if confirms crypto previousContext confirmedContext then
      let key := previousContext.key confirmedContext.gA
      setOngoing crypto internalId
        { confirmedContext with key := key, keyFingerprint := keyFingerprint crypto key } confirmedContext.gA s
    else endCall internalId (some "FINGERPRINT_MISMATCH") s
  | _ => s

def transitionFromAccepted (previousContext : AcceptedContext) (toContext : Context) (s : CallSlot) : CallSlot :=
  match toContext with
  | .ongoing ongoingContext => setOngoing crypto internalId ongoingContext previousContext.gA s
  | _ => s

def transitionFromOngoing (toContext : Context) (s : CallSlot) : CallSlot :=
  match toContext with
  | .confirmed _ => s
  | _ => invalidTransition internalId s

/-- `performCallContextTransitionWithInternalId:toCallContext:`, from a context to one that is not discarded. -/
def transitionFrom (context toContext : Context) (s : CallSlot) : CallSlot :=
  match context with
  | .requesting => transitionFromRequesting internalId toContext s
  | .waiting waitingContext => transitionFromWaiting crypto internalId waitingContext toContext s
  | .requested _ => transitionFromRequested internalId toContext s
  | .received _ => transitionFromReceived internalId toContext s
  | .waitingConfirm previousContext => transitionFromWaitingConfirm crypto internalId previousContext toContext s
  | .accepted previousContext => transitionFromAccepted crypto internalId previousContext toContext s
  | .ongoing _ => transitionFromOngoing internalId toContext s
  | .confirmed _ | .discarded _ => s

def performCallContextTransition (toContext : Context) (s : CallSlot) : CallSlot :=
  match s.call with
  | none => s
  | some c =>
    match c.context with
    | none => transitionFromNil internalId toContext s
    | some context =>
      match toContext with
      | .discarded discardedContext =>
        match context with
        | .discarded _ => s
        | _ => transitionToDiscarded internalId context discardedContext s
      | _ => transitionFrom crypto internalId context toContext s

/-! ## Requests -/

def requestFailed (rpcError : Option String) (request : Request) (s : CallSlot) : CallSlot :=
  match request with
  | .requestedOutgoingCall _ | .requestCall _ _ _ =>
    performCallContextTransition crypto internalId (.discarded ⟨0, .disconnect, true, false, false, rpcError⟩) s
  | .receivedIncomingCall _ | .receivedCall _ =>
    if rpcError = none ∨ rpcError = some "CALL_ALREADY_ACCEPTED" then s else endCall internalId rpcError s
  | .acceptCall receivedContext =>
    performCallContextTransition crypto internalId
      (.discarded ⟨receivedContext.callId, .disconnect, false, false, false, rpcError⟩) s
  | .confirmCall _ _ _ _ _ => endCall internalId rpcError s
  | .discardCall callId _ reason =>
    let rpcError := if rpcError = some "CALL_ALREADY_DECLINED" then none else rpcError
    performCallContextTransition crypto internalId
      (.discarded ⟨callId, localReason reason, false, false, false, rpcError⟩) s

/-- The discarding of the device shows the reason `localReason`. -/
def withLocalReason (request : Request) (context : Context) : Context :=
  match request, context with
  | .discardCall _ _ reason, .discarded next =>
    if next.reason ≠ localReason reason then .discarded { next with reason := localReason reason } else context
  | _, _ => context

/-- The request has been sent: its parameters have come. -/
def Request.isSent : Request → Bool
  | .requestedOutgoingCall _ | .receivedIncomingCall _ => false
  | _ => true

/-- The signal that the call waits for, which ends with this event. -/
def takeDisposable (s : CallSlot) : Option (Request × CallSlot) :=
  match s.call with
  | none => none
  | some c => c.disposable.map fun request => (request, s.setDisposable none)

def failed (rpcError : Option String) (s : CallSlot) : CallSlot :=
  match takeDisposable s with
  | none => s
  | some (request, s) => requestFailed crypto internalId rpcError request s

def answered (answer : TLPhoneCall) (s : CallSlot) : CallSlot :=
  match takeDisposable s with
  | none => s
  | some (request, s') =>
    if request.isSent then
      match request.context answer with
      | none => requestFailed crypto internalId none request s'
      | some context => performCallContextTransition crypto internalId (withLocalReason request context) s'
    else s

/-- Five seconds after `discardCall`. -/
def timedOut (s : CallSlot) : CallSlot :=
  match takeDisposable s with
  | some (.discardCall callId _ reason, s) =>
    performCallContextTransition crypto internalId
      (.discarded ⟨callId, localReason reason, false, false, false, none⟩) s
  | _ => s

/-- `encryptionConfig` has given its value, and the random number is drawn. -/
def configured (config : AcceptedConfig) (n : Bytes) (s : CallSlot) : CallSlot :=
  match takeDisposable s with
  | some (.requestedOutgoingCall peerId, s) =>
    let s := s.record (.drew config n)
    let gA := gPower config.toDhConfig n
    if !mtCheckIsSafeGAOrB gA config.p then requestFailed crypto internalId none (.requestedOutgoingCall peerId) s
    else
      (s.setDisposable (some (.requestCall n gA config))).record
        (.sent (.requestCall peerId (crypto.mtSha256 gA).toList))
  | some (.receivedIncomingCall call, s) =>
    let s := s.record (.drew config n)
    let gB := gPower config.toDhConfig n
    if !mtCheckIsSafeGAOrB gB config.p then requestFailed crypto internalId none (.receivedIncomingCall call) s
    else
      (s.setDisposable (some (.receivedCall { call with dhConfig := config, b := n, gB := gB }))).record
        (.sent (.receivedCall call.callId call.accessHash))
  | _ => s

/-! ## The user -/

def acceptCall (s : CallSlot) : CallSlot :=
  match s.call with
  | none => s
  | some c =>
    match c.state with
    | none => s
    | some data =>
      if data.state = .handshake then s.modify fun c => { c with accepting := true }
      else if data.state = .ready then acceptReady internalId data s
      else s

def discardCall (reason : TGCallDiscardReason) (error : Option String) (s : CallSlot) : CallSlot :=
  match s.call with
  | none => s
  | some c =>
    let callId := (c.context.bind Context.callId).getD 0
    let accessHash := (c.context.bind Context.accessHash).getD 0
    let peerId := (c.state.map TGCallStateData.peerId).getD 0
    let ending : TGCallStateData := {
      internalId := internalId
      callId := callId
      accessHash := accessHash
      state := .ending
      peerId := peerId
      error := error }
    let s := if reason = .missedTimeout then s else setContextState internalId ending s
    if callId = 0 ∨ accessHash = 0 then
      performCallContextTransition crypto internalId
        (.discarded ⟨callId, localReason reason, false, false, false, none⟩) s
    else
      (s.setDisposable (some (.discardCall callId accessHash reason))).record
        (.sent (.discardCall callId accessHash (tlObjectForReason reason)))

inductive CallEvent where
  | configured (config : AcceptedConfig) (n : Block 256)
  | answered (answer : TLPhoneCall)
  | failed (rpcError : Option String)
  | timedOut
  | acceptCall
  | discardCall (reason : TGCallDiscardReason) (error : Option String)
  /-- The last subscriber has gone, or CallKit has ended the call. -/
  | cleanupContext
  /-- The session has changed on the main thread. -/
  | session (completed : Bool) (peerId : Int)

def stepCall (s : CallSlot) : CallEvent → CallSlot
  | .configured config n => configured crypto internalId config n.toList s
  | .answered answer => answered crypto internalId answer s
  | .failed rpcError => failed crypto internalId rpcError s
  | .timedOut => timedOut crypto internalId s
  | .acceptCall => acceptCall internalId s
  | .discardCall reason error => discardCall crypto internalId reason error s
  | .cleanupContext => cleanupContext s
  | .session completed peerId =>
    s.modify fun c => { c with
      session := c.session.map fun session => { session with completed := completed, peerId := peerId } }

/-! ## New calls -/

/-- `requestCallWithPeerId:uuid:session:`. -/
def newOutgoing (peerId : Int) (session : Option TGCallSession) (s : CallSlot) : CallSlot :=
  setContextState internalId { internalId := internalId, state := .requesting, peerId := peerId }
    { s with call := some ⟨some .requesting, session, some (.requestedOutgoingCall peerId), none, false⟩ }

/-- A call that is requested. With `hasCallKit` it is reported to CallKit. -/
def newIncoming (requestedContext : RequestedContext) (hasCallKit : Bool) (s : CallSlot) : CallSlot :=
  performCallContextTransition crypto internalId (.requested requestedContext)
    { call := some ⟨none, some ⟨false, hasCallKit, false, 0⟩, none, none, false⟩
      history := s.history ++ [.given (.requested requestedContext)] }

def newDeclined (requestedContext : RequestedContext) (s : CallSlot) : CallSlot :=
  discardCall crypto internalId .busy none
    { call := some ⟨some (.requested { requestedContext with declined := true }), some ⟨false, false, false, 0⟩, none,
        none, false⟩
      history := s.history ++ [.given (.requested requestedContext)] }

end

/-! ## The manager -/

structure TGCallManager where
  nextInternalId : Nat
  slots : Nat → CallSlot
  discardedCallIds : List Int

namespace TGCallManager

def init : TGCallManager := ⟨0, fun _ => ⟨none, []⟩, []⟩

/-- `_callContexts`. -/
def callContexts (m : TGCallManager) (internalId : Nat) : Option TGCallContext := (m.slots internalId).call

def setSlot (m : TGCallManager) (internalId : Nat) (s : CallSlot) : TGCallManager :=
  { m with slots := Function.update m.slots internalId s }

def hasCallId (m : TGCallManager) (callId : Int) (internalId : Nat) : Bool :=
  match m.callContexts internalId with
  | none => false
  | some c => (c.context.bind Context.callId) == some callId

/-- A call of another peer is in the table. The calls of this peer are hung up. -/
def hasActiveCall (m : TGCallManager) (requestedContext : RequestedContext) : Bool :=
  (List.range m.nextInternalId).any fun internalId =>
    match m.callContexts internalId with
    | none => false
    | some c =>
      let peerId := (c.session.map TGCallSession.peerId).getD 0
      !(requestedContext.adminId == peerId || requestedContext.participantId == peerId)

end TGCallManager

inductive ManagerEvent where
  | requestCall (peerId : Int) (hasSession useCallKit : Bool)
  /-- An update of a call, the call in the table that the enumeration finds for it, and whether CallKit is there. -/
  | update (call : TLPhoneCall) (found : Option Nat) (useCallKit : Bool)
  | call (internalId : Nat) (event : CallEvent)
  | reset

section
variable (crypto : CallCrypto)

def updateUnknown (callId : Int) (context : Context) (useCallKit : Bool) (m : TGCallManager) : TGCallManager :=
  match context with
  | .requested requestedContext =>
    if callId ∈ m.discardedCallIds then m
    else
      let i := m.nextInternalId
      let s := if m.hasActiveCall requestedContext then newDeclined crypto i requestedContext (m.slots i)
        else newIncoming crypto i requestedContext useCallKit (m.slots i)
      { m.setSlot i s with nextInternalId := i + 1 }
  | .discarded _ => { m with discardedCallIds := m.discardedCallIds ++ [callId] }
  | _ => m

/-- `updateCallContextWithCallId:callContext:`. The calls are enumerated in any order, so that any call with the id may
be found. -/
def updateCallContext (callId : Int) (context : Context) (found : Option Nat) (useCallKit : Bool) (m : TGCallManager) :
    TGCallManager :=
  match found with
  | some i =>
    if m.hasCallId callId i then
      m.setSlot i (performCallContextTransition crypto i context ((m.slots i).record (.given context)))
    else m
  | none =>
    if (List.range m.nextInternalId).any (m.hasCallId callId) then m
    else updateUnknown crypto callId context useCallKit m

def stepManager (m : TGCallManager) : ManagerEvent → TGCallManager
  | .requestCall peerId hasSession useCallKit =>
    let i := m.nextInternalId
    let session := if hasSession then some ⟨true, useCallKit, false, 0⟩ else none
    { m.setSlot i (newOutgoing i peerId session (m.slots i)) with nextInternalId := i + 1 }
  | .update call found useCallKit =>
    match updateContext call with
    | none => m
    | some context => updateCallContext crypto (context.callId.getD 0) context found useCallKit m
  | .call i event => m.setSlot i (stepCall crypto i (m.slots i) event)
  | .reset => { m with slots := fun i => cleanupContext (m.slots i) }

def runManager (events : List ManagerEvent) : TGCallManager := events.foldl (stepManager crypto) .init

end

end TelegramClient.Calls
