import TelegramClient.MtProto.Container

/-!
# The service that keeps the requests

`MTRequestMessageService`: a list of requests, each with the message that carries it, and the answers to them.

* `MTRequest`, `RequestService` : the requests and the fields of the service, with ghosts;
* `RequestEvent`, `stepRequests`, `runRequests` : everything that reaches the service, in any order.

A request is known by its internal id, which every `MTRequest` takes from a counter. Blocks of a request that only
report (progress, quick acks) are left out.
-/

namespace TelegramClient.MtProto

/-! ## Requests -/

structure MTRequestContext where
  messageId : BitVec 64
  messageSeqNo : BitVec 32
  waitingForMessageId : Bool
  transactionId : Option Nat
  quickAckId : BitVec 32
  delivered : Bool
  responseMessageId : BitVec 64
  willInitializeApi : Bool
  deriving DecidableEq

structure MTRequestErrorContext where
  minimalExecuteTime : Rat
  internalServerErrorCount : Nat
  floodWaitSeconds : Nat
  waitingForTokenExport : Bool
  deriving DecidableEq

structure RequestInfo where
  internalId : Nat
  payload : Bytes
  metadata : String
  hasHighPriority : Bool
  needsQuickAck : Bool
  dependsOnPasswordEntry : Bool
  passthroughPasswordEntryError : Bool
  deriving DecidableEq

/-- A request with results in `ρ`. The ghost `addition` counts the calls of `addRequest:` that took effect. -/
structure MTRequest (ρ : Type) where
  info : RequestInfo
  responseParser : Option Bytes → Option ρ
  shouldContinueExecutionWithErrorContext : Option (MTRequestErrorContext → Bool)
  shouldDependOnRequest : Option (RequestInfo → Bool)
  requestContext : Option MTRequestContext
  errorContext : Option MTRequestErrorContext
  addition : Nat

structure MTRpcError where
  errorCode : BitVec 32
  errorDescription : Option String
  deriving DecidableEq

structure MTDropResponseContext where
  dropMessageId : BitVec 64
  messageId : BitVec 64
  messageSeqNo : BitVec 32
  deriving DecidableEq

/-- What `initConnection` says about the client. -/
structure MTApiEnvironment where
  apiId : BitVec 32
  deviceModel : String
  systemVersion : String
  appVersion : String
  systemLangCode : String
  langPack : String
  langPackCode : String
  /-- Address and port of a proxy with a secret. -/
  proxy : Option (String × BitVec 32)
  disableUpdates : Bool
  apiInitializationHash : String
  deriving DecidableEq

/-- A call of a completed block: the addition that it ends, the id in the answer, and the arguments. -/
structure Completion (ρ : Type) where
  addition : Nat
  requestMessageId : BitVec 64
  result : Option ρ
  error : Option MTRpcError
  timestamp : BitVec 64

/-- The service, what it uses of the context and of `MTProto`, and from `additions` on ghosts. -/
structure RequestService (ρ : Type) where
  hasMtProto : Bool
  apiEnvironment : Option MTApiEnvironment
  forceBackgroundRequests : Bool
  requests : List (MTRequest ρ)
  dropReponseContexts : List MTDropResponseContext
  passwordInputRequired : Bool
  apiInitializationHash : Option String
  additions : Nat
  completions : List (Completion ρ)
  /-- The ids of the messages that `MTProto` has handed to the transport. -/
  handed : List (BitVec 64)

structure CallSurroundings where
  currentTime : Rat
  /-- `mtProto.requiredAuthToken` is set. -/
  requiredAuthToken : Bool
  /-- The delegate answers `requestMessageServiceAuthorizationRequired:` by resetting the session. -/
  authorizationResetsSession : Bool

/-! ## Error texts -/

/-- What follows the first occurrence of `text`. -/
def afterText (text : List Char) : List Char → Option (List Char)
  | [] => if text.isEmpty then some [] else none
  | c :: cs => if text.isPrefixOf (c :: cs) then some ((c :: cs).drop text.length) else afterText text cs

/-- `[description rangeOfString:text].location != NSNotFound`; the location in `nil` is zero. -/
def hasText (text : String) : Option String → Bool
  | none => true
  | some description => (afterText text.toList description.toList).isSome

def scanDigits (cs : List Char) : Option Nat :=
  match cs.takeWhile Char.isDigit with
  | [] => none
  | digits => some (digits.foldl (fun n d => 10 * n + (d.toNat - '0'.toNat)) 0)

/-- `-[NSScanner scanInt:]`: what does not fit is cut to the ends of the range. -/
def scanInt (cs : List Char) : Option Int :=
  match cs.dropWhile Char.isWhitespace with
  | '-' :: rest => (scanDigits rest).map fun n => max (-(2 ^ 31)) (-(n : Int))
  | '+' :: rest => (scanDigits rest).map fun n => min (2 ^ 31 - 1) (n : Int)
  | rest => (scanDigits rest).map fun n => min (2 ^ 31 - 1) (n : Int)

/-- The number behind `FLOOD_WAIT_`; a scanner over `nil` finds none. -/
def floodWait (errorDescription : Option String) : Option Int :=
  errorDescription.bind fun description => (afterText "FLOOD_WAIT_".toList description.toList).bind scanInt

/-! ## Answers -/

structure ErrorOutcome where
  restartRequest : Bool
  errorContext : Option MTRequestErrorContext
  authorizationRequired : Bool
  passwordInputRequired : Bool
  dropsApiInitialization : Bool

section
variable {ρ : Type}

def MTRequest.errorContextOrNew (request : MTRequest ρ) : MTRequestErrorContext :=
  request.errorContext.getD ⟨0, 0, 0, false⟩

/-- Wait at least until `time`. -/
def MTRequestErrorContext.waitUntil (errorContext : MTRequestErrorContext) (time : Rat) : MTRequestErrorContext :=
  { errorContext with minimalExecuteTime := max errorContext.minimalExecuteTime time }

/-- The errors 401: a password is asked for, or the authorization is gone. -/
def unauthorizedError (call : CallSurroundings) (rpcError : MTRpcError) (request : MTRequest ρ) : ErrorOutcome :=
  if hasText "SESSION_PASSWORD_NEEDED" rpcError.errorDescription then
    ⟨false, request.errorContext, false, !request.info.passthroughPasswordEntryError, false⟩
  else if call.requiredAuthToken && (hasText "SESSION_REVOKED" rpcError.errorDescription ||
      hasText "AUTH_KEY_UNREGISTERED" rpcError.errorDescription) then
    ⟨true, some { request.errorContextOrNew with waitingForTokenExport := true }, true, false, false⟩
  else
    ⟨false, request.errorContext, true, false, false⟩

def internalServerError (call : CallSurroundings) (request : MTRequest ρ) : ErrorOutcome :=
  let errorContext := request.errorContextOrNew
  let errorContext := { errorContext with internalServerErrorCount := errorContext.internalServerErrorCount + 1 }
  if request.shouldContinueExecutionWithErrorContext.any (· errorContext) then
    ⟨true, some (errorContext.waitUntil (call.currentTime + 2)), false, false, false⟩
  else
    ⟨false, some errorContext, false, false, false⟩

def floodWaitError (call : CallSurroundings) (rpcError : MTRpcError) (request : MTRequest ρ) : ErrorOutcome :=
  let errorContext := request.errorContextOrNew
  match floodWait rpcError.errorDescription with
  | none => ⟨false, some errorContext, false, false, false⟩
  | some errorWaitTime =>
    let errorContext := { errorContext with floodWaitSeconds := nsUInteger errorWaitTime }
    if request.shouldContinueExecutionWithErrorContext.all (· errorContext) then
      ⟨true, some (errorContext.waitUntil (call.currentTime + errorWaitTime)), false, false, false⟩
    else
      ⟨false, some errorContext, false, false, false⟩

def handleRpcError (call : CallSurroundings) (rpcError : MTRpcError) (request : MTRequest ρ) : ErrorOutcome :=
  if rpcError.errorCode = 401#32 then unauthorizedError call rpcError request
  else if rpcError.errorCode = -500#32 ∨ rpcError.errorCode = 500#32 then internalServerError call request
  else if rpcError.errorCode = 420#32 ∨ hasText "FLOOD_WAIT_" rpcError.errorDescription then
    floodWaitError call rpcError request
  else
    ⟨false, request.errorContext, false, false,
      rpcError.errorCode == 400#32 && hasText "CONNECTION_NOT_INITED" rpcError.errorDescription⟩

def errorOutcome (call : CallSurroundings) (request : MTRequest ρ) : Option MTRpcError → ErrorOutcome
  | none => ⟨false, request.errorContext, false, false, false⟩
  | some rpcError => handleRpcError call rpcError request

def MTRequest.isSentAs (messageId : BitVec 64) (request : MTRequest ρ) : Bool :=
  request.requestContext.any fun context => context.messageId == messageId

def updateErrorContext (f : MTRequestErrorContext → MTRequestErrorContext) (request : MTRequest ρ) : MTRequest ρ :=
  { request with errorContext := request.errorContext.map f }

def DBL_EPSILON : Rat := 1 / 2 ^ 52

/-- `updateRequestsTimer`: waits that are over are forgotten. -/
def updateRequestsTimer (currentTime : Rat) (s : RequestService ρ) : RequestService ρ :=
  { s with requests := s.requests.map fun request =>
      if request.requestContext.isNone then
        updateErrorContext (fun errorContext =>
          if errorContext.minimalExecuteTime > currentTime + DBL_EPSILON then errorContext
          else { errorContext with minimalExecuteTime := 0 }) request
      else request }

def clearContext (request : MTRequest ρ) : MTRequest ρ := { request with requestContext := none }

def didChangeSession (s : RequestService ρ) : RequestService ρ :=
  { s with requests := s.requests.map clearContext, dropReponseContexts := [] }

/-- The result or the error that an answer holds. -/
def rpcResponse (inflate : Bytes → Option Bytes) (maybeInternalMessage : Option InternalMessage) (data : Bytes)
    (request : MTRequest ρ) : Except Fault (Option ρ × Option MTRpcError) :=
  match maybeInternalMessage with
  | some (.rpcError errorCode errorDescription) => .ok (none, some ⟨errorCode, errorDescription⟩)
  | _ => do
    let unwrappedData ← unwrapMessage inflate data
    match request.responseParser unwrappedData with
    | some rpcResult => return (some rpcResult, none)
    | none => return (none, some ⟨500#32, some "TL_PARSING_ERROR"⟩)

def applyOutcome (call : CallSurroundings) (initializedApi : Bool) (outcome : ErrorOutcome) (s : RequestService ρ) :
    RequestService ρ :=
  let s :=
    if initializedApi then { s with apiInitializationHash := s.apiEnvironment.map (·.apiInitializationHash) } else s
  let s := if outcome.passwordInputRequired then { s with passwordInputRequired := true } else s
  let s := if outcome.dropsApiInitialization then { s with apiInitializationHash := none } else s
  if outcome.authorizationRequired && call.authorizationResetsSession then didChangeSession s else s

/-- The part of the loop for the request at `index`. -/
def answerRequest (call : CallSurroundings) (requestMessageId timestamp : BitVec 64) (index : Nat)
    (request : MTRequest ρ) (rpcResult : Option ρ) (rpcError : Option MTRpcError) (s : RequestService ρ) :
    RequestService ρ :=
  let outcome := errorOutcome call request rpcError
  let initializedApi := rpcResult.isSome && request.requestContext.any (·.willInitializeApi)
  let s := applyOutcome call initializedApi outcome s
  if outcome.restartRequest then
    { s with requests := s.requests.modify index fun request =>
        { request with requestContext := none, errorContext := outcome.errorContext } }
  else
    { s with
      requests := s.requests.eraseIdx index
      completions := s.completions ++ [⟨request.addition, requestMessageId, rpcResult, rpcError, timestamp⟩] }

def isDropRpcResult : InternalMessage → Bool
  | .dropRpcResultUnknown => true
  | .dropRpcResultDroppedRunning => true
  | .dropRpcResultDropped _ _ _ => true
  | _ => false

/-- `parseMessage:` returns `nil` for data that it does not understand. -/
def parseMessageOrNil (data : Bytes) : Except Fault (Option InternalMessage) :=
  match parseMessage data with
  | .ok message => .ok (some message)
  | .error .failed => .ok none
  | .error .raised => .error .raised

/-- `mtProto:receivedMessage:` for an `rpc_result`. -/
def receivedRpcResult (inflate : Bytes → Option Bytes) (call : CallSurroundings) (requestMessageId timestamp : BitVec 64)
    (data : Bytes) (s : RequestService ρ) : Except Fault (RequestService ρ) := do
  let maybeInternalMessage ← parseMessageOrNil data
  if maybeInternalMessage.any isDropRpcResult then
    return { s with dropReponseContexts := s.dropReponseContexts.eraseP fun dropContext =>
      dropContext.messageId == requestMessageId }
  else
    match s.requests.findIdx? (MTRequest.isSentAs requestMessageId) with
    | none => return updateRequestsTimer call.currentTime s
    | some index =>
      match s.requests[index]? with
      | none => return updateRequestsTimer call.currentTime s
      | some request =>
        let (rpcResult, rpcError) ← rpcResponse inflate maybeInternalMessage data request
        return updateRequestsTimer call.currentTime
          (answerRequest call requestMessageId timestamp index request rpcResult rpcError s)

/-! ## Transactions -/

/-- `MTOutgoingMessage`. The decorator of a message that depends on another one keeps the internal id of that request. -/
structure RequestMessage where
  internalId : Nat
  data : Bytes
  metadata : String
  messageId : BitVec 64
  messageSeqNo : BitVec 32
  needsQuickAck : Bool
  hasHighPriority : Bool
  requiresConfirmation : Bool
  unresolvedDependencyOnRequestInternalId : Option Nat

/-- What the blocks of a transaction have captured, with its messages. -/
structure RequestTransaction where
  messages : List RequestMessage
  requestInternalIdToMessageInternalId : List (Nat × Nat)
  dropMessageIdToMessageInternalId : List (BitVec 64 × Nat)
  requestsWillInitializeApi : Bool

def appendTLString (buffer : Bytes) (string : String) : Except Fault Bytes :=
  appendTLBytes buffer string.toUTF8.toList

/-- `invokeWithLayer` and `initConnection`. -/
def initConnection (currentLayer : BitVec 32) (environment : MTApiEnvironment) : Except Fault Bytes := do
  let flags := if environment.proxy.isSome then 1#32 else 0#32
  let buffer := leBits 0xda9b0d0d#32 ++ leBits currentLayer ++ leBits 0x785188b8#32 ++ leBits flags ++
    leBits environment.apiId
  let buffer ← appendTLString buffer environment.deviceModel
  let buffer ← appendTLString buffer environment.systemVersion
  let buffer ← appendTLString buffer environment.appVersion
  let buffer ← appendTLString buffer environment.systemLangCode
  let buffer ← appendTLString buffer environment.langPack
  let buffer ← appendTLString buffer environment.langPackCode
  match environment.proxy with
  | none => return buffer
  | some (ip, port) =>
    let buffer ← appendTLString (buffer ++ leBits 0x75588b3f#32) ip
    return buffer ++ leBits port

def invokeAfterMsg (messageId : BitVec 64) (data : Bytes) : Bytes := leBits 0xcb9f372d#32 ++ leBits messageId ++ data

/-- The closest earlier request in the list that `request` depends on. -/
def dependency (request : MTRequest ρ) (requests : List (MTRequest ρ)) : Option (MTRequest ρ) :=
  request.shouldDependOnRequest.bind fun shouldDependOnRequest =>
    (requests.takeWhile fun other => other.info.internalId != request.info.internalId).reverse.find? fun other =>
      shouldDependOnRequest other.info

/-- The data in front of which `invokeAfterMsg` may come. -/
def decoratedPayload (currentLayer : BitVec 32) (s : RequestService ρ) (request : MTRequest ρ) (initializeApi : Bool) :
    Except Fault Bytes := do
  let header ← match s.apiEnvironment with
    | some environment => if initializeApi then initConnection currentLayer environment else .ok []
    | none => .ok []
  let withoutUpdates := s.apiEnvironment.any (·.disableUpdates) || s.forceBackgroundRequests
  return (if withoutUpdates then leBits 0xbf9459b7#32 else []) ++ (header ++ request.info.payload)

/-- `decorateRequestData:`: the data, and the internal id of a request without a message that it depends on. -/
def decorateRequestData (currentLayer : BitVec 32) (s : RequestService ρ) (request : MTRequest ρ)
    (initializeApi : Bool) : Except Fault (Bytes × Option Nat) := do
  let currentData ← decoratedPayload currentLayer s request initializeApi
  match dependency request s.requests with
  | none => return (currentData, none)
  | some another =>
    match another.requestContext with
    | some context => return (invokeAfterMsg context.messageId currentData, none)
    | none => return (currentData, some another.info.internalId)

/-- A request that waits for a password, for a time or for a token is left out. -/
def isHeldBack (call : CallSurroundings) (s : RequestService ρ) (request : MTRequest ρ) : Bool :=
  request.info.dependsOnPasswordEntry && s.passwordInputRequired ||
    request.errorContext.any fun errorContext =>
      decide (errorContext.minimalExecuteTime > call.currentTime) || errorContext.waitingForTokenExport

/-- Whether the request goes into the transaction. -/
def isIncluded (call : CallSurroundings) (s : RequestService ρ) (request : MTRequest ρ) : Bool :=
  !isHeldBack call s request &&
    request.requestContext.all fun context =>
      !context.waitingForMessageId && !context.delivered && context.transactionId.isNone

def requestMessage (currentLayer : BitVec 32) (s : RequestService ρ) (initializeApi : Bool) (internalId : Nat)
    (request : MTRequest ρ) : Except Fault RequestMessage := do
  let (data, unresolved) ← decorateRequestData currentLayer s request initializeApi
  return {
    internalId := internalId
    data := data
    metadata := request.info.metadata
    messageId := (request.requestContext.map (·.messageId)).getD 0
    messageSeqNo := (request.requestContext.map (·.messageSeqNo)).getD 0
    needsQuickAck := request.info.needsQuickAck
    hasHighPriority := request.info.hasHighPriority
    requiresConfirmation := true
    unresolvedDependencyOnRequestInternalId := unresolved }

def dropMessage (internalId : Nat) (dropContext : MTDropResponseContext) : RequestMessage where
  internalId := internalId
  data := leBits 0x58e4a740#32 ++ leBits dropContext.dropMessageId
  metadata := "dropAnswer"
  messageId := dropContext.messageId
  messageSeqNo := dropContext.messageSeqNo
  needsQuickAck := false
  hasHighPriority := false
  requiresConfirmation := false
  unresolvedDependencyOnRequestInternalId := none

def requestsWillInitializeApi (s : RequestService ρ) : Bool :=
  s.apiEnvironment.any fun environment => s.apiInitializationHash != some environment.apiInitializationHash

/-- The first loop of `mtProtoMessageTransaction:`; messages get their internal ids in order. -/
def requestMessages (currentLayer : BitVec 32) (s : RequestService ρ) (initializeApi : Bool) :
    Nat → List (MTRequest ρ) → Except Fault (List RequestMessage)
  | _, [] => .ok []
  | internalId, request :: requests => do
    let message ← requestMessage currentLayer s initializeApi internalId request
    let messages ← requestMessages currentLayer s initializeApi (internalId + 1) requests
    return message :: messages

def messageInternalIds : Nat → List (MTRequest ρ) → List (Nat × Nat)
  | _, [] => []
  | internalId, request :: requests => (request.info.internalId, internalId) :: messageInternalIds (internalId + 1) requests

def dropMessages : Nat → List MTDropResponseContext → List (BitVec 64 × RequestMessage)
  | _, [] => []
  | internalId, dropContext :: dropContexts =>
    (dropContext.dropMessageId, dropMessage internalId dropContext) :: dropMessages (internalId + 1) dropContexts

/-- `mtProtoMessageTransaction:`. -/
def requestTransaction (currentLayer : BitVec 32) (call : CallSurroundings) (s : RequestService ρ) :
    Except Fault RequestTransaction := do
  let included := s.requests.filter (isIncluded call s)
  let initializeApi := requestsWillInitializeApi s
  let messages ← requestMessages currentLayer s initializeApi 0 included
  let drops := dropMessages included.length s.dropReponseContexts
  return {
    messages := messages ++ drops.map Prod.snd
    requestInternalIdToMessageInternalId := messageInternalIds 0 included
    dropMessageIdToMessageInternalId := drops.map fun drop => (drop.1, drop.2.internalId)
    requestsWillInitializeApi := initializeApi }

/-! ## Preparation -/

/-- `dynamicDecorator`: a dependency that has no message yet is looked up among the messages prepared so far. -/
def dynamicDecorator (requestIds : List (Nat × Nat)) (preparedMessages : List (Nat × MTPreparedMessage))
    (message : RequestMessage) : Bytes :=
  match message.unresolvedDependencyOnRequestInternalId.bind fun id =>
      (requestIds.lookup id).bind fun messageInternalId => preparedMessages.lookup messageInternalId with
  | some preparedMessage => invokeAfterMsg preparedMessage.messageId message.data
  | none => message.data

/-- The loop of `MTProto` over the messages of a transaction. `generate` gives the ids and numbers that the session gives
out, and whether one of the ids was out of order. -/
def prepareLoop (requestIds : List (Nat × Nat)) (generate : Nat → BitVec 64 × BitVec 32 × Bool)
    (useUnauthorizedMode : Bool) (messageSalt : BitVec 64) : List RequestMessage → Nat → Bool →
      List (Nat × MTPreparedMessage) → Bool × List (Nat × MTPreparedMessage)
  | [], _, monotonityViolated, preparedMessages => (monotonityViolated, preparedMessages)
  | message :: messages, generated, monotonityViolated, preparedMessages =>
    let data := dynamicDecorator requestIds preparedMessages message
    let isNew := message.messageId == 0
    let (messageId, seqNo, violated) :=
      if isNew then generate generated else (message.messageId, message.messageSeqNo, false)
    let monotonityViolated := monotonityViolated || violated
    let preparedMessage : MTPreparedMessage :=
      ⟨message.internalId, messageId, seqNo, messageSalt, data, message.requiresConfirmation, message.hasHighPriority⟩
    let preparedMessages :=
      if !monotonityViolated || useUnauthorizedMode then preparedMessages ++ [(message.internalId, preparedMessage)]
      else preparedMessages
    prepareLoop requestIds generate useUnauthorizedMode messageSalt messages
      (if isNew then generated + 1 else generated) monotonityViolated preparedMessages

/-- The messages that are sent, by their internal ids; none where an id was out of order or no salt is known. -/
def sentMessages (generate : Nat → BitVec 64 × BitVec 32 × Bool) (useUnauthorizedMode : Bool) (authSalt : BitVec 64)
    (transaction : RequestTransaction) : Option (List (Nat × MTPreparedMessage)) :=
  let messageSalt := if useUnauthorizedMode then 0 else authSalt
  let saltSetEmpty := !useUnauthorizedMode && messageSalt == 0
  let (monotonityViolated, preparedMessages) := prepareLoop transaction.requestInternalIdToMessageInternalId generate
    useUnauthorizedMode messageSalt transaction.messages 0 false []
  if monotonityViolated || saltSetEmpty then none else some preparedMessages

/-! ## Events -/

/-- The message of a request, where a dictionary from messages has a value for it. -/
def messageValue {α : Type} (requestIds : List (Nat × Nat)) (values : List (Nat × α)) (request : MTRequest ρ) : Option α :=
  (requestIds.lookup request.info.internalId).bind fun messageInternalId => values.lookup messageInternalId

/-- The `prepared` block. -/
def transactionPrepared (requestIds : List (Nat × Nat)) (willInitializeApi : Bool)
    (preparedMessages : List (Nat × (BitVec 64 × BitVec 32))) (request : MTRequest ρ) : MTRequest ρ :=
  match messageValue requestIds preparedMessages request with
  | none => request
  | some (messageId, seqNo) =>
    { request with requestContext := some ⟨messageId, seqNo, true, none, 0, false, 0, willInitializeApi⟩ }

/-- The `failed` block, which is also the first line of the `completion` block. -/
def transactionFailed (requestIds : List (Nat × Nat)) (request : MTRequest ρ) : MTRequest ρ :=
  if (requestIds.lookup request.info.internalId).isSome then
    { request with requestContext := request.requestContext.map fun context =>
        { context with waitingForMessageId := false } }
  else request

/-- The `completion` block. A dictionary that is `nil` has no values. -/
def requestCompleted (requestIds : List (Nat × Nat)) (willInitializeApi : Bool) (transactionIds : List (Nat × Nat))
    (preparedMessages : List (Nat × (BitVec 64 × BitVec 32))) (quickAckIds : List (Nat × BitVec 32))
    (request : MTRequest ρ) : MTRequest ρ :=
  let request := transactionFailed requestIds request
  match messageValue requestIds preparedMessages request, messageValue requestIds transactionIds request with
  | some (messageId, seqNo), some transactionId =>
    let quickAckId := (messageValue requestIds quickAckIds request).getD 0
    { request with
      requestContext := some ⟨messageId, seqNo, false, some transactionId, quickAckId, false, 0, willInitializeApi⟩ }
  | _, _ => request

/-- The drop contexts get the ids of their messages. -/
def dropCompleted (dropIds : List (BitVec 64 × Nat)) (preparedMessages : List (Nat × (BitVec 64 × BitVec 32)))
    (dropContext : MTDropResponseContext) : MTDropResponseContext :=
  match (dropIds.lookup dropContext.dropMessageId).bind fun i => preparedMessages.lookup i with
  | none => dropContext
  | some (messageId, seqNo) => { dropContext with messageId := messageId, messageSeqNo := seqNo }

def updateContext (f : MTRequestContext → MTRequestContext) (request : MTRequest ρ) : MTRequest ρ :=
  { request with requestContext := request.requestContext.map f }

/-- `f` for the first element that satisfies `p`. -/
def updateFirst {α : Type} (p : α → Bool) (f : α → α) : List α → List α
  | [] => []
  | a :: as => if p a then f a :: as else a :: updateFirst p f as

inductive RequestEvent (ρ : Type) where
  | didAddService (apiEnvironment : Option MTApiEnvironment)
  /-- The weak reference to `MTProto` has become `nil`. -/
  | mtProtoReleased
  | apiEnvironmentUpdated (apiEnvironment : Option MTApiEnvironment) (noop : MTRequest ρ)
  | addRequest (request : MTRequest ρ)
  | removeRequestByInternalId (internalId : Nat) (currentTime : Rat)
  | messageTransaction (call : CallSurroundings)
  | prepared (requestIds : List (Nat × Nat)) (willInitializeApi : Bool)
      (preparedMessages : List (Nat × (BitVec 64 × BitVec 32)))
  /-- The messages go to the transport: the ids were in order, and a salt is known. -/
  | transactionReady (messageIds : List (BitVec 64))
  | failed (requestIds : List (Nat × Nat))
  | completed (requestIds : List (Nat × Nat)) (dropIds : List (BitVec 64 × Nat)) (willInitializeApi : Bool)
      (transactionIds : List (Nat × Nat)) (preparedMessages : List (Nat × (BitVec 64 × BitVec 32)))
      (quickAckIds : List (Nat × BitVec 32))
  | rpcResult (call : CallSurroundings) (requestMessageId timestamp : BitVec 64) (data : Bytes)
  | messageDeliveryConfirmed (messageIds : List (BitVec 64))
  | messageDeliveryFailed (messageId : BitVec 64)
  | transactionsMayHaveFailed (transactionIds : List Nat)
  | allTransactionsMayHaveFailed
  | shouldRequestMessage (responseMessageId messageId : BitVec 64) (currentTransactionId : Option Nat)
  | messageResendRequestFailed (messageId : BitVec 64)
  | didChangeSession
  | serverDidChangeSession (firstValidMessageId : BitVec 64) (otherValidMessageIds : List (BitVec 64))
  | authTokenUpdated
  /-- The context has changed. -/
  | context (passwordInputRequired : Bool) (apiInitializationHash : Option String) (forceBackgroundRequests : Bool)

/-- `addRequest:`; a request that is in the list is not added again. -/
def addRequest (request : MTRequest ρ) (s : RequestService ρ) : RequestService ρ :=
  if s.hasMtProto && !s.requests.any (fun other => other.info.internalId == request.info.internalId) then
    { s with requests := s.requests ++ [{ request with addition := s.additions }], additions := s.additions + 1 }
  else s

def removeRequestByInternalId (internalId : Nat) (currentTime : Rat) (s : RequestService ρ) : RequestService ρ :=
  let isIt (request : MTRequest ρ) : Bool := request.info.internalId == internalId
  let drop := (s.requests.find? isIt).bind fun request => request.requestContext.map fun context =>
    (⟨context.messageId, 0, 0⟩ : MTDropResponseContext)
  updateRequestsTimer currentTime
    { s with requests := s.requests.eraseP isIt, dropReponseContexts := s.dropReponseContexts ++ drop.toList }

def mapRequests (f : MTRequest ρ → MTRequest ρ) (s : RequestService ρ) : RequestService ρ :=
  { s with requests := s.requests.map f }

/-- `delivered` for the first request of each id. -/
def messageDeliveryConfirmed (messageIds : List (BitVec 64)) (requests : List (MTRequest ρ)) : List (MTRequest ρ) :=
  messageIds.foldl (fun requests messageId => updateFirst (MTRequest.isSentAs messageId)
    (updateContext fun context => { context with delivered := true }) requests) requests

def stepRequests (inflate : Bytes → Option Bytes) (currentLayer : BitVec 32) (s : RequestService ρ) :
    RequestEvent ρ → Except Fault (RequestService ρ)
  | .didAddService apiEnvironment => .ok { s with hasMtProto := true, apiEnvironment := apiEnvironment }
  | .mtProtoReleased => .ok { s with hasMtProto := false }
  | .apiEnvironmentUpdated apiEnvironment noop =>
    let changed := s.apiEnvironment.isNone || apiEnvironment.map (·.apiInitializationHash) !=
      s.apiEnvironment.map (·.apiInitializationHash)
    let s := { s with apiEnvironment := apiEnvironment }
    .ok (if changed then addRequest noop s else s)
  | .addRequest request => .ok (addRequest request s)
  | .removeRequestByInternalId internalId currentTime => .ok (removeRequestByInternalId internalId currentTime s)
  | .messageTransaction call => (requestTransaction currentLayer call s).map fun _ => s
  | .prepared requestIds willInitializeApi preparedMessages =>
    .ok (mapRequests (transactionPrepared requestIds willInitializeApi preparedMessages) s)
  | .transactionReady messageIds => .ok { s with handed := s.handed ++ messageIds }
  | .failed requestIds => .ok (mapRequests (transactionFailed requestIds) s)
  | .completed requestIds dropIds willInitializeApi transactionIds preparedMessages quickAckIds =>
    .ok { mapRequests (requestCompleted requestIds willInitializeApi transactionIds preparedMessages quickAckIds) s
      with dropReponseContexts := s.dropReponseContexts.map (dropCompleted dropIds preparedMessages) }
  | .rpcResult call requestMessageId timestamp data => receivedRpcResult inflate call requestMessageId timestamp data s
  | .messageDeliveryConfirmed messageIds =>
    .ok { s with requests := messageDeliveryConfirmed messageIds s.requests }
  | .messageDeliveryFailed messageId =>
    .ok { s with
      requests := updateFirst (MTRequest.isSentAs messageId) clearContext s.requests
      dropReponseContexts := updateFirst (fun dropContext => dropContext.messageId == messageId)
        (fun dropContext => { dropContext with messageId := 0, messageSeqNo := 0 }) s.dropReponseContexts }
  | .transactionsMayHaveFailed transactionIds =>
    .ok (mapRequests (updateContext fun context =>
      if context.transactionId.any (transactionIds.contains ·) then { context with transactionId := none }
      else context) s)
  | .allTransactionsMayHaveFailed =>
    .ok (mapRequests (updateContext fun context => { context with transactionId := none }) s)
  | .shouldRequestMessage responseMessageId messageId currentTransactionId =>
    .ok { s with requests := updateFirst (MTRequest.isSentAs messageId) (updateContext fun context =>
      if context.transactionId.isNone || context.transactionId == currentTransactionId then
        { context with responseMessageId := responseMessageId }
      else context) s.requests }
  | .messageResendRequestFailed messageId =>
    .ok (mapRequests (fun request =>
      if request.requestContext.any (fun context => context.responseMessageId == messageId) then clearContext request
      else request) s)
  | .didChangeSession => .ok (didChangeSession s)
  | .serverDidChangeSession firstValidMessageId otherValidMessageIds =>
    .ok (mapRequests (fun request =>
      if request.requestContext.any (fun context => decide (context.messageId.toInt < firstValidMessageId.toInt) &&
          !otherValidMessageIds.contains context.messageId) then clearContext request
      else request) s)
  | .authTokenUpdated =>
    .ok (mapRequests (updateErrorContext fun errorContext => { errorContext with waitingForTokenExport := false }) s)
  | .context passwordInputRequired apiInitializationHash forceBackgroundRequests =>
    .ok { s with
      passwordInputRequired := passwordInputRequired
      apiInitializationHash := apiInitializationHash
      forceBackgroundRequests := forceBackgroundRequests }

def initRequests : RequestService ρ := ⟨false, none, false, [], [], false, none, 0, [], []⟩

def runRequests (inflate : Bytes → Option Bytes) (currentLayer : BitVec 32) (events : List (RequestEvent ρ)) :
    Except Fault (RequestService ρ) :=
  events.foldlM (stepRequests inflate currentLayer) initRequests

end

end TelegramClient.MtProto
