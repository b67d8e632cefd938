import TelegramClient.Lib.Bytes
import TelegramClient.Lib.Runs

/-!
# Transactions on a TCP transport

`MTTcpTransport` asks its delegate for transactions. While a transaction is being prepared it does not ask for another
one, unless that takes too long or a ping is due.

* `TcpTransport` : the context of the transport, with the blocks that wait on its queue and the `transactionReady` blocks
  that the delegate has;
* `TransportInv` : why a call is not yet answered;
* **`needsTransaction_answered`** : no call is lost.
-/

namespace TelegramClient.MtProto

structure MTTransportTransaction where
  payload : Bytes
  expectsDataInResponse : Bool
  needsQuickAck : Bool
  deriving DecidableEq

/-- The context; connections and `transactionReady` blocks have numbers. Ghosts: the calls of
`setDelegateNeedsTransaction`, and how many had been made when the delegate was last asked and when a delayed pass last
ran. -/
structure TcpTransport where
  connection : Option Nat
  connectionCount : Nat
  connectionConnected : Bool
  connectionIsValid : Bool
  stopped : Bool
  /-- Of the connection behaviour. -/
  needsReconnection : Bool
  backoffCount : Nat
  backoffTimer : Bool
  willRequestTransactionOnNextQueuePass : Bool
  transactionLockTime : Rat
  isWaitingForTransactionToBecomeReady : Bool
  requestAnotherTransactionWhenReady : Bool
  didSendActualizationPingAfterConnection : Bool
  currentActualizationPingMessageId : BitVec 64
  actualizationPingResendTimer : Bool
  /-- The delayed passes on the queue. -/
  queuedPasses : Nat
  /-- The blocks that the delegate has not called. -/
  transactionReady : List Nat
  /-- The calls of `transportReadyForTransaction:`, each with a ping or not. -/
  requested : List Bool
  /-- What was given to a connection, and the transactions that were not. -/
  sent : List (Nat × MTTransportTransaction)
  failed : List MTTransportTransaction
  needs : Nat
  answered : Nat
  passed : Nat

namespace TcpTransport

def initial : TcpTransport where
  connection := none
  connectionCount := 0
  connectionConnected := false
  connectionIsValid := false
  stopped := false
  needsReconnection := true
  backoffCount := 0
  backoffTimer := false
  willRequestTransactionOnNextQueuePass := false
  transactionLockTime := 0
  isWaitingForTransactionToBecomeReady := false
  requestAnotherTransactionWhenReady := false
  didSendActualizationPingAfterConnection := false
  currentActualizationPingMessageId := 0
  actualizationPingResendTimer := false
  queuedPasses := 0
  transactionReady := []
  requested := []
  sent := []
  failed := []
  needs := 0
  answered := 0
  passed := 0

/-! ## The connection -/

/-- `startIfNeeded`. -/
def startIfNeeded (s : TcpTransport) : TcpTransport :=
  if s.connection.isNone then { s with connection := some s.connectionCount, connectionCount := s.connectionCount + 1 }
  else s

/-- `timerEvent` of the behaviour, and `tcpConnectionBehaviourRequestsReconnection:`. -/
def timerEvent (s : TcpTransport) : TcpTransport :=
  let s := { s with backoffTimer := false }
  if s.stopped then s else s.startIfNeeded

def requestConnection (s : TcpTransport) : TcpTransport := if s.backoffTimer then s else s.timerEvent

/-- `connectionClosed` of the behaviour. -/
def connectionClosed (s : TcpTransport) : TcpTransport :=
  if s.needsReconnection then
    let s := { s with backoffCount := s.backoffCount + 1 }
    if s.backoffCount = 1 then s.timerEvent else { s with backoffTimer := true }
  else s

/-! ## The lock -/

/-- The delegate is asked, with a ping after a new connection. -/
def askDelegate (s : TcpTransport) (now : Rat) : TcpTransport :=
  { s with
    isWaitingForTransactionToBecomeReady := true
    transactionLockTime := now
    didSendActualizationPingAfterConnection := true
    transactionReady := s.transactionReady ++ [s.requested.length]
    requested := s.requested ++ [!s.didSendActualizationPingAfterConnection]
    answered := s.needs }

/-- `_requestTransactionFromDelegate`. -/
def requestTransactionFromDelegate (s : TcpTransport) (now : Rat) : TcpTransport :=
  if s.isWaitingForTransactionToBecomeReady then
    if !s.didSendActualizationPingAfterConnection then
      { s with isWaitingForTransactionToBecomeReady := false, transactionLockTime := 0 }.askDelegate now
    else if now > s.transactionLockTime + 1 then
      { s with isWaitingForTransactionToBecomeReady := false, transactionLockTime := 0 }.askDelegate now
    else { s with requestAnotherTransactionWhenReady := true }
  else s.askDelegate now

/-- One transaction of the list that the delegate hands over. -/
def sendTransaction (s : TcpTransport) (transaction : MTTransportTransaction) : TcpTransport :=
  if transaction.payload.length = 0 then s
  else
    match s.connection with
    | some connection => { s with sent := s.sent ++ [(connection, transaction)] }
    | none => { s with failed := s.failed ++ [transaction] }

end TcpTransport

/-! ## Events -/

/-- What runs on the queue of the transport, with the time where it is read. -/
inductive TransportEvent where
  | setDelegateNeedsTransaction
  | delayedPass (now : Rat)
  | tcpConnectionOpened (connection : Nat) (now : Rat)
  | tcpConnectionClosed (connection : Nat)
  | tcpConnectionReceivedData (connection : Nat)
  | connectionIsValid (connection : Nat)
  | startIfNeeded
  | backoffTimer
  /-- The network has changed; the connection that is told to stop will be closed. -/
  | networkAvailabilityChanged (available : Bool)
  | stop
  | resendActualizationPing (now : Rat)
  /-- The ping has got its message id. -/
  | pingPrepared (messageId : BitVec 64)
  /-- The pong has come, or the ping is given up. -/
  | pingFinished
  | transactionReady (i : Nat) (transactionList : List MTTransportTransaction) (now : Rat)

namespace TcpTransport

def setDelegateNeedsTransaction (s : TcpTransport) : TcpTransport :=
  let s := { s with needs := s.needs + 1 }
  if s.willRequestTransactionOnNextQueuePass then s
  else { s with willRequestTransactionOnNextQueuePass := true, queuedPasses := s.queuedPasses + 1 }

def delayedPass (s : TcpTransport) (now : Rat) : TcpTransport :=
  let s := { s with
    queuedPasses := s.queuedPasses - 1, willRequestTransactionOnNextQueuePass := false, passed := s.needs }
  if s.connection.isNone then s.requestConnection
  else if s.connectionConnected then s.requestTransactionFromDelegate now
  else s

def tcpConnectionOpened (s : TcpTransport) (connection : Nat) (now : Rat) : TcpTransport :=
  if s.connection ≠ some connection then s
  else
    { s with
      connectionConnected := true
      connectionIsValid := false
      didSendActualizationPingAfterConnection := false
      currentActualizationPingMessageId := 0 }.requestTransactionFromDelegate now

def tcpConnectionClosed (s : TcpTransport) (connection : Nat) : TcpTransport :=
  if s.connection ≠ some connection then s
  else
    { { s with connection := none, connectionConnected := false, connectionIsValid := false }.connectionClosed with
      didSendActualizationPingAfterConnection := false
      currentActualizationPingMessageId := 0 }

def resendActualizationPing (s : TcpTransport) (now : Rat) : TcpTransport :=
  let s := { s with actualizationPingResendTimer := false }
  if s.currentActualizationPingMessageId ≠ 0 then
    { s with
      didSendActualizationPingAfterConnection := false
      currentActualizationPingMessageId := 0 }.requestTransactionFromDelegate now
  else s

/-- The block that the delegate calls with its transactions. -/
def becomeReady (s : TcpTransport) (i : Nat) (transactionList : List MTTransportTransaction) (now : Rat) : TcpTransport :=
  let s := transactionList.foldl sendTransaction { s with transactionReady := s.transactionReady.erase i }
  let s := { s with isWaitingForTransactionToBecomeReady := false }
  if s.requestAnotherTransactionWhenReady then
    { s with requestAnotherTransactionWhenReady := false }.requestTransactionFromDelegate now
  else s

def stop (s : TcpTransport) : TcpTransport :=
  { s with
    stopped := true
    connectionConnected := false
    connectionIsValid := false
    needsReconnection := false
    connection := none
    actualizationPingResendTimer := false }

/-- A pass, a timer or a `transactionReady` block runs only where there is one. -/
def stepTransport (s : TcpTransport) : TransportEvent → TcpTransport
  | .setDelegateNeedsTransaction => s.setDelegateNeedsTransaction
  | .delayedPass now => if s.queuedPasses = 0 then s else s.delayedPass now
  | .tcpConnectionOpened connection now => s.tcpConnectionOpened connection now
  | .tcpConnectionClosed connection => s.tcpConnectionClosed connection
  | .tcpConnectionReceivedData connection =>
    if s.connection = some connection ∧ s.currentActualizationPingMessageId ≠ 0 then
      { s with actualizationPingResendTimer := true }
    else s
  | .connectionIsValid connection =>
    if s.connection = some connection then
      { s with connectionIsValid := true, backoffCount := 0, backoffTimer := false }
    else s
  | .startIfNeeded => s.startIfNeeded
  | .backoffTimer => if s.backoffTimer then s.timerEvent else s
  | .networkAvailabilityChanged available => if available then { s with backoffCount := 0 } else s
  | .stop => s.stop
  | .resendActualizationPing now => if s.actualizationPingResendTimer then s.resendActualizationPing now else s
  | .pingPrepared messageId => { s with currentActualizationPingMessageId := messageId }
  | .pingFinished => { s with currentActualizationPingMessageId := 0, actualizationPingResendTimer := false }
  | .transactionReady i transactionList now =>
    if i ∈ s.transactionReady then s.becomeReady i transactionList now else s

/-! ## Why a call is not yet answered -/

structure TransportInv (s : TcpTransport) : Prop where
  answered_le : s.answered ≤ s.needs
  passed_le : s.passed ≤ s.needs
  /-- A connection has to be there to be connected. -/
  connected : s.connectionConnected = true → s.connection.isSome = true
  queued : s.willRequestTransactionOnNextQueuePass = true ↔ s.queuedPasses = 1
  unqueued : s.willRequestTransactionOnNextQueuePass = false ↔ s.queuedPasses = 0
  /-- The block that holds the lock, and the one that will ask again. -/
  locked : s.isWaitingForTransactionToBecomeReady = true → s.transactionReady ≠ []
  another : s.requestAnotherTransactionWhenReady = true → s.transactionReady ≠ []
  waits_queued : s.passed < s.needs → s.queuedPasses = 1
  waits_passed : s.answered < s.passed → s.connectionConnected = false ∨ s.requestAnotherTransactionWhenReady = true

theorem TransportInv.initial : TransportInv initial := by
  constructor <;> simp [TcpTransport.initial]

section
variable {s : TcpTransport}

theorem TransportInv.askDelegate (hpassed : s.passed ≤ s.needs)
    (hconn : s.connectionConnected = true → s.connection.isSome = true)
    (hqueued : s.willRequestTransactionOnNextQueuePass = true ↔ s.queuedPasses = 1)
    (hunqueued : s.willRequestTransactionOnNextQueuePass = false ↔ s.queuedPasses = 0)
    (hwaits : s.passed < s.needs → s.queuedPasses = 1) (now : Rat) : TransportInv (s.askDelegate now) where
  answered_le := Nat.le_refl _
  passed_le := hpassed
  connected := hconn
  queued := hqueued
  unqueued := hunqueued
  locked _ := by simp [TcpTransport.askDelegate]
  another _ := by simp [TcpTransport.askDelegate]
  waits_queued := hwaits
  waits_passed hlt := absurd hlt (Nat.not_lt.mpr hpassed)

/-- Either the delegate is asked, or the block that holds the lock will ask. -/
theorem TransportInv.request (hanswered : s.answered ≤ s.needs) (hpassed : s.passed ≤ s.needs)
    (hconn : s.connectionConnected = true → s.connection.isSome = true)
    (hqueued : s.willRequestTransactionOnNextQueuePass = true ↔ s.queuedPasses = 1)
    (hunqueued : s.willRequestTransactionOnNextQueuePass = false ↔ s.queuedPasses = 0)
    (hlocked : s.isWaitingForTransactionToBecomeReady = true → s.transactionReady ≠ [])
    (hwaits : s.passed < s.needs → s.queuedPasses = 1) (now : Rat) :
    TransportInv (s.requestTransactionFromDelegate now) := by
  unfold requestTransactionFromDelegate
  split
  · rename_i hwait
    split
    · exact .askDelegate hpassed hconn hqueued hunqueued hwaits now
    · split
      · exact .askDelegate hpassed hconn hqueued hunqueued hwaits now
      · exact ⟨hanswered, hpassed, hconn, hqueued, hunqueued, hlocked, fun _ => hlocked hwait, hwaits,
          fun _ => .inr rfl⟩
  · exact .askDelegate hpassed hconn hqueued hunqueued hwaits now

section
variable (h : TransportInv s)
include h

theorem TransportInv.startIfNeeded : TransportInv s.startIfNeeded := by
  unfold TcpTransport.startIfNeeded
  split
  · exact { h with connected := fun _ => rfl }
  · exact h

theorem TransportInv.timerEvent : TransportInv s.timerEvent := by
  unfold TcpTransport.timerEvent
  have hstopped : TransportInv { s with backoffTimer := false } := { h with }
  dsimp only
  split
  · exact hstopped
  · exact hstopped.startIfNeeded

theorem TransportInv.requestConnection : TransportInv s.requestConnection := by
  unfold TcpTransport.requestConnection
  split
  · exact h
  · exact h.timerEvent

theorem TransportInv.connectionClosed : TransportInv s.connectionClosed := by
  unfold TcpTransport.connectionClosed
  split
  · have hcounted : TransportInv { s with backoffCount := s.backoffCount + 1 } := { h with }
    dsimp only
    split
    · exact hcounted.timerEvent
    · exact { hcounted with }
  · exact h

theorem TransportInv.disconnected (connection : Option Nat) (isValid : Bool) :
    TransportInv { s with connection := connection, connectionConnected := false, connectionIsValid := isValid } :=
  { h with
    connected := fun hconn => nomatch hconn
    waits_passed := fun _ => .inl rfl }

end

theorem sendTransaction_eq (s : TcpTransport) (transaction : MTTransportTransaction) :
    ∃ sent failed, s.sendTransaction transaction = { s with sent := sent, failed := failed } := by
  unfold sendTransaction
  split
  · exact ⟨s.sent, s.failed, rfl⟩
  · split
    · exact ⟨_, s.failed, rfl⟩
    · exact ⟨s.sent, _, rfl⟩

theorem sendTransactions_eq (transactionList : List MTTransportTransaction) (s : TcpTransport) :
    ∃ sent failed, transactionList.foldl sendTransaction s = { s with sent := sent, failed := failed } := by
  induction transactionList generalizing s with
  | nil => exact ⟨s.sent, s.failed, rfl⟩
  | cons transaction transactionList ih =>
    obtain ⟨sent, failed, heq⟩ := sendTransaction_eq s transaction
    obtain ⟨sent', failed', heq'⟩ := ih { s with sent := sent, failed := failed }
    exact ⟨sent', failed', by rw [List.foldl_cons, heq, heq']⟩

/-! ## Steps -/

section
variable (h : TransportInv s)
include h

theorem TransportInv.setDelegateNeedsTransaction : TransportInv s.setDelegateNeedsTransaction := by
  unfold TcpTransport.setDelegateNeedsTransaction
  dsimp only
  have hanswered := h.answered_le
  have hpassed := h.passed_le
  split
  · rename_i hwill
    exact { h with
      answered_le := Nat.le_succ_of_le hanswered
      passed_le := Nat.le_succ_of_le hpassed
      waits_queued := fun _ => h.queued.mp hwill }
  · rename_i hwill
    have hzero := h.unqueued.mp (Bool.not_eq_true _ ▸ hwill)
    exact { h with
      answered_le := Nat.le_succ_of_le hanswered
      passed_le := Nat.le_succ_of_le hpassed
      queued := by simp [hzero]
      unqueued := by simp
      waits_queued := fun _ => by simp [hzero] }

theorem TransportInv.delayedPass (hqueued : s.queuedPasses ≠ 0) (now : Rat) : TransportInv (s.delayedPass now) := by
  have hwill : s.willRequestTransactionOnNextQueuePass = true := by
    rw [← Bool.not_eq_false, h.unqueued]
    exact hqueued
  have hone := h.queued.mp hwill
  -- the calls are passed; what they wait for now is open
  have hnone : ∀ t : TcpTransport, t = { s with
      queuedPasses := s.queuedPasses - 1, willRequestTransactionOnNextQueuePass := false, passed := s.needs } →
      t.connectionConnected = false → TransportInv t := by
    rintro _ rfl hdisconnected
    exact { h with
      passed_le := Nat.le_refl _
      queued := by simp [hone]
      unqueued := by simp [hone]
      waits_queued := fun hlt => absurd hlt (Nat.lt_irrefl _)
      waits_passed := fun _ => .inl hdisconnected }
  unfold TcpTransport.delayedPass
  dsimp only
  split
  · rename_i hmissing
    have hdisconnected : s.connectionConnected = false := by
      rw [← Bool.not_eq_true]
      intro hconn
      have hsome := h.connected hconn
      rw [Option.isNone_iff_eq_none] at hmissing
      rw [show s.connection = none from hmissing] at hsome
      cases hsome
    exact (hnone _ rfl hdisconnected).requestConnection
  · split
    · apply TransportInv.request
      · exact h.answered_le
      · exact Nat.le_refl _
      · exact h.connected
      · simp [hone]
      · simp [hone]
      · exact h.locked
      · exact fun hlt => absurd hlt (Nat.lt_irrefl _)
    · rename_i hdisconnected
      exact hnone _ rfl (Bool.not_eq_true _ ▸ hdisconnected)

variable (connection : Nat) (now : Rat)

theorem TransportInv.tcpConnectionOpened : TransportInv (s.tcpConnectionOpened connection now) := by
  unfold TcpTransport.tcpConnectionOpened
  split
  · exact h
  · rename_i hconn
    have hconn : s.connection = some connection := not_not.mp hconn
    apply TransportInv.request
    · exact h.answered_le
    · exact h.passed_le
    · simp [hconn]
    · exact h.queued
    · exact h.unqueued
    · exact h.locked
    · exact h.waits_queued

theorem TransportInv.tcpConnectionClosed : TransportInv (s.tcpConnectionClosed connection) := by
  unfold TcpTransport.tcpConnectionClosed
  split
  · exact h
  · exact { (h.disconnected none false).connectionClosed with }

theorem TransportInv.resendActualizationPing : TransportInv (s.resendActualizationPing now) := by
  unfold TcpTransport.resendActualizationPing
  dsimp only
  split
  · apply TransportInv.request
    · exact h.answered_le
    · exact h.passed_le
    · exact h.connected
    · exact h.queued
    · exact h.unqueued
    · exact h.locked
    · exact h.waits_queued
  · exact { h with }

theorem TransportInv.becomeReady (i : Nat) (transactionList : List MTTransportTransaction) (now : Rat) :
    TransportInv (s.becomeReady i transactionList now) := by
  unfold TcpTransport.becomeReady
  dsimp only
  obtain ⟨sent, failed, heq⟩ := sendTransactions_eq transactionList
    { s with transactionReady := s.transactionReady.erase i }
  rw [heq]
  split
  · apply TransportInv.request
    · exact h.answered_le
    · exact h.passed_le
    · exact h.connected
    · exact h.queued
    · exact h.unqueued
    · exact fun hlocked => nomatch hlocked
    · exact h.waits_queued
  · rename_i hanother
    exact { h with
      locked := fun hlocked => nomatch hlocked
      another := fun hanother' => absurd hanother' hanother }

theorem TransportInv.step (event : TransportEvent) : TransportInv (s.stepTransport event) := by
  cases event with
  | setDelegateNeedsTransaction => exact h.setDelegateNeedsTransaction
  | delayedPass now =>
    simp only [stepTransport]
    split
    · exact h
    · rename_i hqueued
      exact h.delayedPass hqueued now
  | tcpConnectionOpened connection now => exact h.tcpConnectionOpened connection now
  | tcpConnectionClosed connection => exact h.tcpConnectionClosed connection
  | tcpConnectionReceivedData connection | connectionIsValid connection | networkAvailabilityChanged available =>
    simp only [stepTransport]
    split <;> exact { h with }
  | startIfNeeded => exact h.startIfNeeded
  | backoffTimer =>
    simp only [stepTransport]
    split
    · exact h.timerEvent
    · exact h
  | stop => exact { h.disconnected none false with }
  | resendActualizationPing now =>
    simp only [stepTransport]
    split
    · exact h.resendActualizationPing now
    · exact h
  | pingPrepared messageId | pingFinished => exact { h with }
  | transactionReady i transactionList now =>
    simp only [stepTransport]
    split
    · exact h.becomeReady i transactionList now
    · exact h

end

end

/-! ## Runs -/

/-- In every run each call of `setDelegateNeedsTransaction` has been followed by a call of
`transportReadyForTransaction:`, or its delayed pass is still queued, or there is no connection that is connected, or the
delegate will be asked when a `transactionReady` block is called, and there is one. -/
theorem needsTransaction_answered (events : List TransportEvent) :
    ∀ i < (events.foldl stepTransport initial).needs,
      i < (events.foldl stepTransport initial).answered ∨
      (events.foldl stepTransport initial).passed ≤ i ∧ 0 < (events.foldl stepTransport initial).queuedPasses ∨
      (events.foldl stepTransport initial).connection = none ∨
      (events.foldl stepTransport initial).connectionConnected = false ∨
      (events.foldl stepTransport initial).requestAnotherTransactionWhenReady = true ∧
        (events.foldl stepTransport initial).transactionReady ≠ [] := by
  intro i hi
  have h : TransportInv (events.foldl stepTransport initial) :=
    AllSteps.invariant (fun s event hs _ => hs.step event) TransportInv.initial
      (allSteps_of_forall (fun (_ : TransportEvent) _ => trivial) initial)
  by_cases hanswered : i < (events.foldl stepTransport initial).answered
  · exact Or.inl hanswered
  · right
    by_cases hpassed : (events.foldl stepTransport initial).passed ≤ i
    · have hone := h.waits_queued (by omega)
      exact Or.inl ⟨hpassed, by omega⟩
    · rcases h.waits_passed (by omega) with hdisconnected | hanother
      · exact Or.inr (Or.inr (Or.inl hdisconnected))
      · exact Or.inr (Or.inr (Or.inr ⟨hanother, h.another hanother⟩))

/-- A call while another transaction is prepared. -/
def anotherCall : List TransportEvent :=
  [.startIfNeeded, .tcpConnectionOpened 0 5, .setDelegateNeedsTransaction, .delayedPass 5]

/-- The delegate will be asked when that one is ready. -/
theorem anotherCall_asked : (anotherCall.foldl stepTransport initial).requestAnotherTransactionWhenReady = true ∧
    (anotherCall.foldl stepTransport initial).transactionReady ≠ [] := by
  rcases needsTransaction_answered anotherCall 0 (by decide +kernel) with h | ⟨-, h⟩ | h | h | h
  · exact absurd h (by decide +kernel)
  · exact absurd h (by decide +kernel)
  · exact absurd h (by decide +kernel)
  · exact absurd h (by decide +kernel)
  · exact h

end TcpTransport

end TelegramClient.MtProto
