import TelegramClient.VoIP.PacketCrypto

/-!
# The endpoints of a call

A call is sent through relays or to the peer itself. The endpoints are objects that the table, the current endpoint and
the preferred relay point to.

* `Endpoint`, `EndpointTable` : the objects, and what points to them;
* `EndpointEvent`, `stepEndpoints` : the order of these.

A pointer is the number of its object. Products of round trip times are rounded by `PingThresholds.mul`, and `MapOrder` is
the order in which an unordered map is walked.
-/

namespace TelegramClient.VoIP.Endpoints

/-! ## Objects -/

structure Endpoint where
  id : BitVec 64
  port : UInt16
  address : UInt32
  v6address : BitVec 128
  type : EndpointType
  averageRTT : ℚ
deriving DecidableEq

namespace Endpoint

/-- `IsIPv6Only`. -/
def isIPv6Only (e : Endpoint) : Bool := e.address = 0 && e.v6address ≠ 0

def isRelay (e : Endpoint) : Bool := e.type = .udpRelay || e.type = .tcpRelay

end Endpoint

/-- `(int64_t)(FOURCC(a,b,c,d)) << 32`. -/
def fourcc (a b c d : Char) : BitVec 64 :=
  BitVec.ofNat 64 (d.toNat ||| c.toNat <<< 8 ||| b.toNat <<< 16 ||| a.toNat <<< 24) <<< 32

def p2pInetId : BitVec 64 := fourcc 'P' '2' 'P' '4'
def p2pInetV6Id : BitVec 64 := fourcc 'P' '2' 'P' '6'
def p2pLanId : BitVec 64 := fourcc 'L' 'A' 'N' '4'
def tcpTag : BitVec 64 := fourcc 'T' 'C' 'P' (Char.ofNat 0)
def ipv6Tag : BitVec 64 := fourcc 'I' 'P' 'v' '6'

structure EndpointTable where
  /-- The objects. Those from `next` on have not been made. -/
  heap : Nat → Endpoint
  next : Nat
  endpoints : List Nat
  currentEndpoint : Nat
  preferredRelay : Nat
  useTCP : Bool
  useUDP : Bool
  allowP2p : Bool
  didAddTcpRelays : Bool
  didAddIPv6Relays : Bool
  setCurrentEndpointToTCP : Bool
  waitingForRelayPeerInfo : Bool
  myIPv6 : BitVec 128
  activeNetItfName : String

structure PingThresholds where
  relaySwitch : ℚ
  p2pToRelaySwitch : ℚ
  relayToP2pSwitch : ℚ
  mul : ℚ → ℚ → ℚ

structure MapOrder where
  order : List Nat → List Nat
  perm : ∀ rs, (order rs).Perm rs

namespace EndpointTable

/-- `make_shared`. -/
def make (t : EndpointTable) (e : Endpoint) : EndpointTable :=
  { t with heap := Function.update t.heap t.next e, next := t.next + 1 }

/-- `endpoints.push_back(make_shared<Endpoint>(...))`. -/
def push (t : EndpointTable) (e : Endpoint) : EndpointTable :=
  { t.make e with endpoints := t.endpoints ++ [t.next] }

def modify (t : EndpointTable) (r : Nat) (f : Endpoint → Endpoint) : EndpointTable :=
  { t with heap := Function.update t.heap r (f (t.heap r)) }

def find (t : EndpointTable) (p : Endpoint → Bool) : Option Nat := t.endpoints.find? fun r => p (t.heap r)

/-- `GetEndpointByID`. -/
def getEndpointByID (t : EndpointTable) (id : BitVec 64) : Option Nat := t.find fun e => e.id = id

/-- `GetEndpointByType`. -/
def getEndpointByType (t : EndpointTable) (type : EndpointType) : Option Nat :=
  if type = .udpRelay then some t.preferredRelay else t.find fun e => e.type = type

/-- `SendPublicEndpointsRequest`. -/
def sendPublicEndpointsRequest (t : EndpointTable) : EndpointTable :=
  { t with waitingForRelayPeerInfo := t.waitingForRelayPeerInfo ||
      (t.allowP2p && t.useUDP && (t.find fun e => e.type = .udpRelay && !e.isIPv6Only).isSome) }

/-! ## Relays -/

/-- A copy of a relay that is reached over IPv6 only. -/
def addIPv6Relay (t : EndpointTable) (r : Nat) : EndpointTable :=
  { t.push { t.heap r with address := 0, id := (t.heap r).id ^^^ ipv6Tag } with didAddIPv6Relays := true }

/-- `AddIPv6Relays`. -/
def addIPv6Relays (t : EndpointTable) (map : MapOrder) : EndpointTable :=
  if t.myIPv6 ≠ 0 ∧ t.didAddIPv6Relays = false then
    (map.order (t.endpoints.filter fun r =>
      (t.heap r).isRelay && (t.heap r).v6address ≠ 0 && (t.heap r).address ≠ 0)).foldl addIPv6Relay t
  else t

/-- Before there are any endpoints, and any copies of them. -/
def init (allowP2p : Bool) (myIPv6 : BitVec 128) (activeNetItfName : String) : EndpointTable where
  heap := fun _ => ⟨0, 0, 0, 0, .udpRelay, 0⟩
  next := 0
  endpoints := []
  currentEndpoint := 0
  preferredRelay := 0
  useTCP := false
  useUDP := true
  allowP2p := allowP2p
  didAddTcpRelays := false
  didAddIPv6Relays := false
  setCurrentEndpointToTCP := false
  waitingForRelayPeerInfo := false
  myIPv6 := myIPv6
  activeNetItfName := activeNetItfName

/-- `SetRemoteEndpoints`. The first endpoint is the next object that is made. -/
def setRemoteEndpoints (t : EndpointTable) (endpoints : List Endpoint) (map : MapOrder) : EndpointTable :=
  addIPv6Relays
    { endpoints.foldl push { t with endpoints := [] } with
      currentEndpoint := t.next
      preferredRelay := t.next
      useTCP := !endpoints.any fun e => e.type = EndpointType.udpRelay
      didAddTcpRelays := endpoints.any fun e => e.type = EndpointType.tcpRelay }
    map

/-- A copy of a relay that is reached over TCP, and the copies so far. -/
def addTcpRelay (x : EndpointTable × List Nat) (r : Nat) : EndpointTable × List Nat :=
  let (t, relays) := x
  if (t.heap r).type ≠ .udpRelay then (t, relays)
  else
    let tcpRelay := t.next
    let t := t.make { t.heap r with type := .tcpRelay, averageRTT := 0, id := (t.heap r).id ^^^ tcpTag }
    let t :=
      if t.setCurrentEndpointToTCP ∧ (t.heap t.currentEndpoint).type ≠ .tcpRelay then
        { t with setCurrentEndpointToTCP := false, currentEndpoint := tcpRelay, preferredRelay := tcpRelay }
      else t
    (t, relays ++ [tcpRelay])

/-- The part of the tick that adds the relays over TCP. -/
def addTcpRelays (t : EndpointTable) : EndpointTable :=
  if t.useTCP ∧ t.didAddTcpRelays = false then
    let (t', relays) := t.endpoints.foldl addTcpRelay (t, [])
    { t' with endpoints := t'.endpoints ++ relays, didAddTcpRelays := true }
  else t

/-- Too few pings over UDP come back: none, or not enough. -/
def loseUDP (t : EndpointTable) (unavailable : Bool) : EndpointTable :=
  if unavailable then
    { t with
      useTCP := true
      useUDP := false
      waitingForRelayPeerInfo := false
      setCurrentEndpointToTCP := t.setCurrentEndpointToTCP || (t.heap t.currentEndpoint).type ≠ .tcpRelay }
  else { t with useTCP := true, setCurrentEndpointToTCP := true }

/-! ## The peer -/

def eraseFirst (t : EndpointTable) (p : Endpoint → Bool) : EndpointTable :=
  match t.find p with
  | none => t
  | some r =>
    { t with
      currentEndpoint := if t.currentEndpoint = r then t.preferredRelay else t.currentEndpoint
      endpoints := t.endpoints.eraseP fun r => p (t.heap r) }

def handlePeerInfo (t : EndpointTable) (peerAddr : UInt32) (peerPort : UInt16) : EndpointTable :=
  if t.waitingForRelayPeerInfo then
    let t := t.eraseFirst fun e => e.type = .udpP2pInet && !e.isIPv6Only
    let t := t.eraseFirst fun e => e.type = .udpP2pLan
    { t.push ⟨p2pInetId, peerPort, peerAddr, 0, .udpP2pInet, 0⟩ with waitingForRelayPeerInfo := false }
  else t

/-- The peer's address in the local network. As an extra it is ignored where the call may not be direct. -/
def handleLanEndpoint (t : EndpointTable) (extra : Bool) (peerAddr : UInt32) (peerPort : UInt16) : EndpointTable :=
  if extra ∧ t.allowP2p = false then t
  else
    match t.find fun e => e.type = .udpP2pLan with
    | some r =>
      { t.modify r fun e => { e with address := peerAddr } with
        currentEndpoint := if t.currentEndpoint = r then t.preferredRelay else t.currentEndpoint }
    | none => t.push ⟨p2pLanId, peerPort, peerAddr, 0, .udpP2pLan, 0⟩

def handleIPv6Endpoint (t : EndpointTable) (addr : BitVec 128) (port : UInt16) : EndpointTable :=
  if t.allowP2p = false then t
  else
    match t.find fun e => e.type = .udpP2pInet && e.isIPv6Only with
    | some r =>
      { t.modify r fun e => { e with v6address := addr } with
        currentEndpoint := if t.myIPv6 ≠ 0 then r else t.currentEndpoint }
    | none =>
      { t.push ⟨p2pInetV6Id, port, 0, addr, .udpP2pInet, 0⟩ with
        currentEndpoint := if t.myIPv6 ≠ 0 then t.next else t.currentEndpoint }

/-! ## Other endpoints are chosen -/

variable (thresholds : PingThresholds)

/-- One turn of the loop of `SendRelayPings`: the shortest time so far, and its relay. -/
def minPing (t : EndpointTable) (best : ℚ × Nat) (r : Nat) : ℚ × Nat :=
  let e := t.heap r
  if e.type = .udpRelay ∨ (t.useTCP ∧ e.type = .tcpRelay) then
    let k := if e.type = .udpRelay then 1 else 2
    if 0 < e.averageRTT ∧ thresholds.mul e.averageRTT k < thresholds.mul best.1 thresholds.relaySwitch then
      (thresholds.mul e.averageRTT k, r)
    else best
  else best

/-- The loop of `SendRelayPings`. -/
def minPingRelay (t : EndpointTable) : ℚ × Nat :=
  let preferred := t.heap t.preferredRelay
  t.endpoints.foldl (t.minPing thresholds)
    (thresholds.mul preferred.averageRTT (if preferred.type = .tcpRelay then 2 else 1), t.preferredRelay)

def prefer (t : EndpointTable) (r : Nat) : EndpointTable :=
  if r ≠ t.preferredRelay then
    { t with
      preferredRelay := r
      currentEndpoint := if (t.heap t.currentEndpoint).isRelay then r else t.currentEndpoint }
  else t

def switchP2p (t : EndpointTable) (minPing : ℚ) : EndpointTable :=
  if (t.heap t.currentEndpoint).type = .udpRelay then
    match t.getEndpointByType .udpP2pInet with
    | none => t
    | some p2p =>
      let faster (r : Nat) : Bool :=
        0 < (t.heap r).averageRTT && (t.heap r).averageRTT < thresholds.mul minPing thresholds.relayToP2pSwitch
      match (t.getEndpointByType .udpP2pLan).filter faster with
      | some lan => { t with currentEndpoint := lan }
      | none => if faster p2p then { t with currentEndpoint := p2p } else t
  else if 0 < minPing ∧ minPing < thresholds.mul (t.heap t.currentEndpoint).averageRTT thresholds.p2pToRelaySwitch then
    { t with currentEndpoint := t.preferredRelay }
  else t

/-- `SendRelayPings` in a call that is established, without the pings. -/
def sendRelayPings (t : EndpointTable) : EndpointTable :=
  if 1 < t.endpoints.length then
    let (minPing, r) := t.minPingRelay thresholds
    (t.prefer r).switchP2p thresholds minPing
  else t

def handleTimeout (t : EndpointTable) : EndpointTable :=
  if (t.heap t.currentEndpoint).isRelay then t
  else
    sendPublicEndpointsRequest { t with
      currentEndpoint := t.preferredRelay
      heap := fun r =>
        if r ∈ t.endpoints ∧ ((t.heap r).type = .udpP2pInet ∨ (t.heap r).type = .udpP2pLan) then
          { t.heap r with averageRTT := 0 }
        else t.heap r }

/-- One turn of the loop of `SetNetworkType`. -/
def leaveNetwork (t : EndpointTable) (r : Nat) : EndpointTable :=
  let t :=
    if (t.heap r).type = .udpRelay ∧ t.useTCP then
      if (t.heap t.preferredRelay).type = .tcpRelay then
        { t with useTCP := false, preferredRelay := r, currentEndpoint := r }
      else { t with useTCP := false }
    else t
  let t := t.modify r fun e => { e with averageRTT := 0 }
  if (t.heap r).type = .udpP2pLan then { t with endpoints := t.endpoints.erase r } else t

/-- The part of `SetNetworkType` for a call that is not sent through a relay over UDP. -/
def leaveEndpoint (t : EndpointTable) : EndpointTable :=
  if (t.heap t.currentEndpoint).type ≠ .udpRelay then
    let t :=
      if (t.heap t.preferredRelay).type = .udpRelay then { t with currentEndpoint := t.preferredRelay } else t
    t.endpoints.foldl leaveNetwork t
  else t

/-- `SetNetworkType`, with what the system says, and whether the proxy cannot be used. -/
def setNetworkType (t : EndpointTable) (itfName : String) (myIPv6 : BitVec 128) (proxyFails : Bool) (map : MapOrder) :
    EndpointTable :=
  let t := { t with myIPv6 := myIPv6 }
  if itfName = t.activeNetItfName then t
  else
    let isFirstChange : Bool := t.activeNetItfName.isEmpty
    let t := { t with activeNetItfName := itfName }
    if isFirstChange then t
    else
      let t := t.leaveEndpoint
      let t := if proxyFails then { t with useTCP := true, useUDP := false } else t
      t.sendPublicEndpointsRequest.addIPv6Relays map

end EndpointTable

/-! ## The order of these -/

inductive EndpointEvent where
  | peerInfo (peerAddr : UInt32) (peerPort : UInt16)
  | lanEndpoint (extra : Bool) (peerAddr : UInt32) (peerPort : UInt16)
  | ipv6Endpoint (addr : BitVec 128) (port : UInt16)
  | relayPings
  | addTcpRelays
  | loseUDP (unavailable : Bool)
  | timeout
  | networkType (itfName : String) (myIPv6 : BitVec 128) (proxyFails : Bool)
  /-- The peer is asked for, for another reason, or no longer. -/
  | publicEndpointsRequest
  | requestExpired
  /-- A reply to a ping. -/
  | pong (r : Nat) (averageRTT : ℚ)

def stepEndpoints (thresholds : PingThresholds) (map : MapOrder) (t : EndpointTable) : EndpointEvent → EndpointTable
  | .peerInfo peerAddr peerPort => t.handlePeerInfo peerAddr peerPort
  | .lanEndpoint extra peerAddr peerPort => t.handleLanEndpoint extra peerAddr peerPort
  | .ipv6Endpoint addr port => t.handleIPv6Endpoint addr port
  | .relayPings => t.sendRelayPings thresholds
  | .addTcpRelays => t.addTcpRelays
  | .loseUDP unavailable => t.loseUDP unavailable
  | .timeout => t.handleTimeout
  | .networkType itfName myIPv6 proxyFails => t.setNetworkType itfName myIPv6 proxyFails map
  | .publicEndpointsRequest => t.sendPublicEndpointsRequest
  | .requestExpired => { t with waitingForRelayPeerInfo := false }
  | .pong r averageRTT => t.modify r fun e => { e with averageRTT := averageRTT }

end TelegramClient.VoIP.Endpoints
