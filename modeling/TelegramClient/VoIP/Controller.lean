import TelegramClient.VoIP.PacketHeader

/-!
# Two peers of a call

Two controllers send packets to each other over a network that may lose, repeat and reorder them. A header acknowledges
packets of the other side, and carries the extras that are not acknowledged.

* `Peer` : what a controller keeps about packets and extras, with ghosts;
* `Call`, `CallEvent`, `stepCall` : both peers, all that was ever sent, and the events.

Next to a sequence number of the code stands the whole number that it is the residue of, as a ghost. Headers are what is
read from a packet, not its bytes; both ends are taken to agree on the layout. The hash is a parameter.
-/

namespace TelegramClient.VoIP

structure RecentOutgoingPacket where
  seq : UInt32
  ackTime : Int
  number : Int
deriving DecidableEq

structure PendingOutgoingPacket where
  seq : UInt32
  type : UInt8
  data : Bytes
  number : Int
deriving DecidableEq

/-- A packet that is sent until it is acknowledged or its time is over. -/
structure QueuedPacket where
  type : UInt8
  data : Bytes
  seqs : Vector UInt32 16
  firstSentTime : Int
  lastSentTime : Int
  retryInterval : Int
  timeout : Int
  /-- All the numbers that it was sent under, a ghost. -/
  sentUnder : List Int
deriving DecidableEq

namespace QueuedPacket

/-- `memmove(&qp.seqs[1], qp.seqs, 4*9)`, and the new number in front. -/
def resent (qp : QueuedPacket) (seq : UInt32) (number now : Int) : QueuedPacket :=
  { qp with
    seqs := Vector.ofFn fun j => if j.val = 0 then seq else if j.val ≤ 9 then qp.seqs[j.val - 1] else qp.seqs[j]
    lastSentTime := now
    firstSentTime := if qp.firstSentTime = 0 then now else qp.firstSentTime
    sentUnder := number :: qp.sentUnder }

def isTimedOut (qp : QueuedPacket) (now : Int) : Bool :=
  decide (0 < qp.timeout) && decide (0 < qp.firstSentTime) && decide (qp.timeout ≤ now - qp.firstSentTime)

/-- One of its numbers, up to the first 0, is acknowledged. -/
def isAcked (qp : QueuedPacket) (lastRemoteAckSeq : UInt32) (packets : List RecentOutgoingPacket) : Bool :=
  (qp.seqs.toList.takeWhile (· != 0)).any fun seq =>
    seqgt lastRemoteAckSeq seq && decide ((lastRemoteAckSeq - seq).toNat < 32) &&
      packets.any fun opkt => opkt.seq == seq && decide (0 < opkt.ackTime)

end QueuedPacket

/-- A header on the network, and what its writer had received then. -/
structure Datagram where
  header : PacketHeader
  number : Int
  ackNumber : Int
  accepted : List Int
deriving DecidableEq

/-- A call of `PacketAcknowledged`, and the header it was for. -/
structure Acknowledgement where
  seq : UInt32
  number : Int
  datagram : Datagram
deriving DecidableEq

structure Peer where
  state : CallState
  peerVersion : Int32
  callID : Vector UInt8 16
  receiver : Receiver
  lastRemoteAckSeq : UInt32
  seq : UInt32
  sendQueue : List PendingOutgoingPacket
  recentOutgoingPackets : List RecentOutgoingPacket
  queuedPackets : List QueuedPacket
  currentExtras : List UnacknowledgedExtraData
  lastReceivedExtrasByType : UInt8 → UInt64
  /-- The whole numbers of `lastRemoteAckSeq` and `seq`. -/
  ackNumber : Int
  nextNumber : Int
  /-- The whole number of `firstContainingSeq`. -/
  firstNumber : UInt8 → Int
  acknowledged : List Acknowledgement
  /-- The queued packets that were removed because they were acknowledged. -/
  removed : List QueuedPacket
  /-- The data of the last `SendExtra` of each type. -/
  lastSent : UInt8 → Option Bytes
  /-- The data of each type that went past the filter of `ProcessExtraData` last. -/
  applied : UInt8 → Option Bytes

namespace Peer

def init (callID : Vector UInt8 16) : Peer where
  state := .waitInit
  peerVersion := 0
  callID := callID
  receiver := Receiver.init
  lastRemoteAckSeq := 0
  seq := 1
  sendQueue := []
  recentOutgoingPackets := []
  queuedPackets := []
  currentExtras := []
  lastReceivedExtrasByType := fun _ => 0
  ackNumber := 0
  nextNumber := 1
  firstNumber := fun _ => 0
  acknowledged := []
  removed := []
  lastSent := fun _ => none
  applied := fun _ => none

/-! ## Sending -/

/-- `GenerateOutSeq`, and the packet with this number in the queue of the send thread. `SendInit` puts one copy for each
endpoint there. -/
def put (p : Peer) (type : UInt8) (data : Bytes) (copies : Nat) : Peer :=
  { p with
    seq := p.seq + 1
    nextNumber := p.nextNumber + 1
    sendQueue := p.sendQueue ++ List.replicate copies ⟨p.seq, type, data, p.nextNumber⟩ }

def sendPacketReliably (p : Peer) (type : UInt8) (data : Bytes) (retryInterval timeout : Int) : Peer :=
  let pkt : QueuedPacket := ⟨type, data, Vector.replicate 16 0, 0, 0, retryInterval, timeout, []⟩
  { p with queuedPackets := p.queuedPackets ++ [pkt] }

def sendExtra (p : Peer) (data : Bytes) (type : UInt8) : Peer :=
  { p with
    currentExtras := VoIP.sendExtra data type p.currentExtras
    lastSent := Function.update p.lastSent type (some data) }

/-- The queued packets in `RunTickThread`, with so many `buffers` free in the pool. -/
def resendQueued (now : Int) : List QueuedPacket → Nat → UInt32 → Int →
    List QueuedPacket × List PendingOutgoingPacket
  | [], _, _, _ => ([], [])
  | qp :: qps, buffers, seq, number =>
    if qp.isTimedOut now then resendQueued now qps buffers seq number
    else if qp.retryInterval ≤ now - qp.lastSentTime ∧ 0 < buffers then
      let (kept, pending) := resendQueued now qps (buffers - 1) (seq + 1) (number + 1)
      (qp.resent seq number now :: kept, ⟨seq, qp.type, qp.data, number⟩ :: pending)
    else
      let (kept, pending) := resendQueued now qps buffers seq number
      (qp :: kept, pending)

def tick (p : Peer) (now : Int) (buffers : Nat) : Peer :=
  let resent := resendQueued now p.queuedPackets buffers p.seq p.nextNumber
  { p with
    queuedPackets := resent.1
    sendQueue := p.sendQueue ++ resent.2
    seq := p.seq + UInt32.ofNat resent.2.length
    nextNumber := p.nextNumber + resent.2.length }

/-! ## Headers -/

def connection (p : Peer) : Connection := ⟨p.state, p.peerVersion, p.callID, p.receiver.window, p.currentExtras⟩

def carriesExtras (p : Peer) : Bool := !p.connection.isDecryptedBlock && decide (6 ≤ p.peerVersion)

def canWriteHeader (p : Peer) : Bool := !p.carriesExtras || p.currentExtras.all fun x => decide (x.data.length ≤ 254)

def datagram (p : Peer) (pending : PendingOutgoingPacket) : Datagram where
  header := p.connection.packetHeader pending.seq pending.type
  number := pending.number
  ackNumber := p.receiver.highest
  accepted := p.receiver.accepted

/-- What `WritePacketHeader` keeps. -/
def writeHeader (p : Peer) (pending : PendingOutgoingPacket) : Peer :=
  let packets := p.recentOutgoingPackets ++ [⟨pending.seq, 0, pending.number⟩]
  let p := { p with recentOutgoingPackets := packets.drop (packets.length - 64) }
  if p.carriesExtras then
    { p with
      currentExtras := markContained pending.seq p.currentExtras
      firstNumber := fun type =>
        if p.currentExtras.any fun x => x.type == type && x.firstContainingSeq == 0 then pending.number
        else p.firstNumber type }
  else p

/-- The bit of the mask for the packet `ackId-(i+1)`. -/
def ackBit (acks : UInt32) (i : Nat) : Bool := (acks >>> UInt32.ofNat (31 - i)) &&& 1 != 0

/-- A packet that the mask acknowledges in the round `i`. -/
def isAckedBy (header : PacketHeader) (i : Nat) (packet : RecentOutgoingPacket) : Bool :=
  packet.ackTime == 0 && ackBit header.acks i && packet.seq == header.ackId - UInt32.ofNat (i + 1)

def ackRound (d : Datagram) (now : Int) (s : List RecentOutgoingPacket × List Acknowledgement) (i : Nat) :
    List RecentOutgoingPacket × List Acknowledgement :=
  (s.1.map fun packet => if isAckedBy d.header i packet then { packet with ackTime := now } else packet,
    s.2 ++ (s.1.filter (isAckedBy d.header i)).map fun packet => ⟨packet.seq, packet.number, d⟩)

def processAcks (p : Peer) (d : Datagram) (now : Int) : Peer :=
  if seqgt d.header.ackId p.lastRemoteAckSeq then
    let acked := (List.range 31).foldl (ackRound d now)
      (p.recentOutgoingPackets, p.acknowledged ++ [⟨d.header.ackId, d.ackNumber, d⟩])
    { p with
      lastRemoteAckSeq := d.header.ackId
      ackNumber := d.ackNumber
      recentOutgoingPackets := acked.1
      acknowledged := acked.2
      queuedPackets := p.queuedPackets.filter fun qp => !qp.isAcked d.header.ackId acked.1
      removed := p.removed ++ p.queuedPackets.filter fun qp => qp.isAcked d.header.ackId acked.1
      currentExtras := removeAcknowledged d.header.ackId p.currentExtras }
  else p

variable (sha1 : Bytes → Bytes)

def extraHash (data : Bytes) : UInt64 := UInt64.ofNat (ofLe ((sha1 data).take 8))

/-- `ProcessExtraData`, up to what is done with an extra. No header has an extra without a type. -/
def processExtraData (p : Peer) (data : Bytes) : Peer :=
  match data with
  | [] => p
  | type :: content =>
    let hash := extraHash sha1 data
    if p.lastReceivedExtrasByType type = hash then p
    else
      { p with
        lastReceivedExtrasByType := Function.update p.lastReceivedExtrasByType type hash
        applied := Function.update p.applied type (some content) }

def processExtras (p : Peer) (header : PacketHeader) : Peer :=
  if 6 ≤ p.peerVersion then header.extras.foldl (processExtraData sha1) p else p

/-- The header part of `ProcessIncomingPacket`. -/
def processHeader (p : Peer) (d : Datagram) (now : Int) : Peer :=
  match p.receiver.receive ⟨d.number, now⟩ with
  | none => p
  | some receiver => ({ p with receiver := receiver }.processAcks d now).processExtras sha1 d.header

end Peer

/-! ## The call -/

inductive Side where
  | caller
  | callee
deriving DecidableEq

def Side.other : Side → Side
  | caller => callee
  | callee => caller

/-- Both peers, and all the headers that each of them has ever sent. -/
structure Call where
  peer : Side → Peer
  sent : Side → List Datagram

inductive CallEvent where
  | put (side : Side) (type : UInt8) (data : Bytes) (copies : Nat)
  | sendPacketReliably (side : Side) (type : UInt8) (data : Bytes) (retryInterval timeout : Int)
  | sendExtra (side : Side) (data : Bytes) (type : UInt8)
  | tick (side : Side) (now : Int) (buffers : Nat)
  /-- The send thread writes a packet of its queue. -/
  | send (side : Side) (index : Nat)
  /-- A packet of its queue is never written. -/
  | drop (side : Side) (index : Nat)
  /-- A header of the other side arrives, for the first time or again. -/
  | deliver (side : Side) (index : Nat) (now : Int)
  /-- The rest of the controller goes on with the call. -/
  | setState (side : Side) (state : CallState) (peerVersion : Int32)

namespace Call

def init (callID : Vector UInt8 16) : Call := ⟨fun _ => Peer.init callID, fun _ => []⟩

def act (c : Call) (side : Side) (p : Peer) (out : List Datagram) : Call :=
  ⟨Function.update c.peer side p, Function.update c.sent side (c.sent side ++ out)⟩

end Call

variable (sha1 : Bytes → Bytes)

def stepCall (c : Call) : CallEvent → Call
  | .put side type data copies => c.act side ((c.peer side).put type data copies) []
  | .sendPacketReliably side type data retryInterval timeout =>
    c.act side ((c.peer side).sendPacketReliably type data retryInterval timeout) []
  | .sendExtra side data type => c.act side ((c.peer side).sendExtra data type) []
  | .tick side now buffers => c.act side ((c.peer side).tick now buffers) []
  | .send side index =>
    match (c.peer side).sendQueue[index]? with
    | none => c
    | some pending =>
      -- where the assertion fails nothing is sent
      if (c.peer side).canWriteHeader then
        c.act side { (c.peer side).writeHeader pending with sendQueue := (c.peer side).sendQueue.eraseIdx index }
          [(c.peer side).datagram pending]
      else c
  | .drop side index =>
    c.act side { c.peer side with sendQueue := (c.peer side).sendQueue.eraseIdx index } []
  | .deliver side index now =>
    match (c.sent side.other)[index]? with
    | none => c
    | some d => c.act side ((c.peer side).processHeader sha1 d now) []
  | .setState side state peerVersion =>
    c.act side { c.peer side with state := state, peerVersion := peerVersion } []

def runCall (callID : Vector UInt8 16) (events : List CallEvent) : Call :=
  events.foldl (stepCall sha1) (Call.init callID)

end TelegramClient.VoIP
