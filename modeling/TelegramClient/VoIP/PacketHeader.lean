import TelegramClient.VoIP.Buffers
import TelegramClient.VoIP.ReceiveWindow

/-!
# The packet header of a call

Until the peer is known a packet is a decrypted block, after that a simple block. Both have the number of the packet,
the newest number that was received and a mask of the ones before it; a simple block also has the extras that the peer
has not acknowledged, if the peer knows of them.

* `UnacknowledgedExtraData`, `sendExtra`, `markContained`, `removeAcknowledged` : the list of extras;
* `readPacket` : what `ProcessIncomingPacket` reads up to the payload.

Lengths are natural numbers: a payload is in a buffer of 1024 bytes.
-/

namespace TelegramClient.VoIP

/-! ## Extras -/

structure UnacknowledgedExtraData where
  type : UInt8
  data : Bytes
  /-- The first packet with this extra; 0 before there is one. -/
  firstContainingSeq : UInt32
deriving DecidableEq

/-- What `ProcessExtraData` is given of it. -/
def UnacknowledgedExtraData.bytes (extra : UnacknowledgedExtraData) : Bytes := extra.type :: extra.data

/-- `SendExtra`: an extra takes the place of one of its type. -/
def sendExtra (data : Bytes) (type : UInt8) : List UnacknowledgedExtraData → List UnacknowledgedExtraData
  | [] => [⟨type, data, 0⟩]
  | x :: xs => if x.type = type then ⟨type, data, 0⟩ :: xs else x :: sendExtra data type xs

def markContained (pseq : UInt32) (extras : List UnacknowledgedExtraData) : List UnacknowledgedExtraData :=
  extras.map fun x => if x.firstContainingSeq = 0 then { x with firstContainingSeq := pseq } else x

def UnacknowledgedExtraData.isAcknowledged (lastRemoteAckSeq : UInt32) (x : UnacknowledgedExtraData) : Bool :=
  x.firstContainingSeq != 0 &&
    (lastRemoteAckSeq == x.firstContainingSeq || seqgt lastRemoteAckSeq x.firstContainingSeq)

def removeAcknowledged (lastRemoteAckSeq : UInt32) (extras : List UnacknowledgedExtraData) :
    List UnacknowledgedExtraData := extras.filter fun x => !x.isAcknowledged lastRemoteAckSeq

/-- The extras that `SendStreamFlags`, a change of the network, the two endpoint announcements, `RequestCallUpgrade` and
`SendGroupCallKey` send. -/
inductive ApiExtra where
  | streamFlags (id : UInt8) (flags : UInt32)
  | networkChanged (flags : UInt32)
  | lanEndpoint (address port : UInt32)
  | ipv6Endpoint (ip : Vector UInt8 16) (port : UInt16)
  | requestGroup
  | groupCallKey (key : Vector UInt8 256)

namespace ApiExtra

/-- `EXTRA_TYPE_*`. -/
def type : ApiExtra → UInt8
  | streamFlags _ _ => 1
  | lanEndpoint _ _ => 3
  | networkChanged _ => 4
  | groupCallKey _ => 5
  | requestGroup => 6
  | ipv6Endpoint _ _ => 7

def data : ApiExtra → Bytes
  | streamFlags id flags => id :: leBits flags.toBitVec
  | lanEndpoint address port => leBits address.toBitVec ++ leBits port.toBitVec
  | networkChanged flags => leBits flags.toBitVec
  | groupCallKey key => key.toList
  | requestGroup => []
  | ipv6Endpoint ip port => ip.toList ++ leBits port.toBitVec

end ApiExtra

/-- The lists that come of sending extras, of headers and of acknowledgements. -/
inductive FromApi : List UnacknowledgedExtraData → Prop
  | empty : FromApi []
  | send {extras} (h : FromApi extras) (extra : ApiExtra) : FromApi (sendExtra extra.data extra.type extras)
  | written {extras} (h : FromApi extras) (pseq : UInt32) : FromApi (markContained pseq extras)
  | acknowledged {extras} (h : FromApi extras) (lastRemoteAckSeq : UInt32) :
      FromApi (removeAcknowledged lastRemoteAckSeq extras)

/-! ## Writing -/

/-- `STATE_*`. -/
inductive CallState where
  | waitInit
  | waitInitAck
  | established
  | failed
  | reconnecting
deriving DecidableEq

/-- What `WritePacketHeader` reads of the controller. -/
structure Connection where
  state : CallState
  peerVersion : Int32
  callID : Vector UInt8 16
  window : ReceiveWindow
  currentExtras : List UnacknowledgedExtraData

structure HeaderRandom where
  randomID : UInt64
  randBytes : Vector UInt8 7

structure PacketHeader where
  type : UInt8
  ackId : UInt32
  pseq : UInt32
  acks : UInt32
  /-- What `ProcessExtraData` is given. -/
  extras : List Bytes
deriving DecidableEq

def addAck (recvPacketTimes : Vector Int 32) (acks : UInt32) (i : Fin 32) : UInt32 :=
  let acks := if 0 < recvPacketTimes.get i then acks ||| 1 else acks
  if i.val < 31 then acks <<< 1 else acks

/-- The mask of the packets that were received: the newest one is the highest bit. -/
def ackMask (recvPacketTimes : Vector Int 32) : UInt32 := (List.finRange 32).foldl (addAck recvPacketTimes) 0

def TLID_DECRYPTED_AUDIO_BLOCK : UInt32 := 0xDBF948C1
def TLID_SIMPLE_AUDIO_BLOCK : UInt32 := 0xCC0D0E76
def PROTOCOL_NAME : UInt32 := 0x50567247
def PFLAG_HAS_DATA : UInt32 := 1
def PFLAG_HAS_EXTRA : UInt32 := 2
def PFLAG_HAS_CALL_ID : UInt32 := 4
def PFLAG_HAS_PROTO : UInt32 := 8
def PFLAG_HAS_SEQ : UInt32 := 16
def PFLAG_HAS_RECENT_RECV : UInt32 := 32
def XPFLAG_HAS_EXTRA : UInt8 := 1

namespace Connection

def isDecryptedBlock (c : Connection) : Bool := c.state == .waitInit || c.state == .waitInitAck

def pflags (type : UInt8) (length : Nat) : UInt32 :=
  let pflags := PFLAG_HAS_RECENT_RECV ||| PFLAG_HAS_SEQ
  let pflags := if 0 < length then pflags ||| PFLAG_HAS_DATA else pflags
  let pflags := pflags ||| (PFLAG_HAS_CALL_ID ||| PFLAG_HAS_PROTO)
  pflags ||| (type.toUInt32 <<< 24)

section
open BufferOutputStream
variable (size : Nat)

def writeDecryptedBlock (c : Connection) (random : HeaderRandom) (pseq : UInt32) (type : UInt8) (length : Nat) :
    WriteM Unit := do
  writeInt32 size TLID_DECRYPTED_AUDIO_BLOCK
  writeInt64 size random.randomID
  writeByte size 7
  writeBytes size random.randBytes.toList
  writeInt32 size (pflags type length)
  if pflags type length &&& PFLAG_HAS_CALL_ID ≠ 0 then writeBytes size c.callID.toList else pure ()
  writeInt32 size c.window.lastRemoteSeq
  writeInt32 size pseq
  writeInt32 size (ackMask c.window.recvPacketTimes)
  if pflags type length &&& PFLAG_HAS_PROTO ≠ 0 then writeInt32 size PROTOCOL_NAME else pure ()
  if 0 < length then writeTlLength size length else pure ()

/-- An extra behind its length, which counts the byte of the type. -/
def writeExtra (x : UnacknowledgedExtraData) : WriteM Unit := do
  WriteM.assert (decide (x.data.length ≤ 254))
  writeByte size (UInt8.ofNat (x.data.length + 1))
  writeByte size x.type
  writeBytes size x.data

def writeExtras (c : Connection) : WriteM Unit :=
  if 6 ≤ c.peerVersion then
    if c.currentExtras.isEmpty then writeByte size 0
    else do
      writeByte size XPFLAG_HAS_EXTRA
      writeByte size (UInt8.ofNat c.currentExtras.length)
      c.currentExtras.forM (writeExtra size)
  else pure ()

def writeSimpleBlock (c : Connection) (random : HeaderRandom) (pseq : UInt32) (type : UInt8) (length : Nat) :
    WriteM Unit := do
  writeInt32 size TLID_SIMPLE_AUDIO_BLOCK
  writeInt64 size random.randomID
  writeByte size 7
  writeBytes size random.randBytes.toList
  writeTlLength size (length + 13)
  writeByte size type
  writeInt32 size c.window.lastRemoteSeq
  writeInt32 size pseq
  writeInt32 size (ackMask c.window.recvPacketTimes)
  writeExtras size c

/-- `WritePacketHeader`, up to what it keeps about the packet. -/
def writePacketHeader (c : Connection) (random : HeaderRandom) (pseq : UInt32) (type : UInt8) (length : Nat) :
    WriteM Unit :=
  if c.isDecryptedBlock then writeDecryptedBlock size c random pseq type length
  else writeSimpleBlock size c random pseq type length

end

/-- `RunSendThread`: the header and the payload, in a buffer of 1500 bytes. -/
def writePacket (c : Connection) (random : HeaderRandom) (pseq : UInt32) (type : UInt8) (payload : Bytes) :
    Except WriteFault Bytes :=
  ((do
    writePacketHeader 1500 c random pseq type payload.length
    BufferOutputStream.writeBytes 1500 payload : WriteM Unit).run []).map Prod.snd

def sentExtras (c : Connection) : List Bytes :=
  if !c.isDecryptedBlock && decide (6 ≤ c.peerVersion) then c.currentExtras.map UnacknowledgedExtraData.bytes else []

def packetHeader (c : Connection) (pseq : UInt32) (type : UInt8) : PacketHeader where
  type := type
  ackId := c.window.lastRemoteSeq
  pseq := pseq
  acks := ackMask c.window.recvPacketTimes
  extras := c.sentExtras

end Connection

/-! ## Reading -/

/-- Why a packet is dropped. A wrong call or protocol also ends the call. -/
inductive Rejection where
  | noSeqOrRecentRecv
  | wrongCallID
  | wrongProtocol
  | unknownType
deriving DecidableEq

structure ReceivedHeader where
  type : UInt8
  ackId : UInt32
  pseq : UInt32
  acks : UInt32
  pflags : UInt8
  packetInnerLen : Nat
deriving DecidableEq

section
open BufferInputStream

/-- The seek over `count` bytes and their padding. -/
def skipPadded (count : Nat) : ReadM Unit := do
  let offset ← getOffset
  seek (offset + count + pad4 count)

def skipTlBytes : ReadM Unit := do
  let randLen ← readTlLength
  skipPadded randLen

def readCallID (flags : UInt32) (callID : Bytes) : ReadM Bool :=
  if flags &&& PFLAG_HAS_CALL_ID ≠ 0 then do
    let pktCallID ← readBytes 16
    return pktCallID == callID
  else pure true

def readProtocol (flags : UInt32) : ReadM Bool :=
  if flags &&& PFLAG_HAS_PROTO ≠ 0 then do
    let proto ← readInt32
    return proto == PROTOCOL_NAME
  else pure true

def skipExtra (flags : UInt32) : ReadM Unit := if flags &&& PFLAG_HAS_EXTRA ≠ 0 then skipTlBytes else pure ()

def readInnerLen (flags : UInt32) : ReadM Nat := if flags &&& PFLAG_HAS_DATA ≠ 0 then readTlLength else pure 0

def readDecryptedBody (callID : Bytes) (flags : UInt32) : ReadM (Except Rejection ReceivedHeader) :=
  if flags &&& PFLAG_HAS_SEQ ≠ 0 ∧ flags &&& PFLAG_HAS_RECENT_RECV ≠ 0 then do
    let sameCall ← readCallID flags callID
    if sameCall then do
      let ackId ← readInt32
      let pseq ← readInt32
      let acks ← readInt32
      let sameProtocol ← readProtocol flags
      if sameProtocol then do
        skipExtra flags
        let packetInnerLen ← readInnerLen flags
        return .ok ⟨((flags >>> 24) &&& 0xFF).toUInt8, ackId, pseq, acks, 0, packetInnerLen⟩
      else return .error .wrongProtocol
    else return .error .wrongCallID
  else return .error .noSeqOrRecentRecv

def readDecryptedBlock (callID : Bytes) : ReadM (Except Rejection ReceivedHeader) := do
  let _ ← readInt64
  skipTlBytes
  let flags ← readInt32
  readDecryptedBody callID flags

def readPflags (peerVersion : Int32) : ReadM UInt8 := if 6 ≤ peerVersion then readByte else pure 0

def readSimpleBlock (peerVersion : Int32) : ReadM (Except Rejection ReceivedHeader) := do
  let _ ← readInt64
  skipTlBytes
  let packetInnerLen ← readTlLength
  let type ← readByte
  let ackId ← readInt32
  let pseq ← readInt32
  let acks ← readInt32
  let pflags ← readPflags peerVersion
  return .ok ⟨type, ackId, pseq, acks, pflags, packetInnerLen⟩

def readHeader (callID : Bytes) (peerVersion : Int32) : ReadM (Except Rejection ReceivedHeader) := do
  let tlid ← readInt32
  if tlid = TLID_DECRYPTED_AUDIO_BLOCK then readDecryptedBlock callID
  else if tlid = TLID_SIMPLE_AUDIO_BLOCK then readSimpleBlock peerVersion
  else return .error .unknownType

def readExtra : ReadM Bytes := do
  let extraLen ← readByte
  readBytes extraLen.toNat

def readExtras (pflags : UInt8) : ReadM (List Bytes) :=
  if pflags &&& XPFLAG_HAS_EXTRA ≠ 0 then do
    let extraCount ← readByte
    repeatM extraCount.toNat readExtra
  else pure []

/-- All that `ProcessIncomingPacket` reads of a packet that goes past the window, up to the payload. -/
def readPacket (callID : Bytes) (peerVersion : Int32) : ReadM (Except Rejection PacketHeader) := do
  let header ← readHeader callID peerVersion
  match header with
  | .error rejection => return .error rejection
  | .ok header => do
    let extras ← readExtras header.pflags
    return .ok ⟨header.type, header.ackId, header.pseq, header.acks, extras⟩

end

end TelegramClient.VoIP
