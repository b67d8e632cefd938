import TelegramClient.VoIP.JitterBuffer
import TelegramClient.VoIP.PayloadBinding

/-!
# How a datagram is taken apart

`ProcessIncomingPacket` from the first byte of a datagram to the frames for the jitter buffers: the answers of relays, the
decryption, the header, the extras, and every type of packet.

* `PacketM`, `PacketState` : reading with exceptions, that keeps what was done before one;
* `processDatagram` : the whole function.

What the code sends, logs and acknowledges meanwhile takes nothing from the datagram, and is left out. At most one endpoint is
in the local network.
-/

namespace TelegramClient.VoIP.Inbound

open Secret

/-! ## The state -/

/-- How `ProcessIncomingPacket` ends when it does not return. -/
inductive PacketFault where
  /-- `std::out_of_range`. -/
  | outOfRange
  /-- `assert(length-offset>=3)`. -/
  | assertion
  /-- `aes_ige_decrypt` on a length that is not a multiple of 16. -/
  | unalignedLength
deriving DecidableEq

structure IncomingStream where
  id : UInt8
  type : UInt8
  frameDuration : UInt16
  enabled : Bool
  extraECEnabled : Bool
  hasJitterBuffer : Bool
deriving DecidableEq

/-- What `ProcessIncomingPacket` reads of the controller. -/
structure ControllerState where
  cipher : CallCipher
  window : ReceiveWindow
  peerVersion : Int32
  receivedInit : Bool
  receivedInitAck : Bool
  waitingForRelayPeerInfo : Bool
  allowP2p : Bool
  incomingStreams : List IncomingStream
  lastReceivedExtrasByType : UInt8 → UInt64
  didReceiveGroupCallKey : Bool
  didSendGroupCallKey : Bool
  dataSavingRequestedByPeer : Bool
  currentEndpoint : EndpointType
  preferredRelay : EndpointType
  /-- Whether the current endpoint gives way to a relay that a packet comes from. -/
  switchToRelay : Bool
  /-- `!myIPv6.IsEmpty()`. -/
  hasIPv6 : Bool

/-- A call of `JitterBuffer::HandleInput`, with the place of its bytes in the stream. -/
structure JitterInput where
  start : Nat
  packet : JitterPacket
deriving DecidableEq

structure PacketState where
  /-- The bytes of `in`. -/
  stream : Bytes
  /-- These, and what is behind them in the buffer of the datagram. -/
  memory : Bytes
  offset : Nat
  /-- The length of the inner payload, a ghost. -/
  payloadLen : Nat
  handled : List JitterInput
  controller : ControllerState

abbrev PacketM := ExceptT PacketFault (StateM PacketState)

/-! ## Reading -/

/-- Reading from `in`. -/
def liftRead {α : Type} (p : ReadM α) : PacketM α := do
  let s ← get
  match p.run ⟨s.stream, s.offset⟩ with
  | .ok (a, c) => set { s with offset := c.offset }; return a
  | .error _ => throw .outOfRange

def seek (offset : Nat) : PacketM Unit := liftRead (BufferInputStream.seek offset)

def readBytes (count : Nat) : PacketM Bytes := liftRead (BufferInputStream.readBytes count)

def readByte : PacketM UInt8 := liftRead BufferInputStream.readByte

def readInt16 : PacketM UInt16 := do
  let bytes ← readBytes 2
  return ⟨ofLeBits 16 bytes⟩

def readInt32 : PacketM UInt32 := liftRead BufferInputStream.readInt32

def readInt64 : PacketM UInt64 := liftRead BufferInputStream.readInt64

def fromBuffer {α : Type} (data : Bytes) (offset : Nat) (p : ReadM α) : PacketM α :=
  match p.run ⟨data, offset⟩ with
  | .ok (a, _) => return a
  | .error _ => throw .outOfRange

def controller : PacketM ControllerState := do return (← get).controller

def modifyController (f : ControllerState → ControllerState) : PacketM Unit :=
  modify fun s => { s with controller := f s.controller }

def remaining : PacketM Nat := do
  let s ← get
  return s.stream.length - s.offset

/-- `ReadTlLength`: the assertion stands before the check. -/
def readTlLength : PacketM Nat := do
  let l ← readByte
  if l < 254 then return l.toNat
  else do
    let left ← remaining
    if left < 3 then throw .assertion
    else do
      let bytes ← readBytes 3
      return ofLe bytes

def repeatRead {α : Type} (p : PacketM α) : Nat → PacketM (List α)
  | 0 => return []
  | n + 1 => do
    let a ← p
    let as ← repeatRead p n
    return a :: as

/-! ## The header -/

def skipTlBytes : PacketM Unit := do
  let randLen ← readTlLength
  liftRead (skipPadded randLen)

def skipExtra (flags : UInt32) : PacketM Unit := if flags &&& PFLAG_HAS_EXTRA ≠ 0 then skipTlBytes else return

def readInnerLen (flags : UInt32) : PacketM Nat := if flags &&& PFLAG_HAS_DATA ≠ 0 then readTlLength else return 0

def failCall : PacketM Unit := modifyController fun c => { c with cipher := { c.cipher with state := .failed } }

/-- A decrypted block behind its flags, `none` when the packet is dropped. -/
def readDecryptedBody (callID : Bytes) (flags : UInt32) : PacketM (Option ReceivedHeader) :=
  if flags &&& PFLAG_HAS_SEQ ≠ 0 ∧ flags &&& PFLAG_HAS_RECENT_RECV ≠ 0 then do
    let sameCall ← liftRead (readCallID flags callID)
    if sameCall then do
      let ackId ← readInt32
      let pseq ← readInt32
      let acks ← readInt32
      let sameProtocol ← liftRead (readProtocol flags)
      if sameProtocol then do
        skipExtra flags
        let packetInnerLen ← readInnerLen flags
        return some ⟨((flags >>> 24) &&& 0xFF).toUInt8, ackId, pseq, acks, 0, packetInnerLen⟩
      else do failCall; return none
    else do failCall; return none
  else return none

def readDecryptedBlock (callID : Bytes) : PacketM (Option ReceivedHeader) := do
  let _ ← readInt64
  skipTlBytes
  let flags ← readInt32
  readDecryptedBody callID flags

def readSimpleBlock (peerVersion : Int32) : PacketM (Option ReceivedHeader) := do
  let _ ← readInt64
  skipTlBytes
  let packetInnerLen ← readTlLength
  let type ← readByte
  let ackId ← readInt32
  let pseq ← readInt32
  let acks ← readInt32
  let pflags ← liftRead (readPflags peerVersion)
  return some ⟨type, ackId, pseq, acks, pflags, packetInnerLen⟩

def readHeader (callID : Bytes) (peerVersion : Int32) : PacketM (Option ReceivedHeader) := do
  let tlid ← readInt32
  if tlid = TLID_DECRYPTED_AUDIO_BLOCK then readDecryptedBlock callID
  else if tlid = TLID_SIMPLE_AUDIO_BLOCK then readSimpleBlock peerVersion
  else return none

/-! ## The extras -/

def STREAM_FLAG_ENABLED : UInt32 := 1
def STREAM_FLAG_EXTRA_EC : UInt32 := 4
def INIT_FLAG_DATA_SAVING_ENABLED : UInt32 := 1

def updateStream (id : UInt8) (f : IncomingStream → IncomingStream) : List IncomingStream → List IncomingStream
  | [] => []
  | s :: streams => if s.id = id then f s :: streams else s :: updateStream id f streams

/-- A new address of the endpoint in the local network. -/
def ControllerState.withLanEndpoint (c : ControllerState) : ControllerState :=
  if c.currentEndpoint = .udpP2pLan then { c with currentEndpoint := c.preferredRelay } else c

def IncomingStream.withFlags (flags : UInt32) (s : IncomingStream) : IncomingStream :=
  { s with
    enabled := decide (flags &&& STREAM_FLAG_ENABLED ≠ 0)
    extraECEnabled := decide (flags &&& STREAM_FLAG_EXTRA_EC ≠ 0) }

def extraStreamFlags (data : Bytes) : PacketM Unit := do
  let id ← fromBuffer data 1 BufferInputStream.readByte
  let flags ← fromBuffer data 2 BufferInputStream.readInt32
  modifyController fun c =>
    { c with incomingStreams := updateStream id (IncomingStream.withFlags flags) c.incomingStreams }

def extraLanEndpoint (data : Bytes) : PacketM Unit := do
  let c ← controller
  if c.allowP2p then do
    let _ ← fromBuffer data 1 BufferInputStream.readInt32
    let _ ← fromBuffer data 5 BufferInputStream.readInt32
    modifyController ControllerState.withLanEndpoint
  else return

def isRelayType (type : EndpointType) : Bool := type == .udpRelay || type == .tcpRelay

def extraNetworkChanged (data : Bytes) : PacketM Unit := do
  let c ← controller
  if isRelayType c.currentEndpoint then return
  else do
    modifyController fun c => { c with currentEndpoint := c.preferredRelay }
    let flags ← fromBuffer data 1 BufferInputStream.readInt32
    modifyController fun c => { c with dataSavingRequestedByPeer := decide (flags &&& INIT_FLAG_DATA_SAVING_ENABLED ≠ 0) }

def extraGroupCallKey (data : Bytes) : PacketM Unit := do
  let c ← controller
  if c.didReceiveGroupCallKey || c.didSendGroupCallKey then return
  else do
    let _ ← fromBuffer data 1 (BufferInputStream.readBytes 256)
    modifyController fun c => { c with didReceiveGroupCallKey := true }

def extraIPv6Endpoint (data : Bytes) : PacketM Unit := do
  let c ← controller
  if c.allowP2p then do
    let _ ← fromBuffer data 1 (BufferInputStream.readBytes 16)
    let _ ← fromBuffer data 17 (BufferInputStream.readBytes 2)
    modifyController fun c => if c.hasIPv6 then { c with currentEndpoint := .udpP2pInet } else c
  else return

/-- The hash by which an extra that comes again is known. -/
def extraHash (crypto : SecretCrypto) (data : Bytes) : UInt64 := ⟨ofLeBits 64 (slice (crypto.mtSha1 data).toList 0 8)⟩

/-- `ProcessExtraData`. -/
def processExtraData (crypto : SecretCrypto) (data : Bytes) : PacketM Unit := do
  let type ← fromBuffer data 0 BufferInputStream.readByte
  let c ← controller
  if c.lastReceivedExtrasByType type = extraHash crypto data then return
  else do
    modifyController fun c =>
      { c with lastReceivedExtrasByType := Function.update c.lastReceivedExtrasByType type (extraHash crypto data) }
    if type = 1 then extraStreamFlags data
    else if type = 3 then extraLanEndpoint data
    else if type = 4 then extraNetworkChanged data
    else if type = 5 then extraGroupCallKey data
    else if type = 7 then extraIPv6Endpoint data
    else return

def processExtra (crypto : SecretCrypto) : PacketM Unit := do
  let extra ← liftRead readExtra
  processExtraData crypto extra

def processExtras (crypto : SecretCrypto) (pflags : UInt8) : PacketM Unit :=
  if pflags &&& XPFLAG_HAS_EXTRA ≠ 0 then do
    let extraCount ← readByte
    let _ ← repeatRead (processExtra crypto) extraCount.toNat
    return
  else return

/-! ## The types of packets -/

def PROTOCOL_VERSION : UInt32 := 6
def MIN_PROTOCOL_VERSION : Int32 := 3

/-- The two version numbers. The call ends when they do not fit. -/
def readVersions : PacketM Bool := do
  let peerVersion ← readInt32
  modifyController fun c => { c with peerVersion := peerVersion.toInt32 }
  let minVer ← readInt32
  if PROTOCOL_VERSION < minVer ∨ peerVersion.toInt32 < MIN_PROTOCOL_VERSION then do
    failCall
    return false
  else return true

def readCodecs : PacketM Unit := do
  let count ← readByte
  let c ← controller
  if c.peerVersion < 5 then do
    let _ ← repeatRead readByte count.toNat
    return
  else do
    let _ ← repeatRead readInt32 count.toNat
    return

/-- `PKT_INIT`. -/
def processInit : PacketM Unit := do
  modifyController fun c => { c with receivedInit := true }
  let fits ← readVersions
  if fits then do
    let flags ← readInt32
    modifyController fun c =>
      if flags &&& INIT_FLAG_DATA_SAVING_ENABLED ≠ 0 then { c with dataSavingRequestedByPeer := true } else c
    readCodecs
    readCodecs
  else return

def readStream : PacketM IncomingStream := do
  let id ← readByte
  let type ← readByte
  let c ← controller
  if c.peerVersion < 5 then do
    let _ ← readByte
    let frameDuration ← readInt16
    let enabled ← readByte
    return ⟨id, type, frameDuration, enabled == 1, false, type == 1⟩
  else do
    let _ ← readInt32
    let frameDuration ← readInt16
    let enabled ← readByte
    return ⟨id, type, frameDuration, enabled == 1, false, type == 1⟩

/-- Streams of other types than audio and video are not kept. -/
def processStream : PacketM Unit := do
  let stm ← readStream
  if stm.type = 1 ∨ stm.type = 2 then
    modifyController fun c => { c with incomingStreams := c.incomingStreams ++ [stm] }
  else return

def readInitAckVersions (packetInnerLen : Nat) : PacketM Bool :=
  if 10 < packetInnerLen then readVersions
  else do
    modifyController fun c => { c with peerVersion := 1 }
    return true

/-- `PKT_INIT_ACK`. -/
def processInitAck (packetInnerLen : Nat) : PacketM Unit := do
  let c ← controller
  if c.receivedInitAck then return
  else do
    modifyController fun c => { c with receivedInitAck := true }
    let fits ← readInitAckVersions packetInnerLen
    if fits then do
      let streamCount ← readByte
      let before := (← controller).incomingStreams.length
      let _ ← repeatRead processStream streamCount.toNat
      modifyController fun c =>
        if (c.incomingStreams.drop before).any (fun s => s.type = 1) && 5 ≤ c.peerVersion then
          { c with cipher := { c.cipher with useMTProto2 := true } }
        else c
    else return

def STREAM_DATA_FLAG_LEN16 : UInt8 := 0x40

/-- The length of a piece, in two bytes or in one. -/
def readDataLen (streamID : UInt8) : PacketM Nat :=
  if (streamID &&& 0xC0) &&& STREAM_DATA_FLAG_LEN16 ≠ 0 then do
    let len ← readInt16
    return len.toNat
  else do
    let len ← readByte
    return len.toNat

/-- `incomingStreams[0]->jitterBuffer`. -/
def ControllerState.canPlay (c : ControllerState) : Bool := c.incomingStreams.head?.any IncomingStream.hasJitterBuffer

def handleInput (input : JitterInput) : PacketM Unit := modify fun s => { s with handled := s.handled ++ [input] }

/-- One round of the loop over the pieces: whether there is another. The test is on the length of the datagram. -/
def streamDataPiece (isLast : Bool) : PacketM Bool := do
  let streamID ← readByte
  let sdlen ← readDataLen streamID
  let pts ← readInt32
  let s ← get
  if s.memory.length < s.offset + sdlen then return false
  else do
    if s.controller.canPlay then handleInput ⟨s.offset, slice s.memory s.offset sdlen, pts, false⟩ else pure ()
    if isLast then return false
    else do
      seek (s.offset + sdlen)
      return true

def streamDataPieces : Nat → PacketM Unit
  | 0 => return
  | n + 1 => do
    let more ← streamDataPiece (n == 0)
    if more then streamDataPieces n else return

/-- `PKT_STREAM_DATA`, `PKT_STREAM_DATA_X2` and `PKT_STREAM_DATA_X3`. -/
def processStreamData (count : Nat) : PacketM Unit := do
  modifyController fun c =>
    if c.receivedInitAck then { c with cipher := { c.cipher with state := .established } } else c
  streamDataPieces count

/-- `PKT_PONG`. -/
def processPong (packetInnerLen : Nat) : PacketM Unit :=
  if 4 ≤ packetInnerLen then do
    let _ ← readInt32
    return
  else return

/-- `PKT_STREAM_STATE`. -/
def processStreamState : PacketM Unit := do
  let id ← readByte
  let enabled ← readByte
  modifyController fun c =>
    { c with incomingStreams := updateStream id (fun s => { s with enabled := enabled == 1 }) c.incomingStreams }

/-- `PKT_LAN_ENDPOINT`. -/
def processLanEndpoint : PacketM Unit := do
  let _ ← readInt32
  let _ ← readInt32
  modifyController ControllerState.withLanEndpoint

/-- `PKT_NETWORK_CHANGED`. -/
def processNetworkChanged : PacketM Unit := do
  let c ← controller
  if isRelayType c.currentEndpoint then return
  else do
    modifyController fun c => { c with currentEndpoint := c.preferredRelay }
    if 2 ≤ c.peerVersion then do
      let flags ← readInt32
      modifyController fun c => { c with dataSavingRequestedByPeer := decide (flags &&& INIT_FLAG_DATA_SAVING_ENABLED ≠ 0) }
    else return

/-- The last frames of a `PKT_STREAM_EC` packet: the very last one has the timestamp of the packet. -/
def streamECFrames (stm : IncomingStream) (lastTimestamp : UInt32) : Nat → PacketM Unit
  | 0 => return
  | n + 1 => do
    let dlen ← readByte
    let s ← get
    let data ← readBytes dlen.toNat
    if stm.hasJitterBuffer then
      -- `n` is `count-i-1`.
      handleInput ⟨s.offset, data, lastTimestamp - UInt32.ofNat n * stm.frameDuration.toUInt32, true⟩
    else pure ()
    streamECFrames stm lastTimestamp n

/-- `PKT_STREAM_EC`. -/
def processStreamEC : PacketM Unit := do
  let streamID ← readByte
  let lastTimestamp ← readInt32
  let count ← readByte
  let c ← controller
  match c.incomingStreams.find? fun s => s.id = streamID with
  | some stm => streamECFrames stm lastTimestamp count.toNat
  | none => return

def processType (header : ReceivedHeader) : PacketM Unit :=
  if header.type = 1 then processInit
  else if header.type = 2 then processInitAck header.packetInnerLen
  else if header.type = 4 then processStreamData 1
  else if header.type = 8 then processStreamData 2
  else if header.type = 9 then processStreamData 3
  else if header.type = 7 then processPong header.packetInnerLen
  else if header.type = 3 then processStreamState
  else if header.type = 10 then processLanEndpoint
  else if header.type = 11 then processNetworkChanged
  else if header.type = 17 then processStreamEC
  else return

/-! ## The whole function -/

def processExtrasOf (crypto : SecretCrypto) (src : Endpoint) (now : Int) (header : ReceivedHeader) :
    PacketM (Option ReceivedHeader) := do
  let c ← controller
  match c.window.receive header.pseq now with
  | none => return none
  | some window => do
    modifyController fun c => { c with window := window }
    modifyController fun c =>
      if src.isRelay && c.switchToRelay then { c with currentEndpoint := src.type } else c
    processExtras crypto header.pflags
    return some header

/-- All that stands before the part by types, `none` when the packet is dropped. -/
def readUpToType (crypto : SecretCrypto) (src : Endpoint) (now : Int) : PacketM (Option ReceivedHeader) := do
  let c ← controller
  let header ← readHeader (callID crypto c.cipher.encryptionKey) c.peerVersion
  match header with
  | none => return none
  | some header => processExtrasOf crypto src now header

def processPacket (crypto : SecretCrypto) (src : Endpoint) (now : Int) : PacketM Unit := do
  let header ← readUpToType crypto src now
  match header with
  | none => return
  | some header => processType header

def TLID_UDP_REFLECTOR_PEER_INFO : UInt32 := 0x27D9371C
def TLID_UDP_REFLECTOR_SELF_INFO : UInt32 := 0xc01572c7

def processRelayResponse (src : Endpoint) : PacketM Unit := do
  seek (16 + 12)
  let tlid ← readInt32
  let c ← controller
  let left ← remaining
  if tlid = TLID_UDP_REFLECTOR_SELF_INFO then
    if src.type = .udpRelay ∧ 32 ≤ left then do
      let _ ← readInt32
      let _ ← readInt64
      let _ ← readBytes 16
      let _ ← readInt32
      return
    else return
  else if tlid = TLID_UDP_REFLECTOR_PEER_INFO then
    if c.waitingForRelayPeerInfo ∧ 16 ≤ left then do
      let _ ← readInt32
      let _ ← readInt32
      let _ ← readInt32
      let _ ← readInt32
      modifyController fun c => { c with waitingForRelayPeerInfo := false }
    else return
  else return

/-- The length of the payload of the older mode, which is not cut off there. -/
def innerLenV1 (crypto : SecretCrypto) (c : CallCipher) (datagram : Bytes) : Nat :=
  let decrypted := c.decrypted crypto false (CallCipher.receivedMsgKey datagram) (datagram.drop (16 + 8 + 16))
  min (CallCipher.innerLen decrypted) (decrypted.length - 4)

/-- The decryption of a datagram gets bytes that are no whole blocks. -/
def IsUnaligned (crypto : SecretCrypto) (c : CallCipher) (datagram : Bytes) : Prop :=
  slice datagram 16 8 = keyFingerprint crypto c.encryptionKey ∧
    (c.useMTProto2 = true → (datagram.drop (16 + 8 + 16)).length ≤ 1500) ∧
    (datagram.drop (16 + 8 + 16)).length % 16 ≠ 0

instance (crypto : SecretCrypto) (c : CallCipher) (datagram : Bytes) : Decidable (IsUnaligned crypto c datagram) :=
  inferInstanceAs (Decidable (_ ∧ _ ∧ _))

def openDatagram (crypto : SecretCrypto) (c : CallCipher) (datagram : Bytes) : PacketOutcome :=
  if c.useMTProto2 then openPacket2 crypto c datagram else openPacket crypto c datagram

/-- The state in which a decrypted packet is read. In MTProto 2 the payload is copied to the beginning of the datagram. -/
def openedState (crypto : SecretCrypto) (c : ControllerState) (datagram stream : Bytes) (v2 : Bool) : PacketState where
  stream := stream
  memory := if v2 then stream ++ datagram.drop stream.length else stream
  offset := 0
  payloadLen := if v2 then stream.length else innerLenV1 crypto c.cipher datagram
  handled := []
  controller := { c with cipher := { c.cipher with useMTProto2 := v2 } }

def rawState (c : ControllerState) (datagram : Bytes) : PacketState := ⟨datagram, datagram, 16, 0, [], c⟩

/-- `ProcessIncomingPacket`. -/
def processDatagram (crypto : SecretCrypto) (src : Endpoint) (now : Int) (c : ControllerState) (datagram : Bytes) :
    Except PacketFault Unit × PacketState :=
  if slice datagram 0 16 ≠ c.cipher.tag crypto src then (.ok (), rawState c datagram)
  else if 16 ≤ datagram.length - 16 ∧ src.isRelay ∧ slice datagram 16 12 = List.replicate 12 0xFF then
    runIn (processRelayResponse src) (rawState c datagram)
  else if datagram.length - 16 < 40 then (.ok (), rawState c datagram)
  else if IsUnaligned crypto c.cipher datagram then (.error .unalignedLength, rawState c datagram)
  else
    match openDatagram crypto c.cipher datagram with
    | .opened stream v2 => runIn (processPacket crypto src now) (openedState crypto c datagram stream v2)
    | _ => (.ok (), rawState c datagram)

end TelegramClient.VoIP.Inbound
