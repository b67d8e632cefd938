import TelegramClient.Lib.TokenPrograms
import TelegramClient.VoIP.Endpoints
import TelegramClient.VoIP.ErrorCorrection

/-!
# What is sent in a call

Packets are made in buffers of `outgoingPacketsBufferPool` and put into `sendQueue`, by several threads.

* `SendView` : what these threads read, at one moment;
* `Produces.balanced` : each buffer that a producer takes is put into the queue.

What a producer changes apart from the pool and the queue is left out: the views are arbitrary.
-/

namespace TelegramClient.VoIP.Outgoing

open Inbound Endpoints BufferOutputStream TokenProgram

/-! ## Packets and views -/

/-- `contents` are the first `len` bytes of the buffer that `data` points to. -/
structure PendingOutgoingPacket where
  seq : UInt32
  type : UInt8
  contents : Bytes
  data : Option Nat
  endpoint : BitVec 64
deriving DecidableEq

structure SendView where
  state : CallState
  stopping : Bool
  waitingForAcks : Bool
  dontSendPackets : Nat
  shittyInternetMode : Bool
  audioTimestampOut : UInt32
  /-- What `GenerateOutSeq` returns. -/
  seq : UInt32
  tickCount : Nat
  currentTime : ℚ
  lastPingTime : Nat → ℚ
  anyEnabledStreams : Bool
  enableCallUpgrade : Bool
  dataSavingMode : Bool
  connectionMaxLayer : Int32
  table : EndpointTable

structure OutgoingStream where
  id : UInt8
  type : UInt8
  codec : UInt32
  frameDuration : UInt16
  enabled : Bool

structure QueuedPacket where
  type : UInt8
  data : Bytes
  firstSentTime : ℚ
  lastSentTime : ℚ
  retryInterval : ℚ
  timeout : ℚ

abbrev SendProgram := TokenProgram SendView Nat PendingOutgoingPacket

def PKT_INIT : UInt8 := 1
def PKT_INIT_ACK : UInt8 := 2
def PKT_PING : UInt8 := 6
def PKT_PONG : UInt8 := 7
def PKT_NOP : UInt8 := 14

def INIT_FLAG_GROUP_CALLS_SUPPORTED : UInt32 := 2

def CODEC_OPUS_OLD : UInt8 := 1

/-- `FOURCC('O','P','U','S')`. -/
def CODEC_OPUS : UInt32 := 0x4F505553

/-! ## Payloads -/

/-- The codecs in `PKT_INIT`. -/
def writeCodecs (connectionMaxLayer : Int32) : WriteM Unit :=
  if connectionMaxLayer < 74 then do
    writeBytes outgoingBufferSize [2, CODEC_OPUS_OLD, 0, 0, 0]
    writeInt32 outgoingBufferSize CODEC_OPUS
    writeBytes outgoingBufferSize [0, 0]
  else do
    writeByte outgoingBufferSize 1
    writeInt32 outgoingBufferSize CODEC_OPUS
    writeBytes outgoingBufferSize [0, 0]

/-- The payload of `PKT_INIT`. -/
def writeInit (v : SendView) : WriteM Unit := do
  writeInt32 outgoingBufferSize PROTOCOL_VERSION
  writeInt32 outgoingBufferSize MIN_PROTOCOL_VERSION.toUInt32
  writeInt32 outgoingBufferSize
    ((if v.enableCallUpgrade then INIT_FLAG_GROUP_CALLS_SUPPORTED else 0) |||
      if v.dataSavingMode then INIT_FLAG_DATA_SAVING_ENABLED else 0)
  writeCodecs v.connectionMaxLayer

/-- A stream in `PKT_INIT_ACK`. -/
def writeStream (peerVersion : Int32) (s : OutgoingStream) : WriteM Unit := do
  writeByte outgoingBufferSize s.id
  writeByte outgoingBufferSize s.type
  if peerVersion < 5 then writeByte outgoingBufferSize (if s.codec = CODEC_OPUS then CODEC_OPUS_OLD else 0)
  else writeInt32 outgoingBufferSize s.codec
  writeInt16 outgoingBufferSize s.frameDuration
  writeByte outgoingBufferSize (if s.enabled then 1 else 0)

/-- The payload of `PKT_INIT_ACK`. -/
def writeInitAck (outgoingStreams : List OutgoingStream) (peerVersion : Int32) : WriteM Unit := do
  writeInt32 outgoingBufferSize PROTOCOL_VERSION
  writeInt32 outgoingBufferSize MIN_PROTOCOL_VERSION.toUInt32
  writeByte outgoingBufferSize (UInt8.ofNat outgoingStreams.length)
  outgoingStreams.forM (writeStream peerVersion)

/-! ## Producers -/

/-- A packet, in a buffer of the pool. If there is none, the packet is not sent. -/
def sendBuffer (seq : SendView → UInt32) (type : UInt8) (endpoint : BitVec 64) (payload : SendView → WriteM Unit)
    (next : SendProgram) : SendProgram :=
  .get fun buf =>
    match buf with
    | none => next
    | some buf => .read fun v =>
      match (payload v).run [] with
      | .error _ => .raise
      | .ok (_, contents) => .read fun v => .put ⟨seq v, type, contents, some buf, endpoint⟩ next

/-- The part of `HandleAudioInput` for the secondary encoding. `ecAudioPackets` are from the calls before. -/
def sendEc (streamID : UInt8) (ecAudioPackets : List EcFrame) (secondaryData : Bytes) : SendProgram :=
  .read fun v =>
    if secondaryData ≠ [] ∧ v.shittyInternetMode then
      sendBuffer SendView.seq PKT_STREAM_EC 0
        (fun v => writeStreamEC streamID v.audioTimestampOut
          (AudioSender.lastFour (ecAudioPackets ++ [⟨secondaryData, v.audioTimestampOut⟩]))) .done
    else .done

/-- `HandleAudioInput`. -/
def handleAudioInput (streamID : UInt8) (ecAudioPackets : List EcFrame) (data secondaryData : Bytes) : SendProgram :=
  .read fun v =>
    if v.stopping then .done
    else .read fun v =>
      if v.waitingForAcks ∨ 0 < v.dontSendPackets then .done
      else
        sendBuffer SendView.seq PKT_STREAM_DATA 0 (fun v => writeStreamData v.audioTimestampOut data)
          (sendEc streamID ecAudioPackets secondaryData)

/-- One turn of the loop of `SendInit`. -/
def sendInitTo (initSeq : UInt32) (e : Endpoints.Endpoint) (next : SendProgram) : SendProgram :=
  .read fun v =>
    if e.type = .tcpRelay ∧ v.table.useTCP = false then next
    else sendBuffer (fun _ => initSeq) PKT_INIT e.id writeInit next

/-- `SendInit`. -/
def sendInit : SendProgram :=
  .read fun v => (v.table.endpoints.map v.table.heap).foldr (sendInitTo v.seq) .done

/-- The part of the tick that keeps the connection alive. -/
def sendNop : SendProgram :=
  .read fun v =>
    if v.waitingForAcks ∧ v.tickCount % 10 = 0 ∨ v.anyEnabledStreams = false ∧ v.tickCount % 2 = 0 then
      sendBuffer SendView.seq PKT_NOP 0 (fun _ => pure ()) .done
    else .done

/-- One turn of the loop over `queuedPackets`. The bytes are copied without a check. -/
def resend (qp : QueuedPacket) (next : SendProgram) : SendProgram :=
  .read fun v =>
    if 0 < qp.timeout ∧ 0 < qp.firstSentTime ∧ qp.timeout ≤ v.currentTime - qp.firstSentTime then next
    else .read fun v =>
      if qp.retryInterval ≤ v.currentTime - qp.lastSentTime then
        sendBuffer SendView.seq qp.type 0 (fun _ => writeBytes outgoingBufferSize qp.data) next
      else next

/-- The part of the tick that sends packets again. -/
def resendQueued (queuedPackets : List QueuedPacket) : SendProgram := queuedPackets.foldr resend .done

/-- One turn of the loop of `SendRelayPings`. -/
def pingEndpoint (table : EndpointTable) (r : Nat) (next : SendProgram) : SendProgram :=
  .read fun v =>
    if (table.heap r).type = .tcpRelay ∧ v.table.useTCP = false then next
    else .read fun v =>
      if 10 ≤ v.currentTime - v.lastPingTime r then
        sendBuffer SendView.seq PKT_PING (table.heap r).id (fun _ => pure ()) next
      else next

/-- `SendRelayPings`. -/
def sendRelayPings : SendProgram :=
  .read fun v =>
    if (v.state = .established ∨ v.state = .reconnecting) ∧ 1 < v.table.endpoints.length then
      v.table.endpoints.foldr (pingEndpoint v.table) .done
    else .done

/-- `PKT_INIT`, when the versions of the peer have been read. -/
def handleInit (outgoingStreams : List OutgoingStream) (peerVersion : Int32) (minVer : UInt32) : SendProgram :=
  if PROTOCOL_VERSION < minVer ∨ peerVersion < MIN_PROTOCOL_VERSION then .done
  else sendBuffer SendView.seq PKT_INIT_ACK 0 (fun _ => writeInitAck outgoingStreams peerVersion) .done

/-- `PKT_PING`. -/
def handlePing (srcEndpoint : Endpoints.Endpoint) (pseq : UInt32) : SendProgram :=
  .read fun v =>
    if srcEndpoint.isRelay = false ∧ v.table.allowP2p = false then .done
    else sendBuffer SendView.seq PKT_PONG srcEndpoint.id (fun _ => writeInt32 outgoingBufferSize pseq) .done

/-! ## Payloads that fit -/

def Fits (payload : WriteM Unit) : Prop := ∃ contents, payload.run [] = .ok ((), contents)

inductive Produces : SendProgram → Prop where
  | audioInput (streamID : UInt8) (ecAudioPackets : List EcFrame) (data secondaryData : Bytes)
      (hdata : ∀ timestamp, Fits (writeStreamData timestamp data))
      (hec : secondaryData ≠ [] → ∀ timestamp, Fits (writeStreamEC streamID timestamp
        (AudioSender.lastFour (ecAudioPackets ++ [⟨secondaryData, timestamp⟩])))) :
      Produces (handleAudioInput streamID ecAudioPackets data secondaryData)
  | init : Produces sendInit
  | nop : Produces sendNop
  | resend (queuedPackets : List QueuedPacket) (hfits : ∀ qp ∈ queuedPackets, qp.data.length ≤ outgoingBufferSize) :
      Produces (resendQueued queuedPackets)
  | relayPings : Produces sendRelayPings
  | handleInit (outgoingStreams : List OutgoingStream) (peerVersion : Int32) (minVer : UInt32)
      (hfits : ¬(PROTOCOL_VERSION < minVer ∨ peerVersion < MIN_PROTOCOL_VERSION) →
        Fits (writeInitAck outgoingStreams peerVersion)) : Produces (handleInit outgoingStreams peerVersion minVer)
  | handlePing (srcEndpoint : Endpoints.Endpoint) (pseq : UInt32) : Produces (handlePing srcEndpoint pseq)

theorem Fits.of_writes {payload : WriteM Unit} {x : Bytes} (h : Writes outgoingBufferSize payload x)
    (hlen : x.length ≤ outgoingBufferSize) : Fits payload := ⟨x, h [] (by rwa [List.length_nil, Nat.zero_add])⟩

theorem writes_writeCodecs (connectionMaxLayer : Int32) :
    ∃ x, Writes outgoingBufferSize (writeCodecs connectionMaxLayer) x ∧ x.length ≤ 11 := by
  unfold writeCodecs
  split
  · refine ⟨_, (writes_writeBytes _ _).bind ((writes_writeInt32 _ _).bind (writes_writeBytes _ _)), ?_⟩
    exact le_rfl
  · refine ⟨_, (writes_writeByte _ _).bind ((writes_writeInt32 _ _).bind (writes_writeBytes _ _)), ?_⟩
    decide

theorem fits_writeInit (v : SendView) : Fits (writeInit v) := by
  obtain ⟨x, hx, hlen⟩ := writes_writeCodecs v.connectionMaxLayer
  refine Fits.of_writes ((writes_writeInt32 _ _).bind ((writes_writeInt32 _ _).bind ((writes_writeInt32 _ _).bind hx))) ?_
  rw [List.length_append, List.length_append, List.length_append, length_leBits, length_leBits, length_leBits,
    outgoingBufferSize]
  omega

/-! ## No producer loses a buffer -/

abbrev Balanced : List Nat → SendProgram → Prop := TokenProgram.Balanced PendingOutgoingPacket.data

theorem balanced_sendBuffer {seq : SendView → UInt32} {type : UInt8} {endpoint : BitVec 64}
    {payload : SendView → WriteM Unit} {next : SendProgram} (hfits : ∀ v, Fits (payload v)) (hnext : Balanced [] next) :
    Balanced [] (sendBuffer seq type endpoint payload next) := by
  refine ⟨rfl, hnext, fun buf v => ?_⟩
  obtain ⟨contents, hrun⟩ := hfits v
  dsimp only
  rw [hrun]
  exact fun v => ⟨⟨buf, rfl, rfl⟩, hnext⟩

theorem fits_empty (_ : SendView) : Fits (pure ()) := ⟨[], rfl⟩

theorem Produces.balanced {program : SendProgram} (h : Produces program) : Balanced [] program := by
  cases h with
  | audioInput streamID ecAudioPackets data secondaryData hdata hec =>
    have hsecond : Balanced [] (sendEc streamID ecAudioPackets secondaryData) := by
      intro v
      dsimp only
      split
      case isTrue hmode => exact balanced_sendBuffer (fun v => hec hmode.1 v.audioTimestampOut) rfl
      case isFalse => rfl
    refine balanced_readIf rfl (balanced_readIf rfl ?_)
    exact balanced_sendBuffer (fun v => hdata v.audioTimestampOut) hsecond
  | init =>
    refine fun v => balanced_foldr (fun e _ next hnext => ?_) rfl
    exact balanced_readIf hnext (balanced_sendBuffer fits_writeInit hnext)
  | nop => exact balanced_readIf (balanced_sendBuffer fits_empty rfl) rfl
  | resend queuedPackets hfits =>
    refine balanced_foldr (fun qp hqp next hnext => balanced_readIf hnext (balanced_readIf ?_ hnext)) rfl
    exact balanced_sendBuffer (fun _ => Fits.of_writes (writes_writeBytes _ _) (hfits qp hqp)) hnext
  | relayPings =>
    intro v
    dsimp only
    split
    · refine balanced_foldr (fun r _ next hnext => balanced_readIf hnext (balanced_readIf ?_ hnext)) rfl
      exact balanced_sendBuffer fits_empty hnext
    · rfl
  | handleInit outgoingStreams peerVersion minVer hfits =>
    unfold Outgoing.handleInit
    split
    case isTrue => rfl
    case isFalse hversions => exact balanced_sendBuffer (fun _ => hfits hversions) rfl
  | handlePing srcEndpoint pseq =>
    refine balanced_readIf rfl (balanced_sendBuffer (fun _ => Fits.of_writes (writes_writeInt32 _ _) ?_) rfl)
    rw [length_leBits]
    decide

end TelegramClient.VoIP.Outgoing
