import TelegramClient.VoIP.PacketReads

/-!
# Error-correction frames

While packets are lost the sender repeats its last four frames, in a second encoding, in packets that carry one timestamp.

* `AudioSender`, `handleAudioInput`, `tick`, `stepAudio` : the sending side;
* **`streamEC_timestamps`** : runs in which no frame is left out of a queue that is not empty.
-/

namespace TelegramClient.VoIP.Inbound
open List
open UInt8 (ofNat)

/-! ## The sender -/

/-- A buffer of `ecAudioPackets`, with `audioTimestampOut` when it was captured, which the code does not keep. -/
structure EcFrame where
  data : Bytes
  capturedAt : UInt32
deriving DecidableEq

def EcFrame.packet (frame : EcFrame) : JitterPacket := ⟨frame.data, frame.capturedAt, true⟩

def PKT_STREAM_DATA : UInt8 := 4
def PKT_STREAM_EC : UInt8 := 17

/-- `PendingOutgoingPacket`, with the frames that it carries. -/
structure AudioPacket where
  type : UInt8
  data : Bytes
  frames : List EcFrame
deriving DecidableEq

/-- `streamID` and `frameDuration` are those of `outgoingStreams[0]`. -/
structure AudioSender where
  streamID : UInt8
  frameDuration : UInt16
  stopping : Bool
  waitingForAcks : Bool
  dontSendPackets : Nat
  shittyInternetMode : Bool
  ecAudioPackets : List EcFrame
  audioTimestampOut : UInt32
  sendQueue : List AudioPacket
deriving DecidableEq

def AudioSender.init (streamID : UInt8) (frameDuration : UInt16) : AudioSender where
  streamID := streamID
  frameDuration := frameDuration
  stopping := false
  waitingForAcks := false
  dontSendPackets := 0
  shittyInternetMode := false
  ecAudioPackets := []
  audioTimestampOut := 0
  sendQueue := []

/-- The buffers of `outgoingPacketsBufferPool`. -/
def outgoingBufferSize : Nat := 1024

section
open BufferOutputStream

def writeInt16 (size : Nat) (i : UInt16) : WriteM Unit := write size (leBits i.toBitVec)

/-- The payload of `PKT_STREAM_DATA`. -/
def writeStreamData (timestamp : UInt32) (data : Bytes) : WriteM Unit := do
  writeByte outgoingBufferSize (1 ||| if 255 < data.length then STREAM_DATA_FLAG_LEN16 else 0)
  if 255 < data.length then writeInt16 outgoingBufferSize (UInt16.ofNat data.length)
  else writeByte outgoingBufferSize (UInt8.ofNat data.length)
  writeInt32 outgoingBufferSize timestamp
  writeBytes outgoingBufferSize data

def writeEcFrame (frame : EcFrame) : WriteM Unit := do
  writeByte outgoingBufferSize (UInt8.ofNat frame.data.length)
  writeBytes outgoingBufferSize frame.data

/-- The payload of `PKT_STREAM_EC`. -/
def writeStreamEC (streamID : UInt8) (timestamp : UInt32) (frames : List EcFrame) : WriteM Unit := do
  writeByte outgoingBufferSize streamID
  writeInt32 outgoingBufferSize timestamp
  writeByte outgoingBufferSize (UInt8.ofNat frames.length)
  frames.forM writeEcFrame

end

namespace AudioSender

/-- `sendQueue->Put`. -/
def put (s : AudioSender) (type : UInt8) (frames : List EcFrame) (payload : WriteM Unit) :
    Except WriteFault AudioSender :=
  (payload.run []).map fun r => { s with sendQueue := s.sendQueue ++ [⟨type, r.2, frames⟩] }

/-- `while(ecAudioPackets.size()>4) ecAudioPackets.erase(ecAudioPackets.begin())`. -/
def lastFour (frames : List EcFrame) : List EcFrame := frames.drop (frames.length - 4)

def enqueueEc (s : AudioSender) (secondaryData : Bytes) : AudioSender :=
  { s with ecAudioPackets := lastFour (s.ecAudioPackets ++ [⟨secondaryData, s.audioTimestampOut⟩]) }

/-- The part of `HandleAudioInput` for the first encoding. `buf` says whether the pool has a buffer. -/
def sendStreamData (s : AudioSender) (data : Bytes) (buf : Bool) : Except WriteFault AudioSender :=
  if buf then s.put PKT_STREAM_DATA [] (writeStreamData s.audioTimestampOut data) else .ok s

/-- The part for the secondary encoding, with a buffer of its own. -/
def sendEc (s : AudioSender) (secondaryData : Bytes) (ecBuf : Bool) : Except WriteFault AudioSender :=
  if secondaryData ≠ [] ∧ s.shittyInternetMode then
    let s := s.enqueueEc secondaryData
    if ecBuf then s.put PKT_STREAM_EC s.ecAudioPackets (writeStreamEC s.streamID s.audioTimestampOut s.ecAudioPackets)
    else .ok s
  else .ok s

/-- `HandleAudioInput`. -/
def handleAudioInput (s : AudioSender) (data secondaryData : Bytes) (buf ecBuf : Bool) :
    Except WriteFault AudioSender :=
  if s.stopping then .ok s
  else if s.waitingForAcks ∨ 0 < s.dontSendPackets then .ok s
  else do
    let s ← s.sendStreamData data buf
    let s ← s.sendEc secondaryData ecBuf
    return { s with audioTimestampOut := s.audioTimestampOut + s.frameDuration.toUInt32 }

/-- The mode, every tenth round of `RunTickThread`. -/
def tickMode (s : AudioSender) (avgSendLossCount : Rat) (slowNetwork : Bool) : AudioSender :=
  let mode := s.shittyInternetMode || decide (125 / 1000 < avgSendLossCount) && !slowNetwork
  { s with shittyInternetMode := mode && !(decide (avgSendLossCount < 15 / 100) || slowNetwork) }

end AudioSender

inductive AudioEvent where
  | audioInput (data secondaryData : Bytes) (buf ecBuf : Bool)
  | tickMode (avgSendLossCount : Rat) (slowNetwork : Bool)
  /-- `RunTickThread` sets it by the round-trip times. -/
  | waitForAcks (waiting : Bool)
  /-- An acknowledgement ends the waiting. -/
  | resume
  | countDown
  | stop

def stepAudio (s : AudioSender) : AudioEvent → AudioSender
  | .audioInput data secondaryData buf ecBuf =>
    match s.handleAudioInput data secondaryData buf ecBuf with
    | .ok s => s
    | .error _ => { s with stopping := true }
  | .tickMode avgSendLossCount slowNetwork => s.tickMode avgSendLossCount slowNetwork
  | .waitForAcks waiting => { s with waitingForAcks := waiting }
  | .resume => { s with waitingForAcks := false, dontSendPackets := 10 }
  | .countDown => { s with dontSendPackets := s.dontSendPackets - 1 }
  | .stop => { s with stopping := true }

/-! ## What the receiver should get -/

/-- In any state of a receiver with the same frame duration the frames go to the jitter buffer with their own
timestamps. -/
def DeliversFrames (streamID : UInt8) (frameDuration : UInt16) (p : AudioPacket) : Prop :=
  ∀ (r : PacketState) (pre rest : Bytes) (stm : IncomingStream),
    r.stream = pre ++ (p.data ++ rest) → r.offset = pre.length →
    r.controller.incomingStreams.find? (fun s => s.id = streamID) = some stm → stm.hasJitterBuffer = true →
    stm.frameDuration = frameDuration →
    ∃ r' inputs, runIn processStreamEC r = (.ok (), r') ∧ r'.handled = r.handled ++ inputs ∧
      inputs.map JitterInput.packet = p.frames.map EcFrame.packet

/-- A frame that is queued comes one frame duration after the newest one in the queue. -/
def FollowsQueue (s : AudioSender) : AudioEvent → Prop
  | .audioInput _ secondaryData _ _ =>
    ¬s.stopping → ¬(s.waitingForAcks ∨ 0 < s.dontSendPackets) → secondaryData ≠ [] → s.shittyInternetMode →
      ∀ newest ∈ s.ecAudioPackets.getLast?, newest.capturedAt + s.frameDuration.toUInt32 = s.audioTimestampOut
  | _ => True

instance (s : AudioSender) : (event : AudioEvent) → Decidable (FollowsQueue s event)
  | .audioInput .. => inferInstanceAs (Decidable (_ → _ → _ → _ → _))
  | .tickMode .. | .waitForAcks .. | .resume | .countDown | .stop => instDecidableTrue

/-! ## The receiver -/

/-- The frames of a queue are one frame duration apart, and `last` is the timestamp of the newest. -/
def Spaced (frameDuration : UInt16) (last : UInt32) : List EcFrame → Prop
  | [] => True
  | frame :: frames =>
    frame.capturedAt = last - UInt32.ofNat frames.length * frameDuration.toUInt32 ∧ Spaced frameDuration last frames

theorem spaced_cons (frameDuration : UInt16) (last : UInt32) (frame : EcFrame) (frames : List EcFrame) :
    Spaced frameDuration last (frame :: frames) ↔
      frame.capturedAt = last - UInt32.ofNat frames.length * frameDuration.toUInt32 ∧
        Spaced frameDuration last frames := Iff.rfl

def ecFrameBytes (frame : EcFrame) : Bytes := UInt8.ofNat frame.data.length :: frame.data

def ecBytes (streamID : UInt8) (timestamp : UInt32) (frames : List EcFrame) : Bytes :=
  streamID :: (leBits timestamp.toBitVec ++ (UInt8.ofNat frames.length :: frames.flatMap ecFrameBytes))

theorem runIn_handleInput (input : JitterInput) (s : PacketState) :
    runIn (handleInput input) s = (.ok (), { s with handled := s.handled ++ [input] }) := rfl

variable {stm : IncomingStream} {r : PacketState} {pre rest : Bytes}

theorem runIn_streamECFrames_cons (hbuf : stm.hasJitterBuffer = true) (last : UInt32) (n : Nat) (frame : EcFrame)
    (hlen : frame.data.length < 256) (hstream : r.stream = pre ++ (ecFrameBytes frame ++ rest))
    (hoff : r.offset = pre.length) :
    ∃ r' start, runIn (streamECFrames stm last (n + 1)) r = runIn (streamECFrames stm last n) r' ∧
      r'.stream = (pre ++ ecFrameBytes frame) ++ rest ∧ r'.offset = (pre ++ ecFrameBytes frame).length ∧
      r'.handled = r.handled ++ [⟨start, frame.data, last - UInt32.ofNat n * stm.frameDuration.toUInt32, true⟩] := by
  have hlength : (ofNat frame.data.length).toNat = frame.data.length := by
    rw [UInt8.toNat_ofNat']
    omega
  have hbs : r.stream = pre ++ (ofNat frame.data.length :: (frame.data ++ rest)) := hstream
  have htotal : r.stream.length = pre.length + (1 + (frame.data.length + rest.length)) := by
    rw [hbs]
    simp only [length_append, length_cons]
    omega
  have hbyte : byteAt r.stream r.offset = ofNat frame.data.length := by rw [hbs, hoff, byteAt_append]
  have hdata : slice r.stream (r.offset + 1) frame.data.length = frame.data := by
    have h := slice_append_middle (pre ++ [ofNat frame.data.length]) frame.data rest
    rw [length_append, length_singleton, append_assoc, append_assoc, singleton_append] at h
    rw [hbs, hoff]
    exact h
  have hread := runIn_readBytes_of_le (show (r.at (r.offset + 1)).offset + frame.data.length ≤ _ by
    rw [offset_at, stream_at, htotal, hoff]; omega)
  rw [offset_at, stream_at, hdata, at_at] at hread
  rw [streamECFrames, runIn_bind, runIn_readByte, if_pos (by omega), hbyte]
  dsimp only
  rw [runIn_bind, runIn_get]
  dsimp only
  rw [runIn_bind, hlength, hread]
  dsimp only
  rw [if_pos hbuf, runIn_bind, runIn_handleInput]
  refine ⟨_, _, rfl, ?_, ?_, rfl⟩
  · rw [append_assoc]
    exact hstream
  · rw [length_append]
    change r.offset + 1 + frame.data.length = _
    rw [hoff, ecFrameBytes, length_cons]
    omega

variable {frames : List EcFrame}

theorem streamECFrames_spaced (hbuf : stm.hasJitterBuffer = true) (last : UInt32)
    (hlen : ∀ frame ∈ frames, frame.data.length < 256) (hspaced : Spaced stm.frameDuration last frames)
    (hstream : r.stream = pre ++ (frames.flatMap ecFrameBytes ++ rest)) (hoff : r.offset = pre.length) :
    ∃ r' inputs, runIn (streamECFrames stm last frames.length) r = (.ok (), r') ∧
      r'.handled = r.handled ++ inputs ∧ inputs.map JitterInput.packet = frames.map EcFrame.packet := by
  induction frames generalizing r pre with
  | nil => exact ⟨r, [], rfl, (append_nil _).symm, rfl⟩
  | cons frame frames ih =>
    rw [flatMap_cons, append_assoc] at hstream
    obtain ⟨r₁, start, hrun₁, hstream₁, hoffset₁, hhandled₁⟩ :=
      runIn_streamECFrames_cons hbuf last frames.length frame (hlen frame mem_cons_self) hstream hoff
    obtain ⟨r₂, inputs, hrun₂, hhandled₂, hpkts⟩ :=
      ih (fun frame hm => hlen frame (mem_cons_of_mem _ hm)) hspaced.2 hstream₁ hoffset₁
    refine ⟨r₂, _ :: inputs, ?_, by rw [hhandled₂, hhandled₁, append_assoc]; rfl, ?_⟩
    · rw [length_cons, hrun₁, hrun₂]
    · rw [map_cons, map_cons, hpkts, EcFrame.packet, hspaced.1]

variable {last : UInt32} {frameDuration : UInt16}

variable {streamID : UInt8}

theorem deliversFrames_of_spaced (hcnt : frames.length < 256) (hlen : ∀ frame ∈ frames, frame.data.length < 256)
    (hspaced : Spaced frameDuration last frames) (type : UInt8) :
    DeliversFrames streamID frameDuration ⟨type, ecBytes streamID last frames, frames⟩ := by
  intro r pre rest stm hstream hoff hfind hbuf hduration
  have hbs : r.stream = pre ++ (streamID :: (leBits last.toBitVec ++
      (ofNat frames.length :: (frames.flatMap ecFrameBytes ++ rest)))) := by
    rw [hstream, ecBytes]
    simp only [cons_append, append_assoc]
  have htotal : pre.length + 6 ≤ r.stream.length := by
    rw [hbs]
    simp only [length_append, length_cons, length_leBits]
    omega
  have hid : byteAt r.stream r.offset = streamID := by rw [hbs, hoff, byteAt_append]
  have hlast : uint32At r.stream (r.offset + 1) = last := by
    have h := uint32At_append (pre ++ [streamID]) last (ofNat frames.length :: (frames.flatMap ecFrameBytes ++ rest))
    rw [length_append, length_singleton, append_assoc, singleton_append] at h
    rw [hbs, hoff]
    exact h
  have hhead : (pre ++ streamID :: leBits last.toBitVec).length = pre.length + 5 := by
    rw [length_append, length_cons, length_leBits]
  have hcountByte : byteAt r.stream (r.offset + 5) = ofNat frames.length := by
    have h := byteAt_append (pre ++ streamID :: leBits last.toBitVec) (ofNat frames.length)
      (frames.flatMap ecFrameBytes ++ rest)
    rw [hhead, append_assoc, cons_append] at h
    rw [hbs, hoff]
    exact h
  have hlength : (ofNat frames.length).toNat = frames.length := by
    rw [UInt8.toNat_ofNat']
    omega
  have hcontroller : ∀ s, runIn controller s = (.ok s.controller, s) := fun _ => rfl
  have hrun : runIn processStreamEC r = runIn (streamECFrames stm last frames.length) (r.at (r.offset + 6)) := by
    rw [processStreamEC, runIn_bind, runIn_readByte, if_pos (by omega), hid]
    dsimp only
    rw [runIn_bind, runIn_readInt32, if_pos (by rw [offset_at, stream_at]; omega), offset_at, stream_at, hlast]
    dsimp only
    rw [runIn_bind, runIn_readByte, if_pos (by rw [at_at, offset_at, stream_at]; omega), at_at, offset_at, stream_at,
      hcountByte]
    dsimp only
    rw [runIn_bind, hcontroller, at_at]
    dsimp only
    rw [controller_at, hfind, hlength]
  rw [hrun]
  have hspaced' : Spaced stm.frameDuration last frames := by rw [hduration]; exact hspaced
  have hstream' : (r.at (r.offset + 6)).stream =
      (pre ++ (streamID :: leBits last.toBitVec ++ [ofNat frames.length])) ++
        (frames.flatMap ecFrameBytes ++ rest) := by
    rw [stream_at, hbs]
    simp only [cons_append, append_assoc, nil_append]
  have hoffset' : (r.at (r.offset + 6)).offset =
      (pre ++ (streamID :: leBits last.toBitVec ++ [ofNat frames.length])).length := by
    rw [offset_at, hoff]
    simp only [length_append, length_cons, length_nil, length_leBits]
  exact streamECFrames_spaced hbuf last hlen hspaced' hstream' hoffset'

/-! ## The queue of the sender -/

section
variable (h : Spaced frameDuration last frames)
include h

theorem Spaced.push (data : Bytes) :
    Spaced frameDuration (last + frameDuration.toUInt32) (frames ++ [⟨data, last + frameDuration.toUInt32⟩]) := by
  induction frames with
  | nil => exact ⟨by simp, trivial⟩
  | cons frame frames ih =>
    have hcnt : ∀ newest : EcFrame, UInt32.ofNat (frames ++ [newest]).length = UInt32.ofNat frames.length + 1 := by
      intro newest
      rw [length_append, length_singleton]
      exact UInt32.ofNat_add _ _
    rw [cons_append, spaced_cons, hcnt, h.1]
    exact ⟨by grind, ih h.2⟩

theorem Spaced.drop (n : Nat) : Spaced frameDuration last (frames.drop n) := by
  induction n generalizing frames with
  | zero => exact h
  | succ n ih =>
    cases frames with
    | nil => exact h
    | cons frame frames => exact ih h.2

theorem Spaced.newest {newest : EcFrame} (hnewest : newest ∈ frames.getLast?) : newest.capturedAt = last := by
  induction frames with
  | nil => cases hnewest
  | cons frame frames ih =>
    cases frames with
    | nil =>
      cases hnewest
      have heq := h.1
      simpa using heq
    | cons frame' frames => exact ih h.2 (by simpa using hnewest)

end

/-! ## Runs -/

theorem writes_writeStreamEC (streamID : UInt8) (timestamp : UInt32) (frames : List EcFrame) :
    Writes outgoingBufferSize (writeStreamEC streamID timestamp frames) (ecBytes streamID timestamp frames) := by
  have hframe : ∀ frame ∈ frames, Writes outgoingBufferSize (writeEcFrame frame) (ecFrameBytes frame) := fun frame _ =>
    (writes_writeByte _ _).bind (writes_writeBytes _ _)
  exact (writes_writeByte _ _).bind ((writes_writeInt32 _ _).bind ((writes_writeByte _ _).bind
    (Writes.forM frames hframe)))

theorem length_ecBytes_le {timestamp : UInt32} (hcnt : frames.length ≤ 4)
    (hlen : ∀ frame ∈ frames, frame.data.length ≤ 128) :
    ([] : Bytes).length + (ecBytes streamID timestamp frames).length ≤ outgoingBufferSize := by
  have hbs : ∀ frames : List EcFrame, (∀ frame ∈ frames, frame.data.length ≤ 128) →
      (frames.flatMap ecFrameBytes).length ≤ 129 * frames.length := by
    intro frames hlen
    induction frames with
    | nil => exact le_rfl
    | cons frame frames ih =>
      have hrest := ih fun frame hm => hlen frame (mem_cons_of_mem _ hm)
      have hframe := hlen frame mem_cons_self
      rw [flatMap_cons, length_append, ecFrameBytes, length_cons, length_cons]
      omega
  have hframes := hbs frames hlen
  simp only [ecBytes, length_cons, length_append, length_leBits, length_nil, outgoingBufferSize]
  omega

structure AudioInv (streamID : UInt8) (frameDuration : UInt16) (s : AudioSender) : Prop where
  streamID_eq : s.streamID = streamID
  frameDuration_eq : s.frameDuration = frameDuration
  length_le : s.ecAudioPackets.length ≤ 4
  data_le : ∀ frame ∈ s.ecAudioPackets, frame.data.length ≤ 128
  spaced : ∃ last, Spaced frameDuration last s.ecAudioPackets
  delivers : ∀ p ∈ s.sendQueue, p.type = PKT_STREAM_EC → DeliversFrames streamID frameDuration p

/-- The secondary encodings have at most 128 bytes. -/
def AudioEvent.IsShort : AudioEvent → Prop
  | .audioInput _ secondaryData _ _ => secondaryData.length ≤ 128
  | _ => True

instance : DecidablePred AudioEvent.IsShort
  | .audioInput _ secondaryData _ _ => inferInstanceAs (Decidable (secondaryData.length ≤ 128))
  | .tickMode .. | .waitForAcks .. | .resume | .countDown | .stop => instDecidableTrue

section
variable {streamID : UInt8} {frameDuration : UInt16} {s : AudioSender}

theorem lastFour_append (frames : List EcFrame) (frame : EcFrame) :
    AudioSender.lastFour (frames ++ [frame]) = frames.drop (frames.length - 3) ++ [frame] := by
  rw [AudioSender.lastFour, length_append, length_singleton, Nat.add_sub_add_right,
    drop_append_of_le_length (Nat.sub_le _ _)]

variable {secondaryData : Bytes}

theorem AudioInv.enqueueEc (h : AudioInv streamID frameDuration s) (hlen : secondaryData.length ≤ 128)
    (hfollows : ∀ newest ∈ s.ecAudioPackets.getLast?,
      newest.capturedAt + frameDuration.toUInt32 = s.audioTimestampOut) :
    AudioInv streamID frameDuration (s.enqueueEc secondaryData) ∧
      Spaced frameDuration s.audioTimestampOut (s.enqueueEc secondaryData).ecAudioPackets := by
  obtain ⟨last, hspaced⟩ := h.spaced
  have hq : (s.enqueueEc secondaryData).ecAudioPackets =
      s.ecAudioPackets.drop (s.ecAudioPackets.length - 3) ++ [⟨secondaryData, s.audioTimestampOut⟩] :=
    lastFour_append _ _
  have hpushed : Spaced frameDuration s.audioTimestampOut (s.enqueueEc secondaryData).ecAudioPackets := by
    rw [hq]
    cases hnewest : s.ecAudioPackets.getLast? with
    | none =>
      rw [getLast?_eq_none_iff.mp hnewest]
      exact ⟨by simp, trivial⟩
    | some newest =>
      have hlast := hfollows newest hnewest
      rw [hspaced.newest hnewest] at hlast
      rw [← hlast]
      exact (hspaced.drop _).push secondaryData
  refine ⟨⟨h.streamID_eq, h.frameDuration_eq, ?_, ?_, ⟨_, hpushed⟩, h.delivers⟩, hpushed⟩
  · rw [hq, length_append, length_drop, length_singleton]
    omega
  · intro frame hm
    rw [hq] at hm
    rcases mem_append.mp hm with hm | hm
    · exact h.data_le frame (mem_of_mem_drop hm)
    · rw [mem_singleton.mp hm]
      exact hlen

variable {s' : AudioSender}

theorem AudioInv.put (h : AudioInv streamID frameDuration s) {type : UInt8}
    {payload : WriteM Unit} (hput : s.put type frames payload = .ok s')
    (hdelivers : ∀ buffer, payload.run [] = .ok ((), buffer) → type = PKT_STREAM_EC →
      DeliversFrames streamID frameDuration ⟨type, buffer, frames⟩) : AudioInv streamID frameDuration s' := by
  unfold AudioSender.put at hput
  cases hrun : payload.run [] with
  | error e =>
    rw [hrun] at hput
    cases hput
  | ok r =>
    rw [hrun] at hput
    cases hput
    refine ⟨h.streamID_eq, h.frameDuration_eq, h.length_le, h.data_le, h.spaced, fun p hm hty => ?_⟩
    rcases mem_append.mp hm with hm | hm
    · exact h.delivers p hm hty
    · rw [mem_singleton.mp hm] at hty ⊢
      exact hdelivers r.2 hrun hty

variable {ecBuf : Bool}

theorem AudioInv.sendEc (h : AudioInv streamID frameDuration s) (hlen : secondaryData.length ≤ 128)
    (hfollows : secondaryData ≠ [] → s.shittyInternetMode → ∀ newest ∈ s.ecAudioPackets.getLast?,
      newest.capturedAt + frameDuration.toUInt32 = s.audioTimestampOut)
    (hsend : s.sendEc secondaryData ecBuf = .ok s') : AudioInv streamID frameDuration s' := by
  unfold AudioSender.sendEc at hsend
  split at hsend
  case isFalse =>
    cases hsend
    exact h
  case isTrue hmode =>
    obtain ⟨hqueued, hspaced⟩ := h.enqueueEc hlen (hfollows hmode.1 hmode.2)
    dsimp only at hsend
    split at hsend
    case isFalse =>
      cases hsend
      exact hqueued
    case isTrue =>
      refine hqueued.put hsend fun buffer hrun _ => ?_
      have hcnt : (s.enqueueEc secondaryData).ecAudioPackets.length < 256 := lt_of_le_of_lt hqueued.length_le (by decide)
      have hdata : ∀ frame ∈ (s.enqueueEc secondaryData).ecAudioPackets, frame.data.length < 256 := fun frame hm =>
        lt_of_le_of_lt (hqueued.data_le frame hm) (by decide)
      have hwritten := writes_writeStreamEC (s.enqueueEc secondaryData).streamID s.audioTimestampOut
        (s.enqueueEc secondaryData).ecAudioPackets []
        (length_ecBytes_le hqueued.length_le hqueued.data_le)
      have hbuf : buffer = ecBytes streamID s.audioTimestampOut (s.enqueueEc secondaryData).ecAudioPackets := by
        have heq := hwritten.symm.trans hrun
        rw [hqueued.streamID_eq, nil_append] at heq
        injection heq with heq
        exact (Prod.ext_iff.mp heq).2.symm
      rw [hbuf]
      exact deliversFrames_of_spaced hcnt hdata hspaced _

variable {data : Bytes} {buf : Bool}

section
variable (h : AudioInv streamID frameDuration s)
include h

theorem AudioInv.sendStreamData {s₁ : AudioSender} (hsend : s.sendStreamData data buf = .ok s₁) :
    AudioInv streamID frameDuration s₁ ∧ ∃ queue, s₁ = { s with sendQueue := queue } := by
  unfold AudioSender.sendStreamData at hsend
  split at hsend
  case isFalse =>
    cases hsend
    exact ⟨h, s.sendQueue, rfl⟩
  case isTrue =>
    refine ⟨h.put hsend fun _ _ hty => absurd hty (by decide), ?_⟩
    unfold AudioSender.put at hsend
    cases hrun : (writeStreamData s.audioTimestampOut data).run [] with
    | error e =>
      rw [hrun] at hsend
      cases hsend
    | ok r =>
      rw [hrun] at hsend
      cases hsend
      exact ⟨_, rfl⟩

theorem AudioInv.handleAudioInput (hlen : secondaryData.length ≤ 128)
    (hfollows : FollowsQueue s (.audioInput data secondaryData buf ecBuf))
    (hinput : s.handleAudioInput data secondaryData buf ecBuf = .ok s') : AudioInv streamID frameDuration s' := by
  unfold AudioSender.handleAudioInput at hinput
  split at hinput
  · cases hinput
    exact h
  case isFalse hrunning =>
  split at hinput
  · cases hinput
    exact h
  case isFalse hsending =>
  obtain ⟨s₁, hfirst, hrest⟩ := except_bind_ok hinput
  obtain ⟨s₂, hsecond, hlast⟩ := except_bind_ok hrest
  cases hlast
  obtain ⟨h₁, queue, rfl⟩ := h.sendStreamData hfirst
  have hq := hfollows hrunning hsending
  rw [h.frameDuration_eq] at hq
  have h₂ := h₁.sendEc hlen hq hsecond
  exact ⟨h₂.streamID_eq, h₂.frameDuration_eq, h₂.length_le, h₂.data_le, h₂.spaced, h₂.delivers⟩

theorem AudioInv.step {event : AudioEvent} (hshort : event.IsShort) (hfollows : FollowsQueue s event) :
    AudioInv streamID frameDuration (stepAudio s event) := by
  cases event with
  | tickMode | waitForAcks | resume | countDown | stop =>
    exact ⟨h.streamID_eq, h.frameDuration_eq, h.length_le, h.data_le, h.spaced, h.delivers⟩
  | audioInput data secondaryData buf ecBuf =>
    have hstep : stepAudio s (.audioInput data secondaryData buf ecBuf) =
        match s.handleAudioInput data secondaryData buf ecBuf with
        | .ok s => s
        | .error _ => { s with stopping := true } := rfl
    rw [hstep]
    cases hinput : s.handleAudioInput data secondaryData buf ecBuf with
    | error e => exact ⟨h.streamID_eq, h.frameDuration_eq, h.length_le, h.data_le, h.spaced, h.delivers⟩
    | ok s' => exact h.handleAudioInput hshort hfollows hinput

end

end

theorem AudioInv.init (streamID : UInt8) (frameDuration : UInt16) :
    AudioInv streamID frameDuration (.init streamID frameDuration) :=
  ⟨rfl, rfl, Nat.zero_le _, fun _ hm => (not_mem_nil hm).elim, ⟨0, trivial⟩,
    fun _ hm => (not_mem_nil hm).elim⟩

/-- In a run in which every queued frame comes one frame duration after the newest one in the queue, all packets are
delivered with the timestamps at which their frames were captured. -/
theorem streamEC_timestamps (streamID : UInt8) (frameDuration : UInt16) (events : List AudioEvent)
    (hshort : ∀ event ∈ events, event.IsShort)
    (hfollows : AllSteps stepAudio FollowsQueue (.init streamID frameDuration) events) :
    ∀ p ∈ (events.foldl stepAudio (.init streamID frameDuration)).sendQueue, p.type = PKT_STREAM_EC →
      DeliversFrames streamID frameDuration p := by
  have hevents : AllSteps stepAudio (fun _ => AudioEvent.IsShort) (.init streamID frameDuration) events :=
    allSteps_of_forall hshort _
  have hinv := AllSteps.invariant (fun s event h hstep => h.step hstep.1 hstep.2) (AudioInv.init streamID frameDuration)
    (hevents.and hfollows)
  exact hinv.delivers

/-! ## Two runs -/

def frameEvent (byte : UInt8) : AudioEvent := .audioInput [0] [byte] true true

/-- The mode goes on, and two frames are captured. -/
def lossyEvents : List AudioEvent := [.tickMode (1 / 5) false, frameEvent 1, frameEvent 2]

def offPeriodEvents : List AudioEvent :=
  [.tickMode (1 / 5) false, frameEvent 1, .tickMode 0 false, frameEvent 2, .tickMode (1 / 5) false, frameEvent 3]

def sentBy (events : List AudioEvent) : List AudioPacket := (events.foldl stepAudio (.init 1 60)).sendQueue

def lastSent (events : List AudioEvent) : AudioPacket := (sentBy events).getLastD ⟨0, [], []⟩

theorem streamEC_timestamps_two :
    (lastSent lossyEvents).frames = [⟨[1], 0⟩, ⟨[2], 60⟩] ∧ DeliversFrames 1 60 (lastSent lossyEvents) := by
  have hshort : ∀ event ∈ lossyEvents, event.IsShort := by decide
  have hfollows : AllSteps stepAudio FollowsQueue (.init 1 60) lossyEvents := by decide +kernel
  have hdelivers := streamEC_timestamps 1 60 lossyEvents hshort hfollows
  exact ⟨by decide +kernel, hdelivers _ (by decide +kernel) (by decide +kernel)⟩

def ecReceiver (payload : Bytes) : PacketState := ⟨payload, payload, 0, payload.length, [], callController⟩

/-- The frame from before the off period gets the timestamp of the frame in it. -/
theorem streamEC_timestamps_lost :
    (lastSent offPeriodEvents).type = PKT_STREAM_EC ∧ (lastSent offPeriodEvents).frames = [⟨[1], 0⟩, ⟨[3], 120⟩] ∧
      (runIn processStreamEC (ecReceiver (lastSent offPeriodEvents).data)).2.handled.map JitterInput.packet =
        [⟨[1], 60, true⟩, ⟨[3], 120, true⟩] ∧
      ¬DeliversFrames 1 60 (lastSent offPeriodEvents) := by
  have hframes : (lastSent offPeriodEvents).frames = [⟨[1], 0⟩, ⟨[3], 120⟩] := by decide +kernel
  have hhandled : (runIn processStreamEC (ecReceiver (lastSent offPeriodEvents).data)).2.handled.map JitterInput.packet =
      [⟨[1], 60, true⟩, ⟨[3], 120, true⟩] := by decide +kernel
  refine ⟨by decide +kernel, hframes, hhandled, fun h => ?_⟩
  obtain ⟨r', inputs, hrun, hinputs, hpackets⟩ :=
    h (ecReceiver (lastSent offPeriodEvents).data) [] [] ⟨1, 1, 60, true, false, true⟩ (append_nil _).symm rfl rfl rfl
      rfl
  rw [hrun] at hhandled
  have heq : r'.handled = inputs := hinputs
  rw [heq, hpackets, hframes] at hhandled
  exact absurd hhandled (by decide)

end TelegramClient.VoIP.Inbound
