import TelegramClient.VoIP.PacketReads

/-!
# What reading a datagram changes

* `Grows` : the stream is the same, and no pieces of stream data are handed out.
-/

namespace TelegramClient.VoIP.Inbound

open Secret

/-! ## What most of the code does to the state -/

/-- The stream is the same, and the frames handed out since are for error correction. -/
structure Grows (s₀ s : PacketState) : Prop where
  stream_eq : s.stream = s₀.stream
  memory_eq : s.memory = s₀.memory
  payloadLen_eq : s.payloadLen = s₀.payloadLen
  handled_eq : ∃ frames, s.handled = s₀.handled ++ frames ∧ ∀ input ∈ frames, input.packet.isEC = true

theorem Grows.refl (s : PacketState) : Grows s s := ⟨rfl, rfl, rfl, [], (List.append_nil _).symm, by simp⟩

variable {s₀ : PacketState}

theorem Grows.trans {s₁ s₂ : PacketState} (h : Grows s₀ s₁) (h' : Grows s₁ s₂) : Grows s₀ s₂ := by
  obtain ⟨frames, heq, hEC⟩ := h.handled_eq
  obtain ⟨frames', heq', hEC'⟩ := h'.handled_eq
  refine ⟨h'.stream_eq.trans h.stream_eq, h'.memory_eq.trans h.memory_eq, h'.payloadLen_eq.trans h.payloadLen_eq,
    frames ++ frames', by rw [heq', heq, List.append_assoc], ?_⟩
  exact fun input hm => (List.mem_append.mp hm).elim (hEC input) (hEC' input)

theorem Grows.of_eq {s : PacketState} (h : Grows s₀ s) {s' : PacketState} (hstream : s'.stream = s.stream)
    (hmemory : s'.memory = s.memory) (hlen : s'.payloadLen = s.payloadLen) (hhandled : s'.handled = s.handled) :
    Grows s₀ s' :=
  h.trans ⟨hstream, hmemory, hlen, [], by rw [hhandled, List.append_nil], by simp⟩

/-- It returns or raises `std::out_of_range`. -/
def Harmless {α : Type} (m : PacketM α) : Prop := ∀ s₀, Keeps (Grows s₀) (· = .outOfRange) m

def Quiet {α : Type} (m : PacketM α) : Prop := ∀ s₀, Keeps (Grows s₀) (· ≠ .unalignedLength) m

section
variable {α β : Type}

variable {m : PacketM α}

theorem Harmless.quiet (h : Harmless m) : Quiet m := fun s₀ =>
  (h s₀).conseq (fun _ hs => hs) (fun _ _ hs => hs) fun e s he => ⟨by rw [he.1]; decide, he.2⟩

theorem Harmless.pure (a : α) : Harmless (Pure.pure a : PacketM α) := fun _ => Keeps.pure a

variable {f : α → PacketM β}

theorem Harmless.bind (hm : Harmless m) (hf : ∀ a, Harmless (f a)) :
    Harmless (m >>= f) := fun s₀ => (hm s₀).bind fun a => hf a s₀

variable {c : Prop} {m' : PacketM α}

theorem Harmless.ite [Decidable c] (hm : Harmless m) (hm' : Harmless m') :
    Harmless (if c then m else m') := fun s₀ => (hm s₀).ite (hm' s₀)

theorem Quiet.bind (hm : Quiet m) (hf : ∀ a, Quiet (f a)) : Quiet (m >>= f) := fun s₀ => (hm s₀).bind fun a => hf a s₀

theorem Quiet.ite [Decidable c] (hm : Quiet m) (hm' : Quiet m') :
    Quiet (if c then m else m') := fun s₀ => (hm s₀).ite (hm' s₀)

theorem harmless_get : Harmless (MonadState.get : PacketM PacketState) := fun _ => Keeps.get

theorem harmless_liftRead (p : ReadM α) : Harmless (liftRead p) := by
  intro s₀ s hs
  rw [runIn_liftRead]
  rcases p.run ⟨s.stream, s.offset⟩ with e | ⟨a, c⟩
  · exact ⟨rfl, hs⟩
  · exact hs.of_eq rfl rfl rfl rfl

theorem harmless_fromBuffer (data : Bytes) (offset : Nat) (p : ReadM α) : Harmless (fromBuffer data offset p) := by
  intro s₀
  unfold fromBuffer
  split
  · exact Keeps.pure _
  · exact Keeps.throw rfl

theorem harmless_controller : Harmless controller := harmless_get.bind fun _ => .pure _

theorem harmless_modifyController (f : ControllerState → ControllerState) : Harmless (modifyController f) := fun _ =>
  Keeps.modify fun _ hs => hs.of_eq rfl rfl rfl rfl

theorem harmless_repeatRead {p : PacketM α} (hp : Harmless p) (n : Nat) : Harmless (repeatRead p n) := by
  induction n with
  | zero => exact .pure _
  | succ n ih => exact hp.bind fun _ => ih.bind fun _ => .pure _

theorem harmless_readByte : Harmless readByte := harmless_liftRead _

theorem harmless_readInt16 : Harmless readInt16 := (harmless_liftRead _).bind fun _ => .pure _

theorem harmless_readInt32 : Harmless readInt32 := harmless_liftRead _

theorem harmless_remaining : Harmless remaining := harmless_get.bind fun _ => .pure _

theorem quiet_readTlLength : Quiet readTlLength := by
  refine harmless_readByte.quiet.bind fun l => Quiet.ite (Harmless.pure _).quiet ?_
  refine harmless_remaining.quiet.bind fun left => Quiet.ite (fun s₀ => Keeps.throw (by decide)) ?_
  exact ((harmless_liftRead _).bind fun _ => .pure _).quiet

end

/-! ## The header and the extras -/

section
variable (crypto : SecretCrypto)

theorem quiet_skipTlBytes : Quiet skipTlBytes := quiet_readTlLength.bind fun _ => (harmless_liftRead _).quiet

theorem harmless_failCall : Harmless failCall := harmless_modifyController _

variable (callID : Bytes)

theorem quiet_readDecryptedBody (flags : UInt32) : Quiet (readDecryptedBody callID flags) := by
  have hdropped : Quiet (failCall >>= fun _ => (Pure.pure none : PacketM (Option ReceivedHeader))) :=
    (harmless_failCall.bind fun _ => .pure _).quiet
  refine Quiet.ite ?_ (Harmless.pure _).quiet
  refine (harmless_liftRead _).quiet.bind fun sameCall => Quiet.ite ?_ hdropped
  refine harmless_readInt32.quiet.bind fun ackId => harmless_readInt32.quiet.bind fun pseq => ?_
  refine harmless_readInt32.quiet.bind fun acks => (harmless_liftRead _).quiet.bind fun sameProtocol => ?_
  refine Quiet.ite ?_ hdropped
  refine (Quiet.ite quiet_skipTlBytes (Harmless.pure _).quiet).bind fun _ => ?_
  exact (Quiet.ite quiet_readTlLength (Harmless.pure _).quiet).bind fun _ => (Harmless.pure _).quiet

theorem quiet_readDecryptedBlock : Quiet (readDecryptedBlock callID) := by
  refine (harmless_liftRead _).quiet.bind fun _ => quiet_skipTlBytes.bind fun _ => ?_
  exact harmless_readInt32.quiet.bind fun flags => quiet_readDecryptedBody callID flags

variable (data : Bytes) (peerVersion : Int32)

theorem harmless_simpleFields (packetInnerLen : Nat) : Harmless (do
      let type ← readByte
      let ackId ← readInt32
      let pseq ← readInt32
      let acks ← readInt32
      let pflags ← liftRead (readPflags peerVersion)
      return some ⟨type, ackId, pseq, acks, pflags, packetInnerLen⟩ : PacketM (Option ReceivedHeader)) :=
  harmless_readByte.bind fun _ => harmless_readInt32.bind fun _ => harmless_readInt32.bind fun _ =>
    harmless_readInt32.bind fun _ => (harmless_liftRead _).bind fun _ => .pure _

theorem quiet_readSimpleBlock : Quiet (readSimpleBlock peerVersion) := by
  refine (harmless_liftRead _).quiet.bind fun _ => quiet_skipTlBytes.bind fun _ => ?_
  exact quiet_readTlLength.bind fun packetInnerLen => (harmless_simpleFields peerVersion packetInnerLen).quiet

theorem quiet_readHeader : Quiet (readHeader callID peerVersion) := by
  refine harmless_readInt32.quiet.bind fun tlid => Quiet.ite (quiet_readDecryptedBlock callID) ?_
  exact Quiet.ite (quiet_readSimpleBlock peerVersion) (Harmless.pure _).quiet

theorem harmless_extraStreamFlags : Harmless (extraStreamFlags data) :=
  (harmless_fromBuffer _ _ _).bind fun _ => (harmless_fromBuffer _ _ _).bind fun _ => harmless_modifyController _

theorem harmless_extraLanEndpoint : Harmless (extraLanEndpoint data) := by
  refine harmless_controller.bind fun c => Harmless.ite ?_ (.pure _)
  exact (harmless_fromBuffer _ _ _).bind fun _ => (harmless_fromBuffer _ _ _).bind fun _ => harmless_modifyController _

theorem harmless_extraNetworkChanged : Harmless (extraNetworkChanged data) := by
  refine harmless_controller.bind fun c => Harmless.ite (.pure _) ?_
  refine (harmless_modifyController _).bind fun _ => ?_
  exact (harmless_fromBuffer _ _ _).bind fun _ => harmless_modifyController _

theorem harmless_extraGroupCallKey : Harmless (extraGroupCallKey data) := by
  refine harmless_controller.bind fun c => Harmless.ite (.pure _) ?_
  exact (harmless_fromBuffer _ _ _).bind fun _ => harmless_modifyController _

theorem harmless_extraIPv6Endpoint : Harmless (extraIPv6Endpoint data) := by
  refine harmless_controller.bind fun c => Harmless.ite ?_ (.pure _)
  exact (harmless_fromBuffer _ _ _).bind fun _ => (harmless_fromBuffer _ _ _).bind fun _ => harmless_modifyController _

theorem harmless_processExtraData : Harmless (processExtraData crypto data) := by
  refine (harmless_fromBuffer _ _ _).bind fun type => harmless_controller.bind fun c => ?_
  refine Harmless.ite (.pure _) ((harmless_modifyController _).bind fun _ => ?_)
  refine Harmless.ite (harmless_extraStreamFlags data) (Harmless.ite (harmless_extraLanEndpoint data) ?_)
  refine Harmless.ite (harmless_extraNetworkChanged data) (Harmless.ite (harmless_extraGroupCallKey data) ?_)
  exact Harmless.ite (harmless_extraIPv6Endpoint data) (.pure _)

theorem harmless_processExtras (pflags : UInt8) : Harmless (processExtras crypto pflags) := by
  have hextra : Harmless (processExtra crypto) := (harmless_liftRead _).bind fun _ => harmless_processExtraData crypto _
  refine Harmless.ite (harmless_readByte.bind fun extraCount => ?_) (.pure _)
  exact (harmless_repeatRead hextra _).bind fun _ => .pure _

variable (src : Endpoint) (now : Int)

theorem harmless_processExtrasOf (header : ReceivedHeader) : Harmless (processExtrasOf crypto src now header) := by
  refine harmless_controller.bind fun c => ?_
  split
  · exact .pure _
  · refine (harmless_modifyController _).bind fun _ => (harmless_modifyController _).bind fun _ => ?_
    exact (harmless_processExtras crypto _).bind fun _ => .pure _

theorem quiet_readUpToType : Quiet (readUpToType crypto src now) := by
  refine harmless_controller.quiet.bind fun c => (quiet_readHeader _ _).bind fun header => ?_
  split
  · exact (Harmless.pure _).quiet
  · exact (harmless_processExtrasOf crypto src now _).quiet

end

/-! ## The types that hand out no stream data -/

theorem harmless_readVersions : Harmless readVersions := by
  refine harmless_readInt32.bind fun _ => (harmless_modifyController _).bind fun _ => ?_
  exact harmless_readInt32.bind fun _ => Harmless.ite (harmless_failCall.bind fun _ => .pure _) (.pure _)

theorem harmless_readCodecs : Harmless readCodecs := by
  refine harmless_readByte.bind fun count => harmless_controller.bind fun c => Harmless.ite ?_ ?_
  · exact (harmless_repeatRead harmless_readByte _).bind fun _ => .pure _
  · exact (harmless_repeatRead harmless_readInt32 _).bind fun _ => .pure _

theorem harmless_processInit : Harmless processInit := by
  refine (harmless_modifyController _).bind fun _ => harmless_readVersions.bind fun fits => Harmless.ite ?_ (.pure _)
  refine harmless_readInt32.bind fun flags => (harmless_modifyController _).bind fun _ => ?_
  exact harmless_readCodecs.bind fun _ => harmless_readCodecs

theorem harmless_readStream : Harmless readStream := by
  refine harmless_readByte.bind fun id => harmless_readByte.bind fun type => harmless_controller.bind fun c => ?_
  refine Harmless.ite (harmless_readByte.bind fun _ => ?_) (harmless_readInt32.bind fun _ => ?_)
  · exact harmless_readInt16.bind fun _ => harmless_readByte.bind fun _ => .pure _
  · exact harmless_readInt16.bind fun _ => harmless_readByte.bind fun _ => .pure _

theorem harmless_processStream : Harmless processStream :=
  harmless_readStream.bind fun _ => Harmless.ite (harmless_modifyController _) (.pure _)

variable (packetInnerLen : Nat)

theorem harmless_processInitAck : Harmless (processInitAck packetInnerLen) := by
  have hversions : Harmless (readInitAckVersions packetInnerLen) :=
    Harmless.ite harmless_readVersions ((harmless_modifyController _).bind fun _ => .pure _)
  refine harmless_controller.bind fun c => Harmless.ite (.pure _) ((harmless_modifyController _).bind fun _ => ?_)
  refine hversions.bind fun fits => Harmless.ite (harmless_readByte.bind fun streamCount => ?_) (.pure _)
  refine harmless_controller.bind fun c => (harmless_repeatRead harmless_processStream _).bind fun _ => ?_
  exact harmless_modifyController _

theorem harmless_processPong : Harmless (processPong packetInnerLen) :=
  Harmless.ite (harmless_readInt32.bind fun _ => .pure _) (.pure _)

theorem harmless_processStreamState : Harmless processStreamState :=
  harmless_readByte.bind fun _ => harmless_readByte.bind fun _ => harmless_modifyController _

theorem harmless_processLanEndpoint : Harmless processLanEndpoint :=
  harmless_readInt32.bind fun _ => harmless_readInt32.bind fun _ => harmless_modifyController _

theorem harmless_processNetworkChanged : Harmless processNetworkChanged := by
  refine harmless_controller.bind fun c => Harmless.ite (.pure _) ((harmless_modifyController _).bind fun _ => ?_)
  exact Harmless.ite (harmless_readInt32.bind fun _ => harmless_modifyController _) (.pure _)

theorem harmless_handleFrame (start : Nat) (data : Bytes) (timestamp : UInt32) :
    Harmless (handleInput ⟨start, data, timestamp, true⟩) :=
  fun _ => Keeps.modify fun s hs => hs.trans
    ⟨rfl, rfl, rfl, [⟨start, data, timestamp, true⟩], rfl, fun input hm => by rw [List.mem_singleton.mp hm]⟩

theorem harmless_streamECFrames (stm : IncomingStream) (lastTimestamp : UInt32) (n : Nat) :
    Harmless (streamECFrames stm lastTimestamp n) := by
  induction n with
  | zero => exact .pure _
  | succ n ih =>
    refine harmless_readByte.bind fun dlen => harmless_get.bind fun s => (harmless_liftRead _).bind fun data => ?_
    exact Harmless.ite ((harmless_handleFrame _ _ _).bind fun _ => ih) ih

theorem harmless_processStreamEC : Harmless processStreamEC := by
  refine harmless_readByte.bind fun streamID => harmless_readInt32.bind fun lastTimestamp => ?_
  refine harmless_readByte.bind fun count => harmless_controller.bind fun c => ?_
  split
  · exact harmless_streamECFrames _ _ _
  · exact .pure _

theorem harmless_processRelayResponse (src : Endpoint) : Harmless (processRelayResponse src) := by
  refine (harmless_liftRead _).bind fun _ => harmless_readInt32.bind fun tlid => harmless_controller.bind fun c => ?_
  refine harmless_remaining.bind fun left => Harmless.ite (Harmless.ite ?_ (.pure _)) ?_
  · refine harmless_readInt32.bind fun _ => (harmless_liftRead _).bind fun _ => (harmless_liftRead _).bind fun _ => ?_
    exact harmless_readInt32.bind fun _ => .pure _
  · refine Harmless.ite (Harmless.ite ?_ (.pure _)) (.pure _)
    refine harmless_readInt32.bind fun _ => harmless_readInt32.bind fun _ => harmless_readInt32.bind fun _ => ?_
    exact harmless_readInt32.bind fun _ => harmless_modifyController _

/-- How many pieces of stream data a packet of this type carries. -/
def streamDataCount (type : UInt8) : Nat := if type = 4 then 1 else if type = 8 then 2 else if type = 9 then 3 else 0

variable {header : ReceivedHeader}

theorem processType_of_streamData (h : streamDataCount header.type ≠ 0) :
    processType header = processStreamData (streamDataCount header.type) := by
  unfold processType streamDataCount at *
  split at h
  case isTrue hty => simp [hty]
  case isFalse =>
    split at h
    case isTrue hty => simp [hty]
    case isFalse =>
      split at h
      case isTrue hty => simp [hty]
      case isFalse => exact absurd rfl h

theorem harmless_processType (h : streamDataCount header.type = 0) : Harmless (processType header) := by
  have hne : header.type ≠ 4 ∧ header.type ≠ 8 ∧ header.type ≠ 9 := by
    refine ⟨?_, ?_, ?_⟩ <;> · intro hty; rw [hty] at h; revert h; decide
  unfold processType
  rw [if_neg hne.1, if_neg hne.2.1, if_neg hne.2.2]
  refine Harmless.ite harmless_processInit (Harmless.ite (harmless_processInitAck _) ?_)
  refine Harmless.ite (harmless_processPong _) (Harmless.ite harmless_processStreamState ?_)
  refine Harmless.ite harmless_processLanEndpoint (Harmless.ite harmless_processNetworkChanged ?_)
  exact Harmless.ite harmless_processStreamEC (.pure _)

end TelegramClient.VoIP.Inbound
