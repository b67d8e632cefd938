import TelegramClient.VoIP.IncomingPacket

/-!
# Reading from a datagram, by the bytes

* `byteAt`, `uint16At`, `uint32At` : the values at a place, and where they were written (`byteAt_append`, `uint32At_append`);
* `callController` : a controller to run it on.
-/

namespace TelegramClient.VoIP.Inbound

/-! ## What is read at a place -/

def byteAt (stream : Bytes) (offset : Nat) : UInt8 := (slice stream offset 1).headD 0

def uint16At (stream : Bytes) (offset : Nat) : UInt16 := ⟨ofLeBits 16 (slice stream offset 2)⟩

def uint32At (stream : Bytes) (offset : Nat) : UInt32 := ⟨ofLeBits 32 (slice stream offset 4)⟩

theorem byteAt_append (pre : Bytes) (b : UInt8) (rest : Bytes) : byteAt (pre ++ (b :: rest)) pre.length = b := by
  have h := slice_append_middle pre [b] rest
  rw [List.append_assoc, List.singleton_append, List.length_singleton] at h
  rw [byteAt, h, List.headD_cons]

theorem uint32At_append (pre : Bytes) (i : UInt32) (rest : Bytes) :
    uint32At (pre ++ (leBits i.toBitVec ++ rest)) pre.length = i := by
  have h := ofLeBits_slice (show 32 % 8 = 0 from rfl) pre i.toBitVec rest
  rw [List.append_assoc] at h
  exact congrArg UInt32.ofBitVec h

/-! ## Reading from a state -/

variable {α : Type}

theorem runIn_liftRead (p : ReadM α) (s : PacketState) : runIn (liftRead p) s =
      match p.run ⟨s.stream, s.offset⟩ with
      | .ok (a, c) => (.ok a, { s with offset := c.offset })
      | .error _ => (.error .outOfRange, s) := by
  have hget : runIn (MonadState.get : PacketM PacketState) s = (.ok s, s) := rfl
  unfold liftRead
  rw [runIn_bind, hget]
  dsimp only
  rcases p.run ⟨s.stream, s.offset⟩ with e | ⟨a, c⟩
  · rfl
  · rfl

def PacketState.at (s : PacketState) (offset : Nat) : PacketState := { s with offset := offset }

section
variable (s : PacketState) (offset offset' : Nat)

@[simp] theorem stream_at : (s.at offset).stream = s.stream := rfl
@[simp] theorem offset_at : (s.at offset).offset = offset := rfl
@[simp] theorem memory_at : (s.at offset).memory = s.memory := rfl
@[simp] theorem payloadLen_at : (s.at offset).payloadLen = s.payloadLen := rfl
@[simp] theorem handled_at : (s.at offset).handled = s.handled := rfl
@[simp] theorem controller_at : (s.at offset).controller = s.controller := rfl
@[simp] theorem at_at : (s.at offset).at offset' = s.at offset' := rfl

end

variable (s : PacketState)

theorem runIn_get : runIn (MonadState.get : PacketM PacketState) s = (.ok s, s) := rfl

variable {count : Nat}

theorem runIn_readBytes (hcnt : 0 < count) (s : PacketState) : runIn (readBytes count) s =
      if s.offset + count ≤ s.stream.length then (.ok (slice s.stream s.offset count), s.at (s.offset + count))
      else (.error .outOfRange, s) := by
  have hrun : (BufferInputStream.readBytes count).run ⟨s.stream, s.offset⟩ =
      if s.stream.length - s.offset < count then .error .raised
      else .ok (slice s.stream s.offset count, ⟨s.stream, s.offset + count⟩) := rfl
  rw [readBytes, runIn_liftRead, hrun]
  by_cases hfits : s.offset + count ≤ s.stream.length
  · rw [if_pos hfits, if_neg (by omega)]
    rfl
  · rw [if_neg hfits, if_pos (by omega)]

theorem runIn_readBytes_of_le {s : PacketState} (h : s.offset + count ≤ s.stream.length) :
    runIn (readBytes count) s = (.ok (slice s.stream s.offset count), s.at (s.offset + count)) := by
  have hrun : (BufferInputStream.readBytes count).run ⟨s.stream, s.offset⟩ =
      .ok (slice s.stream s.offset count, ⟨s.stream, s.offset + count⟩) := if_neg (by dsimp only; omega)
  rw [readBytes, runIn_liftRead, hrun]
  rfl

theorem runIn_fixed (hcnt : 0 < count) (f : Bytes → α) (s : PacketState) :
    runIn (liftRead (BufferInputStream.readBytes count >>= fun bytes => Pure.pure (f bytes))) s =
      if s.offset + count ≤ s.stream.length then (.ok (f (slice s.stream s.offset count)), s.at (s.offset + count))
      else (.error .outOfRange, s) := by
  have hrun : (BufferInputStream.readBytes count >>= fun bytes => Pure.pure (f bytes) : ReadM α).run
      ⟨s.stream, s.offset⟩ = if s.stream.length - s.offset < count then .error .raised
      else .ok (f (slice s.stream s.offset count), ⟨s.stream, s.offset + count⟩) := by
    rw [StateT.run_bind]
    change (BufferInputStream.readBytes count ⟨s.stream, s.offset⟩ >>= _) = _
    unfold BufferInputStream.readBytes
    split
    · rfl
    · rfl
  rw [runIn_liftRead, hrun]
  by_cases hfits : s.offset + count ≤ s.stream.length
  · rw [if_pos hfits, if_neg (by omega)]
    rfl
  · rw [if_neg hfits, if_pos (by omega)]

theorem runIn_readByte : runIn readByte s =
      if s.offset + 1 ≤ s.stream.length then (.ok (byteAt s.stream s.offset), s.at (s.offset + 1))
      else (.error .outOfRange, s) := runIn_fixed (by decide) _ s

theorem runIn_readInt32 : runIn readInt32 s =
      if s.offset + 4 ≤ s.stream.length then (.ok (uint32At s.stream s.offset), s.at (s.offset + 4))
      else (.error .outOfRange, s) := runIn_fixed (by decide) _ s

theorem runIn_seek (offset : Nat) (s : PacketState) : runIn (seek offset) s =
      if offset ≤ s.stream.length then (.ok (), s.at offset) else (.error .outOfRange, s) := by
  have hrun : (BufferInputStream.seek offset).run ⟨s.stream, s.offset⟩ =
      if s.stream.length < offset then .error .raised else .ok ((), ⟨s.stream, offset⟩) := rfl
  rw [seek, runIn_liftRead, hrun]
  by_cases hfits : offset ≤ s.stream.length
  · rw [if_pos hfits, if_neg (by omega)]
    rfl
  · rw [if_neg hfits, if_pos (by omega)]

/-- A call in which the peer has one stream of audio. -/
def callController : ControllerState where
  cipher := CallCipher.receiver
  window := .init
  peerVersion := 5
  receivedInit := true
  receivedInitAck := true
  waitingForRelayPeerInfo := false
  allowP2p := true
  incomingStreams := [⟨1, 1, 60, true, false, true⟩]
  lastReceivedExtrasByType := fun _ => 0
  didReceiveGroupCallKey := false
  didSendGroupCallKey := false
  dataSavingRequestedByPeer := false
  currentEndpoint := .udpP2pInet
  preferredRelay := .udpRelay
  switchToRelay := false
  hasIPv6 := false

end TelegramClient.VoIP.Inbound
