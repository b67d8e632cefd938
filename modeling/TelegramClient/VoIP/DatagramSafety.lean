import TelegramClient.VoIP.PacketEffects

/-!
# Which datagrams a receiver misreads

* `Asserts` : a program ends in the assertion, by the bytes in front of it;
* **`processDatagram_safe_iff`** : these, and a datagram that is no whole number of blocks, are all that goes wrong.
-/

namespace TelegramClient.VoIP.Inbound
open List hiding beq_eq_decide get
open CallCipher (datagramFor innerLen length_bodyFor length_msgKeyFor length_tag slice_parts)

open Secret

/-! ## What is read at a place -/

/-- The length at a place, in one byte or in four. -/
def tlLengthAt (stream : Bytes) (offset : Nat) : Nat :=
  if byteAt stream offset < 254 then (byteAt stream offset).toNat else ofLe (slice stream (offset + 1) 3)

def afterTlLength (stream : Bytes) (offset : Nat) : Nat :=
  if byteAt stream offset < 254 then offset + 1 else offset + 4

/-- The end of bytes behind their length, with the padding. -/
def afterTlBytes (stream : Bytes) (offset : Nat) : Nat :=
  afterTlLength stream offset + tlLengthAt stream offset + pad4 (tlLengthAt stream offset)

/-- A length of four bytes begins here, and the stream ends within it. -/
def CutAt (stream : Bytes) (offset : Nat) : Prop :=
  offset < stream.length ∧ ¬byteAt stream offset < 254 ∧ stream.length < offset + 4

instance (stream : Bytes) (offset : Nat) : Decidable (CutAt stream offset) := inferInstanceAs (Decidable (_ ∧ _ ∧ _))

/-- A call id in front of what is at `offset`, when there is one. -/
def afterCallID (flags : UInt32) (offset : Nat) : Nat := if flags &&& PFLAG_HAS_CALL_ID ≠ 0 then offset + 16 else offset

def afterProtocol (flags : UInt32) (offset : Nat) : Nat := if flags &&& PFLAG_HAS_PROTO ≠ 0 then offset + 4 else offset

def afterExtra (stream : Bytes) (flags : UInt32) (offset : Nat) : Nat :=
  if flags &&& PFLAG_HAS_EXTRA ≠ 0 then afterTlBytes stream offset else offset

def sameCall (flags : UInt32) (callID stream : Bytes) (offset : Nat) : Bool :=
  decide (flags &&& PFLAG_HAS_CALL_ID ≠ 0 → slice stream offset 16 = callID)

def sameProtocol (flags : UInt32) (stream : Bytes) (offset : Nat) : Bool :=
  decide (flags &&& PFLAG_HAS_PROTO ≠ 0 → uint32At stream offset = PROTOCOL_NAME)

/-- The extra and the length of the data of a decrypted block, whose other fields let the packet through. -/
def CutBody (callID stream : Bytes) (flags : UInt32) (offset : Nat) : Prop :=
  (flags &&& PFLAG_HAS_SEQ ≠ 0 ∧ flags &&& PFLAG_HAS_RECENT_RECV ≠ 0) ∧
    sameCall flags callID stream offset = true ∧ sameProtocol flags stream (afterCallID flags offset + 12) = true ∧
    let extra := afterProtocol flags (afterCallID flags offset + 12)
    flags &&& PFLAG_HAS_EXTRA ≠ 0 ∧ CutAt stream extra ∨
      flags &&& PFLAG_HAS_DATA ≠ 0 ∧ CutAt stream (afterExtra stream flags extra)

def CutSimple (stream : Bytes) : Prop := CutAt stream 12 ∨ CutAt stream (afterTlBytes stream 12)

def CutDecrypted (callID stream : Bytes) : Prop :=
  CutAt stream 12 ∨ CutBody callID stream (uint32At stream (afterTlBytes stream 12)) (afterTlBytes stream 12 + 4)

/-- The payload ends within a length of its header. -/
def CutLength (callID stream : Bytes) : Prop :=
  uint32At stream 0 = TLID_DECRYPTED_AUDIO_BLOCK ∧ CutDecrypted callID stream ∨
    uint32At stream 0 = TLID_SIMPLE_AUDIO_BLOCK ∧ CutSimple stream

theorem le_afterTlLength (stream : Bytes) (offset : Nat) : offset + 1 ≤ afterTlLength stream offset := by
  unfold afterTlLength
  split <;> omega

theorem lt_afterTlBytes (stream : Bytes) (offset : Nat) : offset < afterTlBytes stream offset := by
  have hle := le_afterTlLength stream offset
  unfold afterTlBytes
  omega

theorem le_afterCallID (flags : UInt32) (offset : Nat) : offset ≤ afterCallID flags offset := by
  unfold afterCallID
  split <;> omega

theorem le_afterProtocol (flags : UInt32) (offset : Nat) : offset ≤ afterProtocol flags offset := by
  unfold afterProtocol
  split <;> omega

theorem le_afterExtra (stream : Bytes) (flags : UInt32) (offset : Nat) : offset ≤ afterExtra stream flags offset := by
  have hlt := lt_afterTlBytes stream offset
  unfold afterExtra
  split <;> omega

/-! ## Where the assertion fails -/

theorem runIn_readTlLength (s : PacketState) : runIn readTlLength s = if s.offset + 1 ≤ s.stream.length then
        if CutAt s.stream s.offset then (.error .assertion, s.at (s.offset + 1))
        else (.ok (tlLengthAt s.stream s.offset), s.at (afterTlLength s.stream s.offset))
      else (.error .outOfRange, s) := by
  unfold readTlLength
  rw [runIn_bind, runIn_readByte]
  by_cases hbyte : s.offset + 1 ≤ s.stream.length
  case neg => rw [if_neg hbyte, if_neg hbyte]
  rw [if_pos hbyte, if_pos hbyte]
  dsimp only
  unfold tlLengthAt afterTlLength
  by_cases hshort : byteAt s.stream s.offset < 254
  · have hcut : ¬CutAt s.stream s.offset := fun h => h.2.1 hshort
    rw [if_pos hshort, if_neg hcut, if_pos hshort, if_pos hshort]
    rfl
  · have hremaining : runIn remaining (s.at (s.offset + 1)) =
        (.ok (s.stream.length - (s.offset + 1)), s.at (s.offset + 1)) := rfl
    rw [if_neg hshort, runIn_bind, hremaining, if_neg hshort, if_neg hshort]
    dsimp only
    by_cases hcut : s.stream.length < s.offset + 4
    · rw [if_pos (by omega), if_pos ⟨by omega, hshort, hcut⟩]
      rfl
    · have hthree : s.offset + 1 + 3 ≤ s.stream.length := by omega
      rw [if_neg (by omega), if_neg (fun h => hcut h.2.2), runIn_bind, runIn_readBytes (by decide), stream_at, offset_at,
        if_pos hthree]
      rfl

def Asserts {α : Type} (m : PacketM α) (s : PacketState) : Prop := (runIn m s).1 = .error .assertion

section
variable {α β : Type}

theorem Harmless.not_asserts {m : PacketM α} (h : Harmless m) (s : PacketState) : ¬Asserts m s := by
  intro hasserts
  have hrun := h s s (Grows.refl s)
  unfold Asserts at hasserts
  rcases heq : runIn m s with ⟨e | a, s'⟩
  · rw [heq] at hrun hasserts
    injection hasserts with he
    exact absurd (hrun.1.symm.trans he) (by decide)
  · rw [heq] at hasserts
    cases hasserts

theorem asserts_bind (m : PacketM α) (f : α → PacketM β) (s : PacketState) :
    Asserts (m >>= f) s ↔ Asserts m s ∨ ∃ a s', runIn m s = (.ok a, s') ∧ Asserts (f a) s' := by
  unfold Asserts
  rw [runIn_bind]
  rcases runIn m s with ⟨e | a, s'⟩
  · simp
  · simp

theorem asserts_bind_of_run {m : PacketM α} {f : α → PacketM β} {s s' : PacketState} {c : Prop} [Decidable c] {a : α}
    (h : runIn m s = if c then (.ok a, s') else (.error .outOfRange, s)) :
    Asserts (m >>= f) s ↔ c ∧ Asserts (f a) s' := by
  unfold Asserts
  rw [runIn_bind, h]
  by_cases hc : c
  · simp [hc]
  · simp [hc]

theorem asserts_readInt32 (f : UInt32 → PacketM β) (s : PacketState) : Asserts (readInt32 >>= f) s ↔
      s.offset + 4 ≤ s.stream.length ∧ Asserts (f (uint32At s.stream s.offset)) (s.at (s.offset + 4)) :=
  asserts_bind_of_run (runIn_readInt32 s)

theorem asserts_readInt64 (f : UInt64 → PacketM β) (s : PacketState) :
    Asserts (readInt64 >>= f) s ↔ s.offset + 8 ≤ s.stream.length ∧
      Asserts (f ⟨ofLeBits 64 (slice s.stream s.offset 8)⟩) (s.at (s.offset + 8)) :=
  asserts_bind_of_run (runIn_fixed (by decide) _ s)

theorem asserts_readTlLength (f : Nat → PacketM β) (s : PacketState) :
    Asserts (readTlLength >>= f) s ↔ CutAt s.stream s.offset ∨ afterTlLength s.stream s.offset ≤ s.stream.length ∧
      Asserts (f (tlLengthAt s.stream s.offset)) (s.at (afterTlLength s.stream s.offset)) := by
  unfold Asserts
  rw [runIn_bind, runIn_readTlLength]
  by_cases hbyte : s.offset + 1 ≤ s.stream.length
  case neg =>
    rw [if_neg hbyte]
    refine ⟨fun h => by simp at h, fun h => absurd ?_ hbyte⟩
    exact h.elim (fun hcut => hcut.1) fun hfits => (le_afterTlLength _ _).trans hfits.1
  rw [if_pos hbyte]
  by_cases hcut : CutAt s.stream s.offset
  · rw [if_pos hcut]
    exact ⟨fun _ => .inl hcut, fun _ => rfl⟩
  · have hfits : afterTlLength s.stream s.offset ≤ s.stream.length := by
      unfold afterTlLength
      split
      · exact hbyte
      case isFalse hlong => exact Nat.not_lt.mp fun hlt => hcut ⟨hbyte, hlong, hlt⟩
    rw [if_neg hcut]
    exact ⟨fun h => .inr ⟨hfits, h⟩, fun h => h.elim (fun h => absurd h hcut) And.right⟩

theorem asserts_skipTlBytes (f : Unit → PacketM β) (s : PacketState) :
    Asserts (skipTlBytes >>= f) s ↔ CutAt s.stream s.offset ∨
      afterTlBytes s.stream s.offset ≤ s.stream.length ∧ Asserts (f ()) (s.at (afterTlBytes s.stream s.offset)) := by
  have hassoc : skipTlBytes >>= f = readTlLength >>= fun randLen => liftRead (skipPadded randLen) >>= f :=
    bind_assoc _ _ _
  have hskip : ∀ randLen (s : PacketState), runIn (liftRead (skipPadded randLen)) s =
      runIn (seek (s.offset + randLen + pad4 randLen)) s := fun _ _ => rfl
  have hle : afterTlLength s.stream s.offset ≤ afterTlBytes s.stream s.offset := by unfold afterTlBytes; omega
  rw [hassoc, asserts_readTlLength, asserts_bind_of_run ((hskip _ _).trans (runIn_seek _ _))]
  simp only [stream_at, offset_at, at_at]
  exact or_congr_right ⟨And.right, fun h => ⟨hle.trans h.1, h⟩⟩

theorem asserts_ite {c : Prop} [Decidable c] (m m' : PacketM α) (s : PacketState) :
    Asserts (if c then m else m') s ↔ c ∧ Asserts m s ∨ ¬c ∧ Asserts m' s := by
  split
  case isTrue hc => simp [hc]
  case isFalse hc => simp [hc]

end

/-! ## The lengths of the header -/

section
variable {β : Type} (s : PacketState)

theorem asserts_readCallID (flags : UInt32) (callID : Bytes) (f : Bool → PacketM β) :
    Asserts (liftRead (readCallID flags callID) >>= f) s ↔ afterCallID flags s.offset ≤ max s.offset s.stream.length ∧
      Asserts (f (sameCall flags callID s.stream s.offset)) (s.at (afterCallID flags s.offset)) := by
  unfold readCallID afterCallID
  by_cases hflag : flags &&& PFLAG_HAS_CALL_ID ≠ 0
  · have hrun := runIn_fixed (show 0 < 16 by decide) (fun bytes => bytes == callID) s
    rw [if_pos hflag, if_pos hflag, asserts_bind_of_run hrun]
    have heq : sameCall flags callID s.stream s.offset = (slice s.stream s.offset 16 == callID) := by
      simp only [sameCall, hflag, ne_eq, not_false_eq_true, true_imp_iff, beq_eq_decide]
    rw [← heq]
    exact and_congr_left' (by omega)
  · rw [if_neg hflag, if_neg hflag]
    have heq : sameCall flags callID s.stream s.offset = true :=
      decide_eq_true fun h => absurd h hflag
    rw [heq]
    exact ⟨fun h => ⟨le_max_left _ _, h⟩, fun h => h.2⟩

theorem asserts_readProtocol (flags : UInt32) (f : Bool → PacketM β) :
    Asserts (liftRead (readProtocol flags) >>= f) s ↔ afterProtocol flags s.offset ≤ max s.offset s.stream.length ∧
      Asserts (f (sameProtocol flags s.stream s.offset)) (s.at (afterProtocol flags s.offset)) := by
  unfold readProtocol afterProtocol
  by_cases hflag : flags &&& PFLAG_HAS_PROTO ≠ 0
  · have hassoc : BufferInputStream.readInt32 >>= (fun proto => Pure.pure (proto == PROTOCOL_NAME)) =
        BufferInputStream.readBytes 4 >>= fun bytes => Pure.pure ((⟨ofLeBits 32 bytes⟩ : UInt32) == PROTOCOL_NAME) := by
      unfold BufferInputStream.readInt32
      rw [bind_assoc]
      rfl
    have hrun := runIn_fixed (show 0 < 4 by decide) (fun bytes => (⟨ofLeBits 32 bytes⟩ : UInt32) == PROTOCOL_NAME) s
    rw [← hassoc] at hrun
    rw [if_pos hflag, if_pos hflag, asserts_bind_of_run hrun]
    have heq : sameProtocol flags s.stream s.offset = (uint32At s.stream s.offset == PROTOCOL_NAME) := by
      simp only [sameProtocol, hflag, ne_eq, not_false_eq_true, true_imp_iff]
      rfl
    rw [heq]
    exact and_congr_left' (by omega)
  · rw [if_neg hflag, if_neg hflag]
    have heq : sameProtocol flags s.stream s.offset = true :=
      decide_eq_true fun h => absurd h hflag
    rw [heq]
    exact ⟨fun h => ⟨le_max_left _ _, h⟩, fun h => h.2⟩

theorem asserts_skipExtra (flags : UInt32) (f : Unit → PacketM β) :
    Asserts (skipExtra flags >>= f) s ↔ flags &&& PFLAG_HAS_EXTRA ≠ 0 ∧ CutAt s.stream s.offset ∨
      afterExtra s.stream flags s.offset ≤ max s.offset s.stream.length ∧
        Asserts (f ()) (s.at (afterExtra s.stream flags s.offset)) := by
  have hlt := lt_afterTlBytes s.stream s.offset
  unfold skipExtra afterExtra
  by_cases hflag : flags &&& PFLAG_HAS_EXTRA ≠ 0
  · rw [if_pos hflag, if_pos hflag, asserts_skipTlBytes, and_iff_right hflag]
    exact or_congr_right (and_congr_left' (by omega))
  · rw [if_neg hflag, if_neg hflag]
    exact ⟨fun h => .inr ⟨le_max_left _ _, h⟩, fun h => h.elim (fun h => absurd h.1 hflag) And.right⟩

theorem asserts_readInnerLen (flags : UInt32) {f : Nat → PacketM β} (hf : ∀ n, Harmless (f n)) :
    Asserts (readInnerLen flags >>= f) s ↔ flags &&& PFLAG_HAS_DATA ≠ 0 ∧ CutAt s.stream s.offset := by
  unfold readInnerLen
  by_cases hflag : flags &&& PFLAG_HAS_DATA ≠ 0
  · rw [if_pos hflag, asserts_readTlLength, and_iff_right hflag]
    exact or_iff_left fun h => (hf _).not_asserts _ h.2
  · rw [if_neg hflag]
    exact ⟨fun h => absurd h ((hf 0).not_asserts s), fun h => absurd h.1 hflag⟩

theorem asserts_lastLengths (flags : UInt32) {f : Nat → PacketM β} (hf : ∀ n, Harmless (f n)) :
    Asserts (skipExtra flags >>= fun _ => readInnerLen flags >>= f) s ↔
      flags &&& PFLAG_HAS_EXTRA ≠ 0 ∧ CutAt s.stream s.offset ∨
        flags &&& PFLAG_HAS_DATA ≠ 0 ∧ CutAt s.stream (afterExtra s.stream flags s.offset) := by
  rw [asserts_skipExtra, asserts_readInnerLen _ _ hf]
  simp only [stream_at, offset_at]
  exact or_congr_right ⟨And.right, fun h => ⟨h.2.1.le.trans (le_max_right _ _), h⟩⟩

theorem asserts_readDecryptedBody (callID : Bytes) (flags : UInt32) :
    Asserts (readDecryptedBody callID flags) s ↔ CutBody callID s.stream flags s.offset := by
  have hdropped : ∀ s, ¬Asserts (failCall >>= fun _ => (Pure.pure none : PacketM (Option ReceivedHeader))) s :=
    (harmless_failCall.bind fun _ => .pure _).not_asserts
  have hnone : ¬Asserts (Pure.pure none : PacketM (Option ReceivedHeader)) s := (Harmless.pure _).not_asserts s
  have h₁ := le_afterCallID flags s.offset
  have h₂ := le_afterProtocol flags (afterCallID flags s.offset + 12)
  have h₃ := le_afterExtra s.stream flags (afterProtocol flags (afterCallID flags s.offset + 12))
  unfold readDecryptedBody CutBody
  simp only [asserts_ite, asserts_readCallID, asserts_readInt32, asserts_readProtocol,
    asserts_lastLengths _ _ fun _ => Harmless.pure _, hdropped, hnone, and_false, or_false]
  simp only [stream_at, offset_at]
  constructor
  · rintro ⟨hflags, -, hcall, -, -, -, -, hproto, hcut⟩
    exact ⟨hflags, hcall, hproto, hcut⟩
  · rintro ⟨hflags, hcall, hproto, hcut⟩
    -- A cut behind the numbers says that they are there.
    have hend : afterProtocol flags (afterCallID flags s.offset + 12) < s.stream.length := by
      rcases hcut with ⟨-, hcut⟩ | ⟨-, hcut⟩
      · exact hcut.1
      · exact lt_of_le_of_lt h₃ hcut.1
    have hcallID : afterCallID flags s.offset ≤ s.stream.length := by omega
    exact ⟨hflags, hcallID.trans (le_max_right _ _), hcall, by omega, by omega, by omega,
      hend.le.trans (le_max_right _ _), hproto, hcut⟩

variable {stream : Bytes}

theorem CutBody.lt_length {callID : Bytes} {flags : UInt32} {offset : Nat} (h : CutBody callID stream flags offset) :
    offset < stream.length := by
  have h₁ := le_afterCallID flags offset
  have h₂ := le_afterProtocol flags (afterCallID flags offset + 12)
  have h₃ := le_afterExtra stream flags (afterProtocol flags (afterCallID flags offset + 12))
  rcases h.2.2.2 with ⟨-, hcut⟩ | ⟨-, hcut⟩
  · have := hcut.1
    omega
  · have := hcut.1
    omega

theorem asserts_readDecryptedBlock (callID : Bytes) (hoff : s.offset = 4) :
    Asserts (readDecryptedBlock callID) s ↔ CutDecrypted callID s.stream := by
  have hlt := lt_afterTlBytes s.stream 12
  unfold readDecryptedBlock CutDecrypted
  rw [asserts_readInt64, asserts_skipTlBytes, asserts_readInt32, asserts_readDecryptedBody]
  simp only [stream_at, offset_at, hoff, Nat.reduceAdd]
  constructor
  · rintro ⟨-, hcut | ⟨-, -, hcut⟩⟩
    · exact .inl hcut
    · exact .inr hcut
  · rintro (hcut | hcut)
    · exact ⟨hcut.1.le, .inl hcut⟩
    · have := hcut.lt_length
      exact ⟨by omega, .inr ⟨by omega, by omega, hcut⟩⟩

theorem asserts_readSimpleBlock (peerVersion : Int32) (hoff : s.offset = 4) :
    Asserts (readSimpleBlock peerVersion) s ↔ CutSimple s.stream := by
  have hlt := lt_afterTlBytes s.stream 12
  unfold readSimpleBlock CutSimple
  rw [asserts_readInt64, asserts_skipTlBytes, asserts_readTlLength]
  simp only [stream_at, offset_at, hoff, Nat.reduceAdd]
  constructor
  · rintro ⟨-, hcut | ⟨-, hcut | ⟨-, hfields⟩⟩⟩
    · exact .inl hcut
    · exact .inr hcut
    · exact absurd hfields ((harmless_simpleFields peerVersion _).not_asserts _)
  · rintro (hcut | hcut)
    · exact ⟨hcut.1.le, .inl hcut⟩
    · have := hcut.1
      exact ⟨by omega, .inr ⟨by omega, .inl hcut⟩⟩

theorem CutDecrypted.lt_length {callID : Bytes} (h : CutDecrypted callID stream) : 12 < stream.length := by
  have hlt := lt_afterTlBytes stream 12
  rcases h with hcut | hcut
  · exact hcut.1
  · have := hcut.lt_length
    omega

theorem CutSimple.lt_length (h : CutSimple stream) : 12 < stream.length := by
  have hlt := lt_afterTlBytes stream 12
  rcases h with hcut | hcut
  · exact hcut.1
  · exact hlt.trans hcut.1

theorem asserts_readHeader (callID : Bytes) (peerVersion : Int32) (hoff : s.offset = 0) :
    Asserts (readHeader callID peerVersion) s ↔ CutLength callID s.stream := by
  have hnone := (Harmless.pure (none : Option ReceivedHeader)).not_asserts
  have hdecrypted := asserts_readDecryptedBlock (s.at (s.offset + 4)) callID (by rw [offset_at, hoff])
  have hsimple := asserts_readSimpleBlock (s.at (s.offset + 4)) peerVersion (by rw [offset_at, hoff])
  unfold readHeader CutLength
  rw [asserts_readInt32, asserts_ite, asserts_ite, hdecrypted, hsimple, stream_at, hoff]
  constructor
  · rintro ⟨-, htlid | ⟨-, htlid | ⟨-, hcut⟩⟩⟩
    · exact .inl htlid
    · exact .inr htlid
    · exact absurd hcut (hnone _)
  · rintro (⟨htlid, hcut⟩ | ⟨htlid, hcut⟩)
    · exact ⟨le_trans (by decide) hcut.lt_length.le, .inl ⟨htlid, hcut⟩⟩
    · refine ⟨le_trans (by decide) hcut.lt_length.le, .inr ⟨?_, .inl ⟨htlid, hcut⟩⟩⟩
      rw [htlid]
      decide

theorem asserts_readUpToType (crypto : SecretCrypto) (src : Endpoint) (now : Int) (hoff : s.offset = 0) :
    Asserts (readUpToType crypto src now) s ↔
      CutLength (callID crypto s.controller.cipher.encryptionKey) s.stream := by
  have hrest : ∀ header, Harmless (match header with
      | none => Pure.pure none
      | some header => processExtrasOf crypto src now header : PacketM (Option ReceivedHeader)) := by
    intro header
    split
    · exact .pure _
    · exact harmless_processExtrasOf crypto src now _
  have hcontroller : runIn controller s = (.ok s.controller, s) := rfl
  rw [← asserts_readHeader s _ s.controller.peerVersion hoff]
  unfold readUpToType
  rw [asserts_bind, hcontroller, or_iff_right (harmless_controller.not_asserts s)]
  constructor
  · rintro ⟨c, s', heq, hasserts⟩
    cases heq
    rw [asserts_bind] at hasserts
    refine hasserts.resolve_right ?_
    rintro ⟨header, s', -, hrest'⟩
    exact absurd hrest' ((hrest header).not_asserts s')
  · intro hasserts
    exact ⟨_, _, rfl, (asserts_bind _ _ _).mpr (.inl hasserts)⟩

end

/-! ## Where a piece of stream data ends -/

def hasLen16 (stream : Bytes) (offset : Nat) : Prop := (byteAt stream offset &&& 0xC0) &&& STREAM_DATA_FLAG_LEN16 ≠ 0

instance (stream : Bytes) (offset : Nat) : Decidable (hasLen16 stream offset) := inferInstanceAs (Decidable (_ ≠ _))

/-- Where the bytes of a piece begin, behind the byte of the stream, the length and the timestamp. -/
def pieceStart (stream : Bytes) (offset : Nat) : Nat := if hasLen16 stream offset then offset + 7 else offset + 6

def pieceEnd (stream : Bytes) (offset : Nat) : Nat :=
  pieceStart stream offset +
    if hasLen16 stream offset then (uint16At stream (offset + 1)).toNat else (byteAt stream (offset + 1)).toNat

/-- One of the next pieces ends behind the payload but not behind the datagram. -/
def OverreachAt (stream : Bytes) (memoryLen payloadLen : Nat) : Nat → Nat → Prop
  | 0, _ => False
  | n + 1, offset =>
    pieceStart stream offset ≤ stream.length ∧
      (payloadLen < pieceEnd stream offset ∧ pieceEnd stream offset ≤ memoryLen ∨
        pieceEnd stream offset ≤ payloadLen ∧ OverreachAt stream memoryLen payloadLen n (pieceEnd stream offset))

/-- The pieces of stream data handed out so far lie in the payload. -/
def InPayload (s : PacketState) : Prop :=
  ∀ input ∈ s.handled, input.packet.isEC = false → input.start + input.packet.data.length ≤ s.payloadLen

variable {s : PacketState}

theorem Grows.inPayload {s₀ : PacketState} (h : Grows s₀ s) (h₀ : InPayload s₀) : InPayload s := by
  obtain ⟨frames, heq, hEC⟩ := h.handled_eq
  intro input hm hdata
  rw [h.payloadLen_eq]
  rw [heq] at hm
  rcases mem_append.mp hm with hm | hm
  · exact h₀ input hm hdata
  · exact absurd (hEC input hm) (by rw [hdata]; decide)

def pieceInput (s : PacketState) : JitterInput :=
  let start := pieceStart s.stream s.offset
  ⟨start, slice s.memory start (pieceEnd s.stream s.offset - start), uint32At s.stream (start - 4), false⟩

/-- It is handed out when there is a jitter buffer for it. -/
def PacketState.played (s : PacketState) : PacketState :=
  if s.controller.canPlay then { s with handled := s.handled ++ [pieceInput s] } else s

theorem runIn_readDataLen (s : PacketState) : runIn (readDataLen (byteAt s.stream s.offset)) (s.at (s.offset + 1)) =
      if pieceStart s.stream s.offset ≤ s.stream.length + 4 then
        (.ok (pieceEnd s.stream s.offset - pieceStart s.stream s.offset), s.at (pieceStart s.stream s.offset - 4))
      else (.error .outOfRange, s.at (s.offset + 1)) := by
  unfold readDataLen pieceEnd pieceStart
  by_cases hlen : hasLen16 s.stream s.offset
  · have hflag : (byteAt s.stream s.offset &&& 0xC0) &&& STREAM_DATA_FLAG_LEN16 ≠ 0 := hlen
    have hread := runIn_readBytes (show 0 < 2 by decide) (s.at (s.offset + 1))
    rw [if_pos hflag, if_pos hlen, if_pos hlen, readInt16, bind_assoc, runIn_bind, hread]
    by_cases hfits : s.offset + 1 + 2 ≤ s.stream.length
    · rw [if_pos (show (s.at (s.offset + 1)).offset + 2 ≤ (s.at (s.offset + 1)).stream.length from hfits),
        if_pos (by omega), Nat.add_sub_cancel_left]
      rfl
    · rw [if_neg (show ¬(s.at (s.offset + 1)).offset + 2 ≤ (s.at (s.offset + 1)).stream.length from hfits),
        if_neg (by omega)]
  · have hflag : ¬(byteAt s.stream s.offset &&& 0xC0) &&& STREAM_DATA_FLAG_LEN16 ≠ 0 := hlen
    rw [if_neg hflag, if_neg hlen, if_neg hlen, runIn_bind, runIn_readByte]
    by_cases hfits : s.offset + 1 + 1 ≤ s.stream.length
    · rw [if_pos (show (s.at (s.offset + 1)).offset + 1 ≤ (s.at (s.offset + 1)).stream.length from hfits),
        if_pos (by omega), Nat.add_sub_cancel_left]
      rfl
    · rw [if_neg (show ¬(s.at (s.offset + 1)).offset + 1 ≤ (s.at (s.offset + 1)).stream.length from hfits),
        if_neg (by omega)]

def nextPiece (isLast : Bool) (offset : Nat) : PacketM Bool :=
  if isLast then return false
  else do
    seek offset
    return true

section
variable (s : PacketState)

@[simp] theorem stream_played : s.played.stream = s.stream := by unfold PacketState.played; split <;> rfl

@[simp] theorem memory_played : s.played.memory = s.memory := by unfold PacketState.played; split <;> rfl

@[simp] theorem payloadLen_played : s.played.payloadLen = s.payloadLen := by unfold PacketState.played; split <;> rfl

@[simp] theorem controller_played : s.played.controller = s.controller := by unfold PacketState.played; split <;> rfl

end

/-- What a piece does behind its length and timestamp. -/
def finishPiece (isLast : Bool) (sdlen : Nat) (pts : UInt32) : PacketM Bool := do
  let s ← get
  if s.memory.length < s.offset + sdlen then return false
  else do
    if s.controller.canPlay then handleInput ⟨s.offset, slice s.memory s.offset sdlen, pts, false⟩ else pure ()
    nextPiece isLast (s.offset + sdlen)

theorem streamDataPiece_eq (isLast : Bool) :
    streamDataPiece isLast = (do
      let streamID ← readByte
      let sdlen ← readDataLen streamID
      let pts ← readInt32
      finishPiece isLast sdlen pts) := rfl

section
variable (isLast : Bool) (s : PacketState)

theorem le_pieceStart (stream : Bytes) (offset : Nat) : offset + 6 ≤ pieceStart stream offset := by
  unfold pieceStart
  split <;> omega

theorem pieceStart_le_pieceEnd (stream : Bytes) (offset : Nat) : pieceStart stream offset ≤ pieceEnd stream offset := by
  unfold pieceEnd
  exact Nat.le_add_right _ _

theorem runIn_nextPiece (offset : Nat) : runIn (nextPiece isLast offset) s = if isLast then (.ok false, s)
      else if offset ≤ s.stream.length then (.ok true, s.at offset) else (.error .outOfRange, s) := by
  unfold nextPiece
  cases isLast with
  | true => rfl
  | false =>
    rw [if_neg Bool.false_ne_true, if_neg Bool.false_ne_true, runIn_bind, runIn_seek]
    by_cases hfits : offset ≤ s.stream.length
    · rw [if_pos hfits, if_pos hfits]
      rfl
    · rw [if_neg hfits, if_neg hfits]

theorem runIn_streamDataPiece_of_cut (h : ¬pieceStart s.stream s.offset ≤ s.stream.length) :
    ∃ offset, runIn (streamDataPiece isLast) s = (.error .outOfRange, s.at offset) := by
  have hle := le_pieceStart s.stream s.offset
  rw [streamDataPiece_eq, runIn_bind, runIn_readByte]
  by_cases hbyte : s.offset + 1 ≤ s.stream.length
  case neg => exact ⟨s.offset, by rw [if_neg hbyte]; rfl⟩
  rw [if_pos hbyte]
  dsimp only
  rw [runIn_bind, runIn_readDataLen]
  by_cases hlen : pieceStart s.stream s.offset ≤ s.stream.length + 4
  case neg => exact ⟨s.offset + 1, by rw [if_neg hlen]⟩
  rw [if_pos hlen]
  dsimp only
  rw [runIn_bind, runIn_readInt32, if_neg (by rw [offset_at, stream_at]; omega)]
  exact ⟨_, rfl⟩

section
variable (h : pieceStart s.stream s.offset ≤ s.stream.length)
include h

theorem runIn_streamDataPiece : runIn (streamDataPiece isLast) s =
      runIn (finishPiece isLast (pieceEnd s.stream s.offset - pieceStart s.stream s.offset)
        (uint32At s.stream (pieceStart s.stream s.offset - 4))) (s.at (pieceStart s.stream s.offset)) := by
  have hle := le_pieceStart s.stream s.offset
  rw [streamDataPiece_eq, runIn_bind, runIn_readByte, if_pos (by omega)]
  dsimp only
  rw [runIn_bind, runIn_readDataLen, if_pos (by omega)]
  dsimp only
  rw [runIn_bind, runIn_readInt32, if_pos (by rw [offset_at, stream_at]; omega)]
  dsimp only
  rw [at_at, offset_at, stream_at, Nat.sub_add_cancel (by omega)]

theorem runIn_streamDataPiece_of_long (hlong : s.memory.length < pieceEnd s.stream s.offset) :
    runIn (streamDataPiece isLast) s = (.ok false, s.at (pieceStart s.stream s.offset)) := by
  have hle := pieceStart_le_pieceEnd s.stream s.offset
  rw [runIn_streamDataPiece isLast s h, finishPiece, runIn_bind, runIn_get]
  dsimp only
  rw [if_pos (by rw [memory_at, offset_at]; omega)]
  rfl

theorem runIn_streamDataPiece_of_fits (hfits : pieceEnd s.stream s.offset ≤ s.memory.length) :
    runIn (streamDataPiece isLast) s =
      runIn (nextPiece isLast (pieceEnd s.stream s.offset)) (s.played.at (pieceStart s.stream s.offset)) := by
  have hle := pieceStart_le_pieceEnd s.stream s.offset
  have hend : pieceStart s.stream s.offset + (pieceEnd s.stream s.offset - pieceStart s.stream s.offset) =
      pieceEnd s.stream s.offset := Nat.add_sub_cancel' hle
  rw [runIn_streamDataPiece isLast s h, finishPiece, runIn_bind, runIn_get]
  dsimp only
  rw [if_neg (by rw [memory_at, offset_at]; omega)]
  unfold PacketState.played
  by_cases hplay : s.controller.canPlay
  · rw [controller_at, if_pos hplay, if_pos hplay, runIn_bind, offset_at, hend]
    rfl
  · rw [controller_at, if_neg hplay, if_neg hplay, offset_at, hend]

end

end

section
variable {I : PacketState → Prop} (hat : ∀ s offset, I s → I (s.at offset))
  (hinput : ∀ s input, I s → I { s with handled := s.handled ++ [input] })
include hat

theorem keeps_liftRead {α : Type} (p : ReadM α) : Keeps I (· = .outOfRange) (liftRead p) := by
  intro s hs
  rw [runIn_liftRead]
  rcases p.run ⟨s.stream, s.offset⟩ with e | ⟨a, c⟩
  · exact ⟨rfl, hs⟩
  · exact hat s c.offset hs

theorem keeps_nextPiece (isLast : Bool) (offset : Nat) : Keeps I (· = .outOfRange) (nextPiece isLast offset) :=
  Keeps.ite (Keeps.pure _) ((keeps_liftRead hat _).bind fun _ => Keeps.pure _)

include hinput

theorem keeps_finishPiece (isLast : Bool) (sdlen : Nat) (pts : UInt32) :
    Keeps I (· = .outOfRange) (finishPiece isLast sdlen pts) := by
  refine Keeps.get.bind fun s => Keeps.ite (Keeps.pure _) ?_
  have hnext := keeps_nextPiece hat isLast (s.offset + sdlen)
  exact Keeps.ite ((Keeps.modify fun s hs => hinput s _ hs).bind fun _ => hnext) hnext

theorem keeps_streamDataPieces (n : Nat) : Keeps I (· = .outOfRange) (streamDataPieces n) := by
  have hlen : ∀ streamID, Keeps I (· = .outOfRange) (readDataLen streamID) := fun streamID =>
    Keeps.ite (((keeps_liftRead hat _).bind fun _ => Keeps.pure _).bind fun _ => Keeps.pure _)
      ((keeps_liftRead hat _).bind fun _ => Keeps.pure _)
  induction n with
  | zero => exact Keeps.pure _
  | succ n ih =>
    refine Keeps.bind ?_ fun more => Keeps.ite ih (Keeps.pure _)
    rw [streamDataPiece_eq]
    refine (keeps_liftRead hat _).bind fun streamID => (hlen streamID).bind fun sdlen => ?_
    exact (keeps_liftRead hat _).bind fun pts => keeps_finishPiece hat hinput _ sdlen pts

end

theorem keeps_not_inPayload (n : Nat) : Keeps (fun s => ¬InPayload s) (· = .outOfRange) (streamDataPieces n) :=
  keeps_streamDataPieces (fun _ _ h => h)
    (fun _ _ h hall => h fun input' hm => hall input' (mem_append_left _ hm)) n

theorem streamDataPieces_succ (n : Nat) (s : PacketState) :
    runIn (streamDataPieces (n + 1)) s =
      match runIn (streamDataPiece (n == 0)) s with
      | (.ok more, s') => runIn (if more then streamDataPieces n else return) s'
      | (.error e, s') => (.error e, s') := by
  rw [streamDataPieces, runIn_bind]
  rcases runIn (streamDataPiece (n == 0)) s with ⟨e | more, s'⟩
  · rfl
  · rfl

theorem runIn_streamDataPieces_of_fits (n : Nat) (s : PacketState)
    (h : pieceStart s.stream s.offset ≤ s.stream.length) (hfits : pieceEnd s.stream s.offset ≤ s.stream.length)
    (hmemory : s.stream.length ≤ s.memory.length) :
    ∃ offset, runIn (streamDataPieces (n + 1)) s = runIn (streamDataPieces n) (s.played.at offset) ∧
      (n ≠ 0 → offset = pieceEnd s.stream s.offset) := by
  rw [streamDataPieces_succ, runIn_streamDataPiece_of_fits _ s h (hfits.trans hmemory), runIn_nextPiece]
  cases n with
  | zero => exact ⟨_, rfl, fun h => absurd rfl h⟩
  | succ n =>
    refine ⟨pieceEnd s.stream s.offset, ?_, fun _ => rfl⟩
    rw [if_neg (by simp), stream_at, stream_played, if_pos hfits]
    rfl

theorem runIn_streamDataPieces_of_last (n : Nat) (s : PacketState)
    (h : pieceStart s.stream s.offset ≤ s.stream.length) (hlast : ¬pieceEnd s.stream s.offset ≤ s.stream.length) :
    (runIn (streamDataPieces (n + 1)) s).2 =
      if pieceEnd s.stream s.offset ≤ s.memory.length then s.played.at (pieceStart s.stream s.offset)
      else s.at (pieceStart s.stream s.offset) := by
  rw [streamDataPieces_succ]
  by_cases hfits : pieceEnd s.stream s.offset ≤ s.memory.length
  · rw [if_pos hfits, runIn_streamDataPiece_of_fits _ s h hfits, runIn_nextPiece]
    cases n with
    | zero => rfl
    | succ n =>
      rw [if_neg (by simp), stream_at, stream_played, if_neg hlast]
  · rw [if_neg hfits, runIn_streamDataPiece_of_long _ s h (by omega)]
    rfl

section
variable {s : PacketState} (h : InPayload s)
include h

theorem inPayload_played (hfits : pieceEnd s.stream s.offset ≤ s.payloadLen) : InPayload s.played := by
  have hle := pieceStart_le_pieceEnd s.stream s.offset
  unfold PacketState.played
  by_cases hplay : s.controller.canPlay
  case neg =>
    rw [if_neg hplay]
    exact h
  rw [if_pos hplay]
  intro input hm hdata
  rcases mem_append.mp hm with hm | hm
  · exact h input hm hdata
  · rw [mem_singleton.mp hm]
    have hlen : (slice s.memory (pieceStart s.stream s.offset)
        (pieceEnd s.stream s.offset - pieceStart s.stream s.offset)).length ≤
        pieceEnd s.stream s.offset - pieceStart s.stream s.offset := length_take_le _ _
    change pieceStart s.stream s.offset + _ ≤ s.payloadLen
    dsimp only [pieceInput]
    omega

omit h in
theorem not_inPayload_played (hplay : s.controller.canPlay) (hfits : pieceEnd s.stream s.offset ≤ s.memory.length)
    (hover : s.payloadLen < pieceEnd s.stream s.offset) : ¬InPayload s.played := by
  have hle := pieceStart_le_pieceEnd s.stream s.offset
  unfold PacketState.played
  rw [if_pos hplay]
  intro hall
  have hpiece := hall (pieceInput s) (mem_append_right _ (mem_singleton_self _)) rfl
  dsimp only [pieceInput] at hpiece
  rw [length_slice (by omega)] at hpiece
  omega

theorem inPayload_played_of_not_canPlay (hplay : ¬s.controller.canPlay) : InPayload s.played := by
  unfold PacketState.played
  rw [if_neg hplay]
  exact h

end

theorem inPayload_streamDataPieces_iff (n : Nat) (h : InPayload s) (hpay : s.payloadLen ≤ s.stream.length)
    (hmemory : s.stream.length ≤ s.memory.length) : InPayload (runIn (streamDataPieces n) s).2 ↔
      ¬(s.controller.canPlay ∧ OverreachAt s.stream s.memory.length s.payloadLen n s.offset) := by
  induction n generalizing s with
  | zero => exact ⟨fun _ hover => hover.2, fun _ => h⟩
  | succ n ih =>
    unfold OverreachAt
    by_cases hstart : pieceStart s.stream s.offset ≤ s.stream.length
    case neg =>
      obtain ⟨offset, hrun⟩ := runIn_streamDataPiece_of_cut (n == 0) s hstart
      rw [streamDataPieces_succ, hrun]
      exact ⟨fun _ hover => hstart hover.2.1, fun _ => h⟩
    by_cases hfits : pieceEnd s.stream s.offset ≤ s.stream.length
    case neg =>
      have hover : s.payloadLen < pieceEnd s.stream s.offset := by omega
      have hnext : ¬pieceEnd s.stream s.offset ≤ s.payloadLen := Nat.not_le.mpr hover
      rw [runIn_streamDataPieces_of_last n s hstart hfits]
      by_cases hm : pieceEnd s.stream s.offset ≤ s.memory.length
      · rw [if_pos hm]
        refine ⟨fun hall hplay => not_inPayload_played hplay.1 hm hover hall, fun hplay => ?_⟩
        exact inPayload_played_of_not_canPlay h fun hcan => hplay ⟨hcan, hstart, .inl ⟨hover, hm⟩⟩
      · rw [if_neg hm]
        refine ⟨fun _ hplay => ?_, fun _ => h⟩
        exact hplay.2.2.elim (fun hreach => hm hreach.2) fun hreach => hnext hreach.1
    obtain ⟨offset, hrun, hoff⟩ := runIn_streamDataPieces_of_fits n s hstart hfits hmemory
    rw [hrun]
    have hrest : InPayload s.played → (InPayload (runIn (streamDataPieces n) (s.played.at offset)).2 ↔
        ¬(s.controller.canPlay ∧ OverreachAt s.stream s.memory.length s.payloadLen n offset)) := by
      intro hplayed
      have hiff := ih (s := s.played.at offset) hplayed (by simpa using hpay) (by simpa using hmemory)
      simpa only [controller_at, controller_played, stream_at, stream_played, memory_at, memory_played, payloadLen_at,
        payloadLen_played, offset_at] using hiff
    by_cases hover : s.payloadLen < pieceEnd s.stream s.offset
    · by_cases hplay : s.controller.canPlay
      · -- What has been handed out is not taken back.
        have hkept := keeps_not_inPayload n (s.played.at offset)
          (not_inPayload_played hplay (hfits.trans hmemory) hover)
        have hnot : ¬InPayload (runIn (streamDataPieces n) (s.played.at offset)).2 := by
          rcases hrun' : runIn (streamDataPieces n) (s.played.at offset) with ⟨e | a, s'⟩
          · rw [hrun'] at hkept
            exact hkept.2
          · rw [hrun'] at hkept
            exact hkept
        exact ⟨fun hall => absurd hall hnot, fun hno => absurd ⟨hplay, hstart, .inl ⟨hover, hfits.trans hmemory⟩⟩ hno⟩
      · rw [hrest (inPayload_played_of_not_canPlay h hplay)]
        exact ⟨fun _ hplay' => hplay hplay'.1, fun _ hplay' => hplay hplay'.1⟩
    · have hend : pieceEnd s.stream s.offset ≤ s.payloadLen := Nat.not_lt.mp hover
      rw [hrest (inPayload_played h hend)]
      refine not_congr (and_congr_right fun _ => ?_)
      rw [and_iff_right hstart, or_iff_right fun hreach => hover hreach.1, and_iff_right hend]
      cases n with
      | zero => exact Iff.rfl
      | succ n => rw [hoff n.succ_ne_zero]

/-! ## The whole function -/

/-- It returns or raises `std::out_of_range`, and the jitter buffers only get bytes of the payload. -/
structure IsSafe (r : Except PacketFault Unit × PacketState) : Prop where
  fault_eq : ∀ e, r.1 = .error e → e = .outOfRange
  inPayload : InPayload r.2

section
variable (crypto : SecretCrypto) (src : Endpoint) (now : Int)

/-- The packet carries stream data, which is played, and one of its pieces overreaches. -/
def Overreach (s : PacketState) : Prop :=
  ∃ header s', runIn (readUpToType crypto src now) s = (.ok (some header), s') ∧ s'.controller.canPlay ∧
    OverreachAt s.stream s.memory.length s.payloadLen (streamDataCount header.type) s'.offset

variable {crypto src now}

variable {s : PacketState}

theorem Harmless.isSafe {m : PacketM Unit} (hm : Harmless m) (h : InPayload s) : IsSafe (runIn m s) := by
  have hrun := hm s s (Grows.refl s)
  rcases heq : runIn m s with ⟨e | a, s'⟩
  · rw [heq] at hrun
    refine ⟨fun e' he => ?_, hrun.2.inPayload h⟩
    cases he
    exact hrun.1
  · rw [heq] at hrun
    exact ⟨fun _ he => (nomatch he), hrun.inPayload h⟩

theorem isSafe_streamDataPieces_iff (n : Nat) (h : InPayload s) (hpay : s.payloadLen ≤ s.stream.length)
    (hmemory : s.stream.length ≤ s.memory.length) : IsSafe (runIn (streamDataPieces n) s) ↔
      ¬(s.controller.canPlay ∧ OverreachAt s.stream s.memory.length s.payloadLen n s.offset) := by
  rw [← inPayload_streamDataPieces_iff n h hpay hmemory]
  refine ⟨IsSafe.inPayload, fun hin => ⟨fun e he => ?_, hin⟩⟩
  have hrun := keeps_streamDataPieces (I := fun _ => True) (fun _ _ _ => trivial) (fun _ _ _ => trivial) n s trivial
  rcases heq : runIn (streamDataPieces n) s with ⟨e' | a, s'⟩
  · rw [heq] at hrun he
    cases he
    exact hrun.1
  · rw [heq] at he
    cases he

/-- The peer is heard: the state of the call when the pieces are read. -/
def established (s : PacketState) : PacketState :=
  { s with
    controller :=
      if s.controller.receivedInitAck then
        { s.controller with cipher := { s.controller.cipher with state := .established } }
      else s.controller }

theorem canPlay_established (s : PacketState) : (established s).controller.canPlay = s.controller.canPlay := by
  unfold established
  dsimp only
  split <;> rfl

theorem isSafe_processType_iff (header : ReceivedHeader) (h : InPayload s) (hpay : s.payloadLen ≤ s.stream.length)
    (hmemory : s.stream.length ≤ s.memory.length) : IsSafe (runIn (processType header) s) ↔ ¬(s.controller.canPlay ∧
      OverreachAt s.stream s.memory.length s.payloadLen (streamDataCount header.type) s.offset) := by
  by_cases hcnt : streamDataCount header.type = 0
  · rw [hcnt]
    exact ⟨fun _ hover => hover.2, fun _ => (harmless_processType hcnt).isSafe h⟩
  · have hrun : runIn (processType header) s = runIn (streamDataPieces (streamDataCount header.type)) (established s) := by
      rw [processType_of_streamData hcnt, processStreamData, runIn_bind]
      rfl
    rw [hrun, isSafe_streamDataPieces_iff _ (s := established s) h hpay hmemory, canPlay_established]
    rfl

theorem isSafe_processPacket_iff (hoff : s.offset = 0) (h : InPayload s)
    (hpay : s.payloadLen ≤ s.stream.length) (hmemory : s.stream.length ≤ s.memory.length) :
    IsSafe (runIn (processPacket crypto src now) s) ↔
      ¬(CutLength (callID crypto s.controller.cipher.encryptionKey) s.stream ∨ Overreach crypto src now s) := by
  have hquiet := quiet_readUpToType crypto src now s s (Grows.refl s)
  have hasserts := asserts_readUpToType s crypto src now hoff
  unfold Asserts at hasserts
  unfold processPacket Overreach
  rw [runIn_bind]
  rcases hread : runIn (readUpToType crypto src now) s with ⟨e | header, s'⟩
  · rw [hread] at hquiet hasserts
    rw [← hasserts]
    have hno : ¬∃ header s'', ((.error e, s') : Except PacketFault (Option ReceivedHeader) × PacketState) =
        (.ok (some header), s'') ∧ s''.controller.canPlay ∧
        OverreachAt s.stream s.memory.length s.payloadLen (streamDataCount header.type) s''.offset := by
      rintro ⟨header, s'', heq, -⟩
      cases heq
    rw [or_iff_left hno]
    constructor
    · intro hsafe hassert
      exact absurd (hsafe.fault_eq e rfl) (by injection hassert with he; rw [he]; decide)
    · intro hassert
      refine ⟨fun e' he => ?_, hquiet.2.inPayload h⟩
      cases he
      cases e with
      | outOfRange => rfl
      | assertion => exact absurd rfl hassert
      | unalignedLength => exact absurd rfl hquiet.1
  · rw [hread] at hquiet hasserts
    have hgrows : Grows s s' := hquiet
    rw [← hasserts, or_iff_right (by simp)]
    cases header with
    | none =>
      refine ⟨fun _ hover => ?_, fun _ => (Harmless.pure ()).isSafe (hgrows.inPayload h)⟩
      obtain ⟨header, s'', heq, -⟩ := hover
      cases heq
    | some header =>
      have hiff := isSafe_processType_iff header (hgrows.inPayload h)
        (by rw [hgrows.payloadLen_eq, hgrows.stream_eq]; exact hpay)
        (by rw [hgrows.stream_eq, hgrows.memory_eq]; exact hmemory)
      rw [hgrows.payloadLen_eq, hgrows.stream_eq, hgrows.memory_eq] at hiff
      refine hiff.trans (not_congr ⟨fun hover => ⟨header, s', rfl, hover⟩, ?_⟩)
      rintro ⟨header', s'', heq, hover⟩
      cases heq
      exact hover

end

section
variable (crypto : SecretCrypto) (src : Endpoint) (now : Int)

/-- The datagram has the right tag, is no answer of a relay and is long enough. -/
def ReachesDecryption (c : CallCipher) (datagram : Bytes) : Prop :=
  slice datagram 0 16 = c.tag crypto src ∧
    ¬(16 ≤ datagram.length - 16 ∧ src.isRelay ∧ slice datagram 16 12 = replicate 12 0xFF) ∧
    40 ≤ datagram.length - 16

def Misread (c : ControllerState) (datagram : Bytes) : Prop :=
  ∃ stream v2, openDatagram crypto c.cipher datagram = .opened stream v2 ∧
    (CutLength (callID crypto c.cipher.encryptionKey) stream ∨
      Overreach crypto src now (openedState crypto c datagram stream v2))

variable {crypto}

variable {c : CallCipher} {stream : Bytes} {v2 : Bool}

theorem mode_of_checkDecrypted2 {msgKey decrypted : Bytes}
    (h : checkDecrypted2 crypto c msgKey decrypted = .opened stream v2) : v2 = true := by
  unfold checkDecrypted2 at h
  rw [← offset_not] at h
  dsimp only at h
  split at h
  · cases h
  split at h
  · cases h
  split at h
  · cases h
  · injection h with _ hv2
    exact hv2.symm

variable {datagram : Bytes}

theorem mode_of_openPacket2 (h : openPacket2 crypto c datagram = .opened stream v2) : v2 = true := by
  unfold openPacket2 at h
  dsimp only at h
  split at h
  · cases h
  split at h
  · cases h
  · exact mode_of_checkDecrypted2 h

theorem eq_drop_of_openPacket (h : openPacket crypto c datagram = .opened stream false) :
    stream = (c.decrypted crypto false (CallCipher.receivedMsgKey datagram) (datagram.drop (16 + 8 + 16))).drop 4 := by
  unfold openPacket at h
  rw [← offset_not] at h
  dsimp only at h
  split at h
  · cases h
  split at h
  · split at h
    · cases mode_of_openPacket2 h
    · cases h
  · injection h with hstream _
    exact hstream.symm

theorem mode_of_openDatagram (h : openDatagram crypto c datagram = .opened stream false) :
    openPacket crypto c datagram = .opened stream false := by
  unfold openDatagram at h
  split at h
  · cases mode_of_openPacket2 h
  · exact h

theorem payloadLen_le (c : ControllerState) (h : openDatagram crypto c.cipher datagram = .opened stream v2) :
    (openedState crypto c datagram stream v2).payloadLen ≤ stream.length := by
  cases v2 with
  | true => exact le_rfl
  | false =>
    rw [eq_drop_of_openPacket (mode_of_openDatagram h), length_drop]
    exact Nat.min_le_right _ _

theorem length_le_memory (c : ControllerState) (datagram stream : Bytes) (v2 : Bool) :
    stream.length ≤ (openedState crypto c datagram stream v2).memory.length := by
  cases v2 with
  | true => exact (Nat.le_add_right _ _).trans_eq length_append.symm
  | false => exact le_rfl

variable (crypto)

/-- A datagram is read safely unless it is decrypted without being whole blocks, ends within a length of its header, or
has a piece of stream data that ends behind the payload but not behind the datagram. -/
theorem processDatagram_safe_iff (c : ControllerState) (datagram : Bytes) :
    IsSafe (processDatagram crypto src now c datagram) ↔
      ¬(ReachesDecryption crypto src c.cipher datagram ∧
        (IsUnaligned crypto c.cipher datagram ∨ Misread crypto src now c datagram)) := by
  have hnothing : IsSafe (.ok (), rawState c datagram) := ⟨fun _ he => (nomatch he), fun _ hmem => (nomatch hmem)⟩
  unfold processDatagram ReachesDecryption
  split
  case isTrue htag => exact ⟨fun _ h => htag h.1.1, fun _ => hnothing⟩
  case isFalse htag =>
  split
  case isTrue hrelay =>
    exact ⟨fun _ h => h.1.2.1 hrelay, fun _ => (harmless_processRelayResponse src).isSafe fun _ hmem => (nomatch hmem)⟩
  case isFalse hrelay =>
  split
  case isTrue hshort => exact ⟨fun _ h => absurd hshort (Nat.not_lt.mpr h.1.2.2), fun _ => hnothing⟩
  case isFalse hshort =>
  rw [and_iff_right ⟨not_not.mp htag, hrelay, Nat.not_lt.mp hshort⟩]
  split
  case isTrue hunaligned =>
    exact ⟨fun hsafe => absurd (hsafe.fault_eq _ rfl) (by decide), fun h => absurd (.inl hunaligned) h⟩
  case isFalse hunaligned =>
  rw [or_iff_right hunaligned]
  unfold Misread
  split
  case h_1 stream v2 hopened =>
    have hiff : IsSafe (runIn (processPacket crypto src now) (openedState crypto c datagram stream v2)) ↔ _ :=
      isSafe_processPacket_iff rfl (fun _ hmem => (nomatch hmem)) (payloadLen_le c hopened)
        (length_le_memory c datagram stream v2)
    refine hiff.trans (not_congr ⟨fun h => ⟨stream, v2, hopened, h⟩, ?_⟩)
    rintro ⟨stream', v2', heq, h⟩
    rw [hopened] at heq
    cases heq
    exact h
  case h_2 hnot => exact ⟨fun _ ⟨stream, v2, heq, _⟩ => hnot stream v2 heq, fun _ => hnothing⟩

end

/-! ## Three datagrams that are misread -/

theorem processDatagram_of_opened {crypto : SecretCrypto} {src : Endpoint} {c : ControllerState} {datagram stream : Bytes}
    {v2 : Bool} (now : Int) (h : processIncomingPacket crypto c.cipher src datagram = .opened stream v2)
    (hblocks : (datagram.drop (16 + 8 + 16)).length % 16 = 0) : processDatagram crypto src now c datagram =
      runIn (processPacket crypto src now) (openedState crypto c datagram stream v2) := by
  have hopen : processIncomingPacket crypto c.cipher src datagram =
      if slice datagram 0 16 ≠ c.cipher.tag crypto src then .dropped .wrongPeerTag
      else if 16 ≤ datagram.length - 16 ∧ src.isRelay ∧ slice datagram 16 12 = replicate 12 0xFF then .relayResponse
      else if datagram.length - 16 < 40 then .dropped .tooSmall
      else openDatagram crypto c.cipher datagram := rfl
  rw [hopen] at h
  unfold processDatagram
  split at h
  · cases h
  case isFalse htag =>
  rw [if_neg htag]
  split at h
  · cases h
  case isFalse hrelay =>
  rw [if_neg hrelay]
  split at h
  · cases h
  case isFalse hshort =>
  rw [if_neg hshort, if_neg fun hunaligned => hunaligned.2.2 hblocks, h]

def unalignedDatagram : Bytes :=
  CallCipher.receiver.parts residueCrypto (CallCipher.receiver.tag residueCrypto directEndpoint) (replicate 16 0)
    (replicate 17 0)

/-- A simple block that ends behind the first byte of a length. -/
def cutStream : Bytes := leBits TLID_SIMPLE_AUDIO_BLOCK.toBitVec ++ replicate 8 0 ++ [254]

/-- A simple block with a piece of 20 bytes, none of which are there. -/
def shortStream : Bytes :=
  leBits TLID_SIMPLE_AUDIO_BLOCK.toBitVec ++ replicate 12 0 ++ [19, 4] ++ leBits (0 : UInt32).toBitVec ++
    leBits (1 : UInt32).toBitVec ++ leBits (0 : UInt32).toBitVec ++ [1, 20] ++ leBits (0 : UInt32).toBitVec

/-- Padded to `length` bytes. -/
def paddedTo (length : Nat) (stream : Bytes) : Bytes :=
  leBytes 4 stream.length ++ stream ++ replicate (length - 4 - stream.length) 7

def datagramWith (length : Nat) (stream : Bytes) : Bytes :=
  CallCipher.receiver.datagramFor residueCrypto directEndpoint (paddedTo length stream)

section
variable {length : Nat} {stream : Bytes}

theorem length_paddedTo (hlen : stream.length + 12 ≤ length) : (paddedTo length stream).length = length := by
  simp only [paddedTo, length_append, length_leBytes, length_replicate]
  omega

theorem innerLen_paddedTo (hmax : stream.length < 2 ^ 32) :
    innerLen (paddedTo length stream) = stream.length := by
  have hslice := slice_append_middle [] (leBytes 4 stream.length)
    (stream ++ replicate (length - 4 - stream.length) 7)
  rw [length_leBytes, nil_append, ← append_assoc, length_nil] at hslice
  rw [innerLen, paddedTo, hslice, ofLeBits, ofLe_leBytes, BitVec.toNat_ofNat]
  omega

theorem slice_paddedTo : slice (paddedTo length stream) 4 stream.length = stream := by
  have hslice := slice_append_middle (leBytes 4 stream.length) stream (replicate (length - 4 - stream.length) 7)
  rwa [length_leBytes] at hslice

theorem processDatagram_datagramWith (hlen : stream.length + 12 ≤ length) (hmod : length % 16 = 0)
    (hmax : length ≤ 1500) :
    processDatagram residueCrypto directEndpoint 0 callController (datagramWith length stream) =
      runIn (processPacket residueCrypto directEndpoint 0)
        (openedState residueCrypto callController (datagramWith length stream) stream true) := by
  have hlength := length_paddedTo hlen
  have hne : paddedTo length stream ≠ [] := ne_nil_of_length_pos (by omega)
  have hinner : innerLen (paddedTo length stream) = stream.length := innerLen_paddedTo (by omega)
  have hopened := CallCipher.checkDecrypted2_of_innerLen residueCrypto CallCipher.receiver
    (by rw [hinner, hlength]; omega) (by rw [hinner, hlength]; omega)
  rw [hinner, slice_paddedTo, ← CallCipher.processIncomingPacket_datagramFor residueCrypto CallCipher.receiver
    directEndpoint hne (by rw [hlength, hmod]) rfl rfl (by rw [hlength]; exact hmax)] at hopened
  refine processDatagram_of_opened 0 hopened ?_
  have hdrop := (slice_parts residueCrypto (CallCipher.receiver.bodyFor residueCrypto (paddedTo length stream))
    (length_tag residueCrypto CallCipher.receiver directEndpoint)
    (length_msgKeyFor residueCrypto CallCipher.receiver (paddedTo length stream)) CallCipher.receiver).2.2.2
  rw [datagramWith, datagramFor, hdrop, length_bodyFor residueCrypto _ hne (by rw [hlength, hmod]),
    hlength, hmod]

theorem length_datagramWith (hlen : stream.length + 12 ≤ length) (hmod : length % 16 = 0) :
    (datagramWith length stream).length = 40 + length := by
  have hlength := length_paddedTo hlen
  have hne : paddedTo length stream ≠ [] := ne_nil_of_length_pos (by omega)
  have hfp : (keyFingerprint residueCrypto CallCipher.receiver.encryptionKey).length = 8 :=
    MtProto.length_slice_block _ (by decide)
  rw [datagramWith, datagramFor, CallCipher.parts]
  simp only [length_append, length_tag, hfp, length_msgKeyFor,
    length_bodyFor residueCrypto _ hne (show (paddedTo length stream).length % 16 = 0 by rw [hlength, hmod]),
    hlength]
  omega

end

theorem not_isSafe_unaligned :
    ¬IsSafe (processDatagram residueCrypto directEndpoint 0 callController unalignedDatagram) := by
  obtain ⟨htag, hfp, -, hbody⟩ := slice_parts residueCrypto (replicate 17 0)
    (length_tag residueCrypto CallCipher.receiver directEndpoint)
    (show (replicate 16 (0 : UInt8)).length = 16 from rfl) CallCipher.receiver
  have hlen : unalignedDatagram.length - (16 + 8 + 16) = 17 := by
    rw [← length_drop, unalignedDatagram, hbody]
    rfl
  have hunaligned : IsUnaligned residueCrypto callController.cipher unalignedDatagram := by
    refine ⟨hfp, fun _ => ?_, ?_⟩
    · rw [length_drop, hlen]
      decide
    · rw [length_drop, hlen]
      decide
  have hdirect : ¬(16 ≤ unalignedDatagram.length - 16 ∧ directEndpoint.isRelay ∧
      slice unalignedDatagram 16 12 = replicate 12 0xFF) := fun h => absurd h.2.1 (by decide)
  have htag' : slice unalignedDatagram 0 16 = callController.cipher.tag residueCrypto directEndpoint := htag
  intro hsafe
  rw [processDatagram, if_neg (not_not.mpr htag'), if_neg hdirect, if_neg (by omega), if_pos hunaligned] at hsafe
  exact absurd (hsafe.fault_eq _ rfl) (by decide)

theorem not_isSafe_cut :
    ¬IsSafe (processDatagram residueCrypto directEndpoint 0 callController (datagramWith 32 cutStream)) := by
  rw [processDatagram_datagramWith (by decide) (by decide) (by decide),
    isSafe_processPacket_iff rfl (fun _ hm => (not_mem_nil hm).elim) le_rfl (length_le_memory _ _ _ true)]
  exact not_not.mpr (.inl (.inr ⟨by decide, .inl (by decide)⟩))

theorem overreach_of {crypto : SecretCrypto} {src : Endpoint} {now : Int} (type : UInt8) (offset : Nat)
    (hread : ((runIn (readUpToType crypto src now) s).1.toOption.join.map ReceivedHeader.type,
      (runIn (readUpToType crypto src now) s).2.offset,
      (runIn (readUpToType crypto src now) s).2.controller.canPlay) = (some type, offset, true))
    (hover : OverreachAt s.stream s.memory.length s.payloadLen (streamDataCount type) offset) :
    Overreach crypto src now s := by
  rcases hrun : runIn (readUpToType crypto src now) s with ⟨e | (_ | header), s'⟩
  all_goals rw [hrun] at hread
  · cases congrArg Prod.fst hread
  · cases congrArg Prod.fst hread
  · injection hread with hty hrest
    injection hrest with hoff hplay
    injection hty with hty
    subst hty hoff
    exact ⟨header, s', hrun, hplay, hover⟩

theorem not_isSafe_short :
    ¬IsSafe (processDatagram residueCrypto directEndpoint 0 callController (datagramWith 48 shortStream)) := by
  have hlen : (datagramWith 48 shortStream).length = 88 := length_datagramWith (by decide) (by decide)
  have hshort : shortStream.length = 36 := by decide
  have hmemory : (openedState residueCrypto callController (datagramWith 48 shortStream) shortStream true).memory.length =
      88 := by
    simp only [openedState, if_pos, length_append, length_drop, hlen, hshort]
  rw [processDatagram_datagramWith (by decide) (by decide) (by decide),
    isSafe_processPacket_iff rfl (fun _ hm => (not_mem_nil hm).elim) le_rfl (length_le_memory _ _ _ true)]
  refine not_not.mpr (.inr (overreach_of 4 30 (by decide +kernel) ?_))
  rw [hmemory]
  have hover : OverreachAt shortStream 88 36 1 30 := ⟨by decide, .inl ⟨by decide, by decide⟩⟩
  exact hover

/-- A datagram that is no whole number of blocks, one that ends within a length, and one with a piece that ends behind the
payload. -/
theorem processDatagram_unsafe :
    unalignedDatagram.length = 57 ∧ (datagramWith 32 cutStream).length = 72 ∧ (datagramWith 48 shortStream).length = 88 ∧
      ¬IsSafe (processDatagram residueCrypto directEndpoint 0 callController unalignedDatagram) ∧
      ¬IsSafe (processDatagram residueCrypto directEndpoint 0 callController (datagramWith 32 cutStream)) ∧
      ¬IsSafe (processDatagram residueCrypto directEndpoint 0 callController (datagramWith 48 shortStream)) :=
  ⟨by decide +kernel, length_datagramWith (by decide) (by decide), length_datagramWith (by decide) (by decide),
    not_isSafe_unaligned, not_isSafe_cut, not_isSafe_short⟩

end TelegramClient.VoIP.Inbound
