import TelegramClient.Lib.Cursor
import TelegramClient.Lib.OutputStream

/-!
# The byte streams of a call

* `BufferInputStream` : reading, with an exception (`Fault.raised`) where there are not enough bytes;
* `BufferOutputStream` : writing into a buffer of `size` bytes;
* `tlLengthBytes` : a length in one byte or in four.

Each writer has a lemma that says which bytes it adds, and each reader one that says which bytes it consumes.
-/

namespace TelegramClient.VoIP
open UInt8 (ofNat)

/-! ## Reading -/

namespace BufferInputStream

def getOffset : ReadM Nat := fun stream => .ok (stream.offset, stream)

def seek (offset : Nat) : ReadM Unit := fun stream =>
  if stream.data.length < offset then .error .raised else .ok ((), { stream with offset := offset })

def readBytes (count : Nat) : ReadM Bytes := fun stream =>
  if stream.data.length - stream.offset < count then .error .raised
  else .ok (slice stream.data stream.offset count, { stream with offset := stream.offset + count })

def readByte : ReadM UInt8 := do
  let bytes ← readBytes 1
  return bytes.headD 0

def readInt32 : ReadM UInt32 := do
  let bytes ← readBytes 4
  return ⟨ofLeBits 32 bytes⟩

def readInt64 : ReadM UInt64 := do
  let bytes ← readBytes 8
  return ⟨ofLeBits 64 bytes⟩

/-- The assertion that there are three more bytes is also the check of `EnsureEnoughRemaining`. -/
def readTlLength : ReadM Nat := do
  let l ← readByte
  if l < 254 then return l.toNat
  else do
    let bytes ← readBytes 3
    return ofLe bytes

end BufferInputStream

/-- `PAD4`, with 0 for 4. -/
def pad4 (x : Nat) : Nat :=
  let r := 4 - (x + (if x ≤ 253 then 1 else 0)) % 4
  if r = 4 then 0 else r

/-! ## Writing -/

namespace BufferOutputStream

def writeByte (size : Nat) (byte : UInt8) : WriteM Unit := write size [byte]

def writeInt32 (size : Nat) (i : UInt32) : WriteM Unit := write size (leBits i.toBitVec)

def writeInt64 (size : Nat) (i : UInt64) : WriteM Unit := write size (leBits i.toBitVec)

def writeBytes (size : Nat) (bytes : Bytes) : WriteM Unit := write size bytes

/-- The length of what follows, as `WritePacketHeader` writes it. -/
def writeTlLength (size length : Nat) : WriteM Unit :=
  if length ≤ 253 then writeByte size (UInt8.ofNat length)
  else do
    writeByte size 254
    writeByte size (UInt8.ofNat (length &&& 0xFF))
    writeByte size (UInt8.ofNat ((length >>> 8) &&& 0xFF))
    writeByte size (UInt8.ofNat ((length >>> 16) &&& 0xFF))

end BufferOutputStream

/-! ## What is written -/

section
variable (size : Nat)
open BufferOutputStream

theorem writes_writeByte (byte : UInt8) : Writes size (writeByte size byte) [byte] := writes_write size _

theorem writes_writeInt32 (i : UInt32) : Writes size (writeInt32 size i) (leBits i.toBitVec) := writes_write size _

theorem writes_writeInt64 (i : UInt64) : Writes size (writeInt64 size i) (leBits i.toBitVec) := writes_write size _

theorem writes_writeBytes (bytes : Bytes) : Writes size (writeBytes size bytes) bytes := writes_write size _

def tlLengthBytes (length : Nat) : Bytes :=
  if length ≤ 253 then [UInt8.ofNat length] else 254 :: leBytes 3 length

theorem length_tlLengthBytes_le (length : Nat) : (tlLengthBytes length).length ≤ 4 := by
  unfold tlLengthBytes
  split
  · exact Nat.le_add_left 1 3
  · rw [List.length_cons, length_leBytes]

theorem leBytes_three (length : Nat) : leBytes 3 length =
    [ofNat (length &&& 0xFF), ofNat ((length >>> 8) &&& 0xFF), ofNat ((length >>> 16) &&& 0xFF)] := by
  have hbyte : ∀ n : Nat, ofNat (n &&& 0xFF) = ofNat n := fun n => by
    rw [show n &&& 0xFF = n % 2 ^ 8 from Nat.and_two_pow_sub_one_eq_mod n 8]
    exact UInt8.toNat_inj.mp (by simp)
  simp only [hbyte, Nat.shiftRight_eq_div_pow, leBytes, Nat.div_div_eq_div_mul]

theorem writes_writeTlLength (length : Nat) : Writes size (writeTlLength size length) (tlLengthBytes length) := by
  unfold writeTlLength tlLengthBytes
  split
  · exact writes_writeByte size _
  · rw [leBytes_three]
    exact (writes_writeByte size _).bind ((writes_writeByte size _).bind
      ((writes_writeByte size _).bind (writes_writeByte size _)))

end

/-! ## What is read -/

section
open BufferInputStream

theorem reads_readBytes (x : Bytes) : Reads (readBytes x.length) x x := by
  intro pre rest _
  have hle : ¬(pre ++ (x ++ rest)).length - pre.length < x.length := by
    rw [List.length_append, List.length_append]
    omega
  have hslice : slice (pre ++ (x ++ rest)) pre.length x.length = x := by
    rw [← List.append_assoc, slice_append_middle]
  change readBytes x.length ⟨pre ++ (x ++ rest), pre.length⟩ = _
  rw [readBytes, if_neg hle, hslice]

theorem reads_readBytes_of_length {x : Bytes} {n : Nat} (h : x.length = n) : Reads (readBytes n) x x :=
  h ▸ reads_readBytes x

theorem reads_readByte (b : UInt8) : Reads readByte [b] b :=
  (reads_readBytes [b]).bind_pure fun bytes => bytes.headD 0

theorem reads_readInt32 (i : UInt32) : Reads readInt32 (leBits i.toBitVec) i := by
  have h := (reads_readBytes_of_length (length_leBits i.toBitVec)).bind_pure fun bytes =>
    UInt32.ofBitVec (ofLeBits 32 bytes)
  rwa [ofLeBits_leBits (by decide)] at h

theorem reads_readInt64 (i : UInt64) : Reads readInt64 (leBits i.toBitVec) i := by
  have h := (reads_readBytes_of_length (length_leBits i.toBitVec)).bind_pure fun bytes =>
    UInt64.ofBitVec (ofLeBits 64 bytes)
  rwa [ofLeBits_leBits (by decide)] at h

theorem reads_readTlLength {length : Nat} (h : length < 2 ^ 24) : Reads readTlLength (tlLengthBytes length) length := by
  unfold readTlLength tlLengthBytes
  by_cases hshort : length ≤ 253
  · rw [if_pos hshort]
    have hlt : ofNat length < 254 := by
      rw [UInt8.lt_iff_toNat_lt, UInt8.toNat_ofNat']
      exact lt_of_le_of_lt (Nat.mod_le _ _) (Nat.lt_succ_of_le hshort)
    have hrest : Reads (if ofNat length < 254 then pure (ofNat length).toNat
        else readBytes 3 >>= fun bytes => pure (ofLe bytes)) [] length := by
      rw [if_pos hlt, UInt8.toNat_ofNat', Nat.mod_eq_of_lt (by omega)]
      exact Reads.pure length
    exact (reads_readByte (ofNat length)).bind hrest
  · rw [if_neg hshort]
    have hthree := (reads_readBytes_of_length (length_leBytes 3 length)).bind_pure ofLe
    rw [ofLe_leBytes, Nat.mod_eq_of_lt (by omega)] at hthree
    exact (reads_readByte 254).bind hthree

end

end TelegramClient.VoIP
