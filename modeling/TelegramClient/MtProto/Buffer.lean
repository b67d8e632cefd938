import TelegramClient.Lib.Cursor
import Mathlib.Tactic.NormNum

/-!
# `MTBuffer` and `MTBufferReader`

The byte buffer that builds TL messages and the reader that takes them apart. A `MTBuffer` is the bytes
appended so far, a `MTBufferReader` a `Cursor`. Integers lie little-endian, `int` and `int32_t` have 32 bits,
`NSUInteger` and `size_t` 64; a negative `int` passed as a length is taken modulo `2^64` (`nsUInteger`).

* `appendTLBytes_of_lt` : the encoding of a byte string, in the short form below 254 bytes and in the long
  form from there on;
* `reads_tlBytes` : the reader reads it back up to `2^23 - 1` bytes;
* `readTLBytes_long` : from `2^23` bytes on the reader takes the length for a negative one.
-/

namespace TelegramClient.MtProto
open List
open BitVec (ofNat toNat_ofNat)

/-- A signed integer converted to `NSUInteger`. -/
def nsUInteger (x : Int) : Nat := (x % (2 ^ 64 : Int)).toNat

/-! ## Writing -/

def appendInt32 (buffer : Bytes) (value : BitVec 32) : Bytes := buffer ++ leBits value

/-- C's `%` rounds to zero, as `Int.tmod` does. -/
def roundUp (numToRound multiple : Int) : Int :=
  if multiple = 0 then numToRound
  else if numToRound.tmod multiple = 0 then numToRound
  else numToRound + multiple - numToRound.tmod multiple

/-- `-[NSMutableData appendBytes:length:]` refuses a length of `2^63` or more. -/
def appendBytes (buffer bytes : Bytes) (length : Int) : Except Fault Bytes :=
  if length < 0 then .error .raised else .ok (buffer ++ bytes.take length.toNat)

def appendTLBytes (buffer bytes : Bytes) : Except Fault Bytes :=
  let length := BitVec.ofNat 32 bytes.length
  if length.toInt = 0 then .ok (appendInt32 buffer 0)
  else if length.toInt ≥ 254 then do
    let buffer := buffer ++ [254] ++ (leBits length).take 3
    let paddingBytes := roundUp length.toInt 4 - length.toInt
    let buffer ← appendBytes buffer bytes length.toInt
    return buffer ++ replicate paddingBytes.toNat 0
  else do
    let buffer := buffer ++ (leBits length).take 1
    let paddingBytes := roundUp (length.toInt + 1) 4 - (length.toInt + 1)
    let buffer ← appendBytes buffer bytes length.toInt
    return buffer ++ replicate paddingBytes.toNat 0

/-! ## Reading -/

/-- `readBytes:length:` with a destination. The bound check is made modulo `2^64`; where it is passed by a
wrap-around, the copy runs past the end of the data. -/
def readBytes (length : Nat) : ReadM Bytes := fun reader =>
  if (reader.offset + length) % addressSpace > reader.data.length then .error .failed
  else if reader.offset + length > reader.data.length then .error .raised
  else .ok (slice reader.data reader.offset length, { reader with offset := reader.offset + length })

/-- `readBytes:length:` with `NULL` for the destination: nothing is copied. -/
def skipBytes (length : Nat) : ReadM Unit := fun reader =>
  if (reader.offset + length) % addressSpace > reader.data.length then .error .failed
  else .ok ((), { reader with offset := (reader.offset + length) % addressSpace })

def readInt32 : ReadM (BitVec 32) := do
  let value ← readBytes 4
  return ofLeBits 32 value

def readInt64 : ReadM (BitVec 64) := do
  let value ← readBytes 8
  return ofLeBits 64 value

def readRest : ReadM Bytes := fun reader =>
  if reader.offset > reader.data.length then .error .raised
  else .ok (reader.data.drop reader.offset, reader)

def roundUpInput (numToRound multiple : Int) : Int :=
  if multiple = 0 then numToRound
  else
    let remainder := numToRound.tmod multiple
    if remainder = 0 then numToRound else numToRound + multiple - remainder

/-- The second half of `readTLBytes:`. For a negative length `malloc` returns `NULL`, nothing is copied, and
`dataWithBytesNoCopy:length:` raises. -/
def readTLContents (length : Int) (paddingBytes : Nat) : ReadM Bytes :=
  if length < 0 then do
    skipBytes (nsUInteger length)
    ReadM.raise
  else do
    let result ← readBytes length.toNat
    let _ ← repeatM paddingBytes (readBytes 1)
    return result

def readTLBytes : ReadM Bytes := do
  let tmp ← readBytes 1
  let length : Int := ofLe tmp
  if length = 254 then
    -- the three bytes go to the upper bytes of the `int32_t`, which is then shifted down
    let upper ← readBytes 3
    let length := ((ofLeBits 32 (0 :: upper)).sshiftRight 8).toInt
    readTLContents length (nsUInteger (roundUpInput length 4 - length))
  else
    readTLContents length (nsUInteger (roundUpInput (length + 1) 4 - (length + 1)))

/-- A string that is not UTF-8 is read as `nil`. -/
def readTLString : ReadM (Option String) := do
  let bytes ← readTLBytes
  return String.fromUTF8? ⟨bytes.toArray⟩

/-! ## What the readers consume -/

theorem reads_readBytes (x : Bytes) : Reads (readBytes x.length) x x := by
  intro pre rest hlen
  have hmod : (pre.length + x.length) % addressSpace = pre.length + x.length := Nat.mod_eq_of_lt hlen
  have hle : pre.length + x.length ≤ (pre ++ (x ++ rest)).length := by
    rw [length_append, length_append]
    omega
  have hslice : slice (pre ++ (x ++ rest)) pre.length x.length = x := by
    rw [← append_assoc, slice_append_middle]
  change readBytes x.length ⟨pre ++ (x ++ rest), pre.length⟩ = _
  rw [readBytes]
  dsimp only
  rw [hmod, if_neg (by omega), if_neg (by omega), hslice]

variable {n : Nat}

theorem reads_readBytes_of_length {x : Bytes} (h : x.length = n) : Reads (readBytes n) x x :=
  h ▸ reads_readBytes x

theorem reads_readInt32 (value : BitVec 32) : Reads readInt32 (leBits value) value := by
  have h := (reads_readBytes_of_length (length_leBits value)).bind_pure (ofLeBits 32)
  rwa [ofLeBits_leBits (by decide)] at h

theorem reads_readInt64 (value : BitVec 64) : Reads readInt64 (leBits value) value := by
  have h := (reads_readBytes_of_length (length_leBits value)).bind_pure (ofLeBits 64)
  rwa [ofLeBits_leBits (by decide)] at h

theorem stable_readBytes (n : Nat) : Stable (readBytes n) := by
  intro c a c' h
  change readBytes n c = _ at h
  rw [readBytes] at h
  split at h
  · cases h
  · split at h
    · cases h
    · next hmod hle =>
      cases h
      refine ⟨rfl, fun pad => ?_⟩
      have hlen : (c.data ++ pad).length = c.data.length + pad.length := length_append
      change readBytes n ⟨c.data ++ pad, c.offset⟩ = _
      rw [readBytes]
      dsimp only
      rw [if_neg (by omega), if_neg (by omega), slice_append_left pad (by omega)]

theorem stable_skipBytes (n : Nat) : Stable (skipBytes n) := by
  intro c a c' h
  change skipBytes n c = _ at h
  rw [skipBytes] at h
  split at h
  · cases h
  · next hmod =>
    cases h
    refine ⟨rfl, fun pad => ?_⟩
    have hlen : (c.data ++ pad).length = c.data.length + pad.length := length_append
    change skipBytes n ⟨c.data ++ pad, c.offset⟩ = _
    rw [skipBytes]
    dsimp only
    rw [if_neg (by omega)]

theorem stable_readInt32 : Stable readInt32 := (stable_readBytes 4).bind fun _ => Stable.pure _

theorem stable_readInt64 : Stable readInt64 := (stable_readBytes 8).bind fun _ => Stable.pure _

variable (buffer : Bytes) (length : Int) (paddingBytes : Nat)

theorem stable_readTLContents : Stable (readTLContents length paddingBytes) := by
  rw [readTLContents]
  refine Stable.ite ?_ ?_
  · exact (stable_skipBytes _).bind fun _ => Stable.raise
  · exact (stable_readBytes _).bind fun _ =>
      (Stable.repeatM (stable_readBytes 1) _).bind fun _ => Stable.pure _

theorem stable_readTLBytes : Stable readTLBytes := by
  refine (stable_readBytes 1).bind fun tmp => ?_
  refine Stable.ite ?_ ?_
  · exact (stable_readBytes 3).bind fun _ => stable_readTLContents _ _
  · exact stable_readTLContents _ _

theorem stable_readTLString : Stable readTLString := stable_readTLBytes.bind fun _ => Stable.pure _

theorem yields_readBytes (n : Nat) : Yields (readBytes n) fun bytes => bytes.length ≤ n := by
  intro c a c' h
  change readBytes n c = _ at h
  rw [readBytes] at h
  split at h
  · cases h
  · split at h
    · cases h
    · cases h
      exact length_take_le n _

theorem yields_readTLContents :
    Yields (readTLContents length paddingBytes) fun bytes => bytes.length ≤ length.toNat := by
  unfold readTLContents
  refine Yields.ite ?_ ?_
  · exact Yields.bind fun _ => fun _ _ _ h => nomatch h
  · exact (yields_readBytes _).bind_of fun _ hlen => Yields.bind fun _ => Yields.pure hlen

theorem yields_readTLBytes : Yields readTLBytes fun bytes => bytes.length < 2 ^ 23 := by
  refine (yields_readBytes 1).bind_of fun tmp htmp => ?_
  refine Yields.ite ?_ ?_
  · refine Yields.bind fun upper => ?_
    intro c bytes c' h
    have hlen := yields_readTLContents _ _ c bytes c' h
    have hlt : (ofLeBits 32 (0 :: upper)).toInt < 2 ^ 31 := BitVec.toInt_lt
    rw [BitVec.toInt_sshiftRight, Int.shiftRight_eq_div_pow] at hlen
    omega
  · intro c bytes c' h
    have hlen := yields_readTLContents _ _ c bytes c' h
    have hbyte : ofLe tmp < 256 := by
      match tmp, htmp with
      | [], _ => simp [ofLe]
      | [b], _ =>
        have := b.toNat_lt
        simp only [ofLe]
        omega
    omega

/-! ## The TL byte string -/

/-- The bytes that fill a string of `n` bytes up to a multiple of four. -/
def tlPadding (n : Nat) : Bytes := replicate ((4 - n % 4) % 4) 0

/-- A TL byte string: one length byte below 254 bytes, otherwise the byte 254 and three length bytes. -/
def tlBytes (bytes : Bytes) : Bytes :=
  if bytes.length < 254 then UInt8.ofNat bytes.length :: (bytes ++ tlPadding (bytes.length + 1))
  else 254 :: (leBytes 3 bytes.length ++ (bytes ++ tlPadding bytes.length))

theorem roundUp_four (n : Nat) : roundUp n 4 = n + (((4 - n % 4) % 4 : Nat) : Int) := by
  have htmod : (n : Int).tmod 4 = (n % 4 : Nat) := rfl
  rw [roundUp, if_neg (by decide), htmod]
  split <;> omega

theorem roundUp_four_sub (n : Nat) : roundUp n 4 - n = (((4 - n % 4) % 4 : Nat) : Int) := by
  rw [roundUp_four]
  omega

theorem roundUpInput_eq (x m : Int) : roundUpInput x m = roundUp x m := rfl

theorem nsUInteger_natCast (h : n < 2 ^ 64) : nsUInteger n = n := by
  rw [nsUInteger]
  omega

theorem toInt_ofNat_of_lt (h : n < 2 ^ 31) : (ofNat 32 n).toInt = n := by
  have htoNat : (ofNat 32 n).toNat = n := by rw [toNat_ofNat, Nat.mod_eq_of_lt (by omega)]
  rw [BitVec.toInt_eq_toNat_of_lt (by omega), htoNat]

theorem length_tlBytes_mod (bytes : Bytes) : (tlBytes bytes).length % 4 = 0 := by
  rw [tlBytes]
  split
  · simp only [length_cons, length_append, tlPadding, length_replicate]
    omega
  · simp only [length_cons, length_append, tlPadding, length_replicate, length_leBytes]
    omega

theorem leBits_take_three (h : n < 2 ^ 24) : (leBits (ofNat 32 n)).take 3 = leBytes 3 n := by
  rw [leBits, toNat_ofNat, Nat.mod_eq_of_lt (by omega)]
  rfl

theorem leBits_take_one (h : n < 254) : (leBits (ofNat 32 n)).take 1 = [UInt8.ofNat n] := by
  rw [leBits, toNat_ofNat, Nat.mod_eq_of_lt (by omega)]
  rfl

theorem appendBytes_all (bytes : Bytes) : appendBytes buffer bytes bytes.length = .ok (buffer ++ bytes) := by
  rw [appendBytes, if_neg (by omega), Int.toNat_natCast, take_length]

variable {bytes : Bytes}

/-- **The encoding** of a byte string whose length fits in three bytes. -/
theorem appendTLBytes_of_lt (h : bytes.length < 2 ^ 24) :
    appendTLBytes buffer bytes = .ok (buffer ++ tlBytes bytes) := by
  have hint : (ofNat 32 bytes.length).toInt = bytes.length := toInt_ofNat_of_lt (by omega)
  rw [appendTLBytes]
  simp only [hint]
  by_cases h0 : bytes.length = 0
  · rw [if_pos (by omega), length_eq_zero_iff.mp h0]
    rfl
  · rw [if_neg (by omega)]
    by_cases hlong : bytes.length < 254
    · have hpad := roundUp_four_sub (bytes.length + 1)
      rw [Int.natCast_add, Int.natCast_one] at hpad
      rw [if_neg (by omega), leBits_take_one hlong, appendBytes_all, hpad, Int.toNat_natCast, tlBytes,
        if_pos hlong, tlPadding]
      change Except.ok _ = Except.ok _
      simp only [append_assoc, cons_append, nil_append]
    · rw [if_pos (by omega), leBits_take_three h, appendBytes_all, roundUp_four_sub, Int.toNat_natCast,
        tlBytes, if_neg hlong, tlPadding]
      change Except.ok _ = Except.ok _
      simp only [append_assoc, cons_append, nil_append]

theorem reads_padding (padding : Bytes) :
    Reads (repeatM padding.length (readBytes 1)) padding (padding.map fun b => [b]) := by
  have h := Reads.repeatM (p := readBytes 1) (e := id) (padding.map fun b => [b]) fun a ha => by
    obtain ⟨b, -, rfl⟩ := mem_map.mp ha
    exact reads_readBytes [b]
  simpa [flatMap_map] using h

variable {padding : Bytes}

theorem reads_tlContents (bytes : Bytes) (hn : padding.length = n) :
    Reads (readTLContents bytes.length n) (bytes ++ padding) bytes := by
  subst hn
  rw [readTLContents, if_neg (by omega)]
  exact (reads_readBytes bytes).bind ((reads_padding padding).bind_pure fun _ => bytes)

variable {upper : Bytes}

/-- The long form's length field, read into the upper three bytes of an `int32_t` and shifted down, comes
out with bit 23 as its sign. -/
theorem toInt_upper_shift (h : ofLe upper < 2 ^ 24) : ((ofLeBits 32 (0 :: upper)).sshiftRight 8).toInt =
      if ofLe upper < 2 ^ 23 then (ofLe upper : Int) else ofLe upper - 2 ^ 24 := by
  have hval : ofLe (0 :: upper) = 256 * ofLe upper := by
    rw [ofLe]
    exact Nat.zero_add _
  have htoNat : (ofLeBits 32 (0 :: upper)).toNat = 256 * ofLe upper := by
    rw [ofLeBits, hval, toNat_ofNat, Nat.mod_eq_of_lt (by omega)]
  rw [BitVec.toInt_sshiftRight, BitVec.toInt_eq_toNat_cond, htoNat, Int.shiftRight_eq_div_pow]
  split <;> split <;> omega

theorem reads_shortTL {b : UInt8} (hb : b ≠ 254) (hbs : b.toNat = bytes.length)
    (hpadding : padding.length = (4 - (bytes.length + 1) % 4) % 4) :
    Reads readTLBytes ([b] ++ (bytes ++ padding)) bytes := by
  have hbyte : ((ofLe [b] : Nat) : Int) = bytes.length := by simp [ofLe, hbs]
  have hne : bytes.length ≠ 254 := by
    rw [← hbs]
    exact fun h => hb (UInt8.toNat_inj.mp h)
  have hpad := roundUp_four_sub (bytes.length + 1)
  rw [Int.natCast_add, Int.natCast_one] at hpad
  refine (reads_readBytes [b]).bind ?_
  rw [hbyte]
  dsimp only
  rw [if_neg (by omega), roundUpInput_eq, hpad, nsUInteger_natCast (by omega)]
  exact reads_tlContents bytes hpadding

/-- The long form, with three bytes for a length below `2^23`. -/
theorem reads_longTL (hupper : upper.length = 3) (hbs : ofLe upper = bytes.length) (h : bytes.length < 2 ^ 23)
    (hpad : padding.length = (4 - bytes.length % 4) % 4) :
    Reads readTLBytes ([254] ++ (upper ++ (bytes ++ padding))) bytes := by
  refine (reads_readBytes [254]).bind ?_
  have h254 : ((ofLe [254] : Nat) : Int) = 254 := rfl
  rw [h254, if_pos rfl]
  refine (reads_readBytes_of_length hupper).bind ?_
  dsimp only
  rw [toInt_upper_shift (by omega), if_pos (by omega), hbs, roundUpInput_eq, roundUp_four_sub,
    nsUInteger_natCast (by omega)]
  exact reads_tlContents bytes hpad

/-- **Reading back** a byte string of less than `2^23` bytes. -/
theorem reads_tlBytes (h : bytes.length < 2 ^ 23) : Reads readTLBytes (tlBytes bytes) bytes := by
  rw [tlBytes]
  split
  · next hshort =>
    have hbyte : (UInt8.ofNat bytes.length).toNat = bytes.length := by
      rw [UInt8.toNat_ofNat']
      omega
    have hne : UInt8.ofNat bytes.length ≠ 254 := by
      intro heq
      rw [heq] at hbyte
      exact absurd hshort (by rw [← hbyte]; decide)
    exact reads_shortTL hne hbyte length_replicate
  · have hval : ofLe (leBytes 3 bytes.length) = bytes.length := by
      rw [ofLe_leBytes, Nat.mod_eq_of_lt (by omega)]
    exact reads_longTL (length_leBytes 3 bytes.length) hval h length_replicate

/-- A negative length is never read: the bound check refuses it or `NSData` does. -/
theorem readTLContents_neg {length : Int} (h : length < 0) (paddingBytes : Nat) (c : Cursor) :
    ∃ e, (readTLContents length paddingBytes).run c = .error e := by
  rw [readTLContents, if_pos h]
  cases hskip : (skipBytes (nsUInteger length)).run c with
  | error e => exact ⟨e, run_bind_of_error _ hskip⟩
  | ok r => exact ⟨.raised, run_bind_of_ok _ hskip⟩

/-- From `2^23` bytes on the length is taken for a negative one, and the reader does not come back with a
value. -/
theorem readTLBytes_long (hlow : 2 ^ 23 ≤ bytes.length) (hhigh : bytes.length < 2 ^ 24) (rest : Bytes) :
    ∃ e, readTLBytes.run ⟨tlBytes bytes ++ rest, 0⟩ = .error e := by
  have htag := (reads_readBytes [254]).run (leBytes 3 bytes.length ++ (bytes ++ tlPadding bytes.length) ++ rest)
    (by decide)
  have hlen := reads_readBytes_of_length (length_leBytes 3 bytes.length) [254]
    ((bytes ++ tlPadding bytes.length) ++ rest) (by rw [length_leBytes]; decide)
  rw [← append_assoc (leBytes 3 bytes.length)] at hlen
  have hval : ofLe (leBytes 3 bytes.length) = bytes.length := by
    rw [ofLe_leBytes, Nat.mod_eq_of_lt (by omega)]
  have hneg : ((ofLeBits 32 (0 :: leBytes 3 bytes.length)).sshiftRight 8).toInt < 0 := by
    rw [toInt_upper_shift (by omega), hval]
    split <;> omega
  rw [tlBytes, if_neg (by omega), readTLBytes]
  refine Eq.subst (motive := fun r => ∃ e, r = .error e) (run_bind_of_ok _ htag).symm ?_
  rw [if_pos (show ((ofLe [254] : Nat) : Int) = 254 from rfl)]
  refine Eq.subst (motive := fun r => ∃ e, r = .error e) (run_bind_of_ok _ hlen).symm ?_
  exact readTLContents_neg hneg _ _

/-! ## The round trip -/

/-- What `appendTLBytes:` writes for `b` is a multiple of four bytes, and `readTLBytes:` reads `b` back from
it, whatever follows, and stops at the first byte of what follows. -/
def TLRoundTrip (b rest : Bytes) : Prop :=
  ∃ encoded, appendTLBytes [] b = .ok encoded ∧ encoded.length % 4 = 0 ∧
    readTLBytes.run ⟨encoded ++ rest, 0⟩ = .ok (b, ⟨encoded ++ rest, encoded.length⟩)

theorem length_tlBytes_le (bytes : Bytes) : (tlBytes bytes).length ≤ bytes.length + 8 := by
  rw [tlBytes]
  split <;> simp only [length_cons, length_append, tlPadding, length_replicate,
    length_leBytes] <;> omega

variable {b : Bytes}

theorem tlRoundTrip_of_lt (h : b.length < 2 ^ 23) (rest : Bytes) : TLRoundTrip b rest := by
  have hlen : (tlBytes b).length < addressSpace := by
    have := length_tlBytes_le b
    rw [addressSpace]
    omega
  exact ⟨tlBytes b, appendTLBytes_of_lt [] (by omega), length_tlBytes_mod b, (reads_tlBytes h).run rest hlen⟩

theorem not_tlRoundTrip_of_le (hlow : 2 ^ 23 ≤ b.length) (hhigh : b.length < 2 ^ 24) (rest : Bytes) :
    ¬ TLRoundTrip b rest := by
  rintro ⟨encoded, hencoded, -, hread⟩
  obtain ⟨e, he⟩ := readTLBytes_long hlow hhigh rest
  have henc : appendTLBytes [] b = .ok (tlBytes b) := appendTLBytes_of_lt [] hhigh
  rw [henc] at hencoded
  cases hencoded
  rw [he] at hread
  cases hread

/-- **The TL byte string round trip** holds exactly up to `2^23 - 1` bytes; the encoding is a multiple of four
bytes in any case. -/
theorem tlRoundTrip_iff (b rest : Bytes) (h : b.length < 2 ^ 24) :
    (∃ encoded, appendTLBytes [] b = .ok encoded ∧ encoded.length % 4 = 0) ∧
      (TLRoundTrip b rest ↔ b.length < 2 ^ 23) := by
  refine ⟨⟨tlBytes b, appendTLBytes_of_lt [] h, length_tlBytes_mod b⟩, fun hround => ?_, fun hshort => ?_⟩
  · by_contra hlong
    exact not_tlRoundTrip_of_le (Nat.le_of_not_lt hlong) h rest hround
  · exact tlRoundTrip_of_lt hshort rest

theorem tlRoundTrip_three_bytes :
    ([1, 2, 3] : Bytes).length < 2 ^ 24 ∧
      (∃ encoded, appendTLBytes [] [1, 2, 3] = .ok encoded ∧ encoded.length % 4 = 0) ∧
      (TLRoundTrip [1, 2, 3] [9] ↔ ([1, 2, 3] : Bytes).length < 2 ^ 23) :=
  ⟨by decide, tlRoundTrip_iff [1, 2, 3] [9] (by decide)⟩

/-- `2^23` zero bytes are written and cannot be read back. -/
theorem not_tlRoundTrip_eight_mebibytes :
    (replicate (2 ^ 23) (0 : UInt8)).length < 2 ^ 24 ∧ ¬ TLRoundTrip (replicate (2 ^ 23) 0) [] := by
  have hlen : (replicate (2 ^ 23) (0 : UInt8)).length = 2 ^ 23 := length_replicate
  exact ⟨by omega, not_tlRoundTrip_of_le (by omega) (by omega) []⟩

end TelegramClient.MtProto
