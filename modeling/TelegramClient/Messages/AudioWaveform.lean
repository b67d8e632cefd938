import Mathlib.Tactic.IntervalCases
import TelegramClient.Lib.PackedFields

/-!
# The waveform of a voice message

A waveform is sent as fields of five bits, which are written and read through words of four bytes at any address.

* `getBits`, `setBits` : a field in memory, where an access outside it has no result;
* **`waveform_roundTrips_iff`** : when this holds, within the buffers and with three bytes behind them.
-/

namespace TelegramClient.Messages
open List
open Option (bind_eq_bind bind_some)
open UInt16 (ofNat toNat)

/-! ## Fields -/

/-- `get_bits`. The word is a signed one. -/
def getBits (bytes : Bytes) (bitOffset numBits : Nat) : Option (BitVec 32) := do
  let word ← wordAt 32 bytes (bitOffset / 8)
  return word.sshiftRight (bitOffset % 8) &&& BitVec.ofNat 32 (2 ^ numBits - 1)

/-- `set_bits`. It does not use its `numBits`. -/
def setBits (bytes : Bytes) (bitOffset _numBits : Nat) (value : BitVec 32) : Option Bytes := do
  let word ← wordAt 32 bytes (bitOffset / 8)
  storeAt bytes (bitOffset / 8) (word ||| value <<< (bitOffset % 8))

/-- An `int`. An overflow has no result. -/
def checkedInt (x : Int) : Option Int := if -2 ^ 31 ≤ x ∧ x < 2 ^ 31 then some x else none

/-! ## Waveforms -/

structure TGAudioWaveform where
  samples : List UInt16
  peak : Int32
deriving DecidableEq

def sampleValue (maxSample : Int32) (sample : UInt16) : Option (BitVec 32) :=
  if maxSample = 0 then none
  else some (BitVec.ofInt 32 (min 31 ((((sample.toNat : Int).natAbs * 31 : Nat) : Int).tdiv maxSample.toInt)))

/-- The loop of `bitstream`, from the `i`-th sample on. -/
def setSamples (maxSample : Int32) : List UInt16 → Nat → Bytes → Option Bytes
  | [], _, bytes => some bytes
  | sample :: samples, i, bytes => do
    let value ← sampleValue maxSample sample
    let bytes ← setBits bytes (i * 5) 5 (value &&& 31)
    setSamples maxSample samples (i + 1) bytes

def bytesForBits (bits : Int) : Int := bits.tdiv 8 + if bits.tmod 8 = 0 then 0 else 1

/-- `bitstream`. The bytes `behind` lie behind the new buffer, whose length cannot be negative. -/
def TGAudioWaveform.bitstream (self : TGAudioWaveform) (behind : Bytes) : Option Bytes := do
  let numSamples := (Int32.ofNat self.samples.length).toInt
  let bitstreamLength := bytesForBits (← checkedInt (numSamples * 5))
  if bitstreamLength < 0 then none
  else
    let bytes := List.replicate bitstreamLength.toNat 0 ++ behind
    let bytes ← setSamples self.peak (self.samples.take numSamples.toNat) 0 bytes
    return bytes.take bitstreamLength.toNat

/-- The loop of `initWithBitstream:bitsPerSample:`, from the `i`-th sample on. -/
def getSamples (bytes : Bytes) (maxSample norm : Int) : Nat → Nat → Option (List UInt16)
  | 0, _ => some []
  | numSamples + 1, i => do
    let bitOffset ← checkedInt (i * 5)
    let value ← getBits bytes bitOffset.toNat 5
    let samples ← getSamples bytes maxSample norm numSamples (i + 1)
    return UInt16.ofBitVec (BitVec.ofInt 16 ((value.toInt * maxSample).tdiv norm)) :: samples

/-- `initWithBitstream:bitsPerSample:`. There is no division by zero, and no shift out of an `int`. -/
def TGAudioWaveform.initWithBitstream (behind bitstream : Bytes) (bitsPerSample : Nat) : Option TGAudioWaveform :=
  if bitsPerSample = 0 ∨ 31 ≤ bitsPerSample then none
  else do
    let numSamples := (Int32.ofNat (bitstream.length * 8 % 2 ^ 64 / bitsPerSample)).toInt
    let maxSample : Int := 2 ^ bitsPerSample - 1
    let norm : Int := 2 ^ bitsPerSample - 1
    let length ← checkedInt (numSamples * 2)
    if length < 0 then none
    else
      let samples ← getSamples (bitstream ++ behind) maxSample norm numSamples.toNat 0
      return ⟨samples, 31⟩

/-- **What should hold of a waveform.** The bytes `written`, `read` and `rewritten` lie behind the buffers. -/
def TGAudioWaveform.RoundTrips (written read rewritten : Bytes) (self : TGAudioWaveform) : Prop :=
  ∃ stream decoded, self.bitstream written = some stream ∧ stream.length = (5 * self.samples.length + 7) / 8 ∧
    TGAudioWaveform.initWithBitstream read stream 5 = some decoded ∧
    decoded.samples.map UInt16.toNat = self.samples.map (fun sample => 31 * sample.toNat / self.peak.toInt.toNat) ∧
    decoded.bitstream rewritten = some stream

/-! ## Fields of the number -/

variable {bytes : Bytes} {bitOffset : Nat}

variable {value : BitVec 32}

variable (n numBits : Nat)

theorem setBits_spec (hval : value.toNat < 2 ^ 5) (hin : bitOffset / 8 + 4 ≤ bytes.length) :
    ∃ bytes', setBits bytes bitOffset numBits value = some bytes' ∧ bytes'.length = bytes.length ∧
      ofLe bytes' = ofLe bytes ||| value.toNat <<< bitOffset := by
  have hword : bitOffset / 8 + 32 / 8 ≤ bytes.length := hin
  obtain ⟨bytes', hstore, hnum⟩ := ofLe_orAt (by decide) hword (value <<< (bitOffset % 8))
  refine ⟨bytes', ?_, length_storeAt hstore, ?_⟩
  · unfold setBits
    rw [wordAt_of_le (w := 32) hin]
    exact hstore
  · have hfield : (value <<< (bitOffset % 8)).toNat = value.toNat <<< (bitOffset % 8) := by
      have hpow : 2 ^ (bitOffset % 8) ≤ 2 ^ 7 := Nat.pow_le_pow_right (by decide) (by omega)
      rw [BitVec.toNat_shiftLeft, Nat.shiftLeft_eq]
      refine Nat.mod_eq_of_lt (lt_of_lt_of_le (Nat.mul_lt_mul_of_lt_of_le hval hpow (by decide)) (by decide))
    rw [hnum, hfield, ← Nat.shiftLeft_add, Nat.mod_add_div]

theorem setBits_eq_none (value : BitVec 32) (hout : bytes.length < bitOffset / 8 + 4) :
    setBits bytes bitOffset numBits value = none := by
  unfold setBits
  rw [wordAt_eq_none (w := 32) hout]
  rfl

theorem length_setBits {bytes' : Bytes} {numBits : Nat} (h : setBits bytes bitOffset numBits value = some bytes') :
    bytes'.length = bytes.length := by
  obtain ⟨word, -, hstore⟩ := Option.bind_eq_some_iff.mp h
  exact length_storeAt hstore

theorem getBits_spec (hin : bitOffset / 8 + 4 ≤ bytes.length) :
    ∃ value, getBits bytes bitOffset 5 = some value ∧ value.toNat = ofLe bytes / 2 ^ bitOffset % 2 ^ 5 := by
  unfold getBits
  rw [wordAt_of_le (w := 32) hin]
  refine ⟨_, rfl, ?_⟩
  have hword := toNat_ofLeBits_slice (w := 32) (by decide) hin
  have hoff : bitOffset / 8 * 8 + bitOffset % 8 = bitOffset := Nat.div_add_mod' bitOffset 8
  apply Nat.eq_of_testBit_eq
  intro i
  have hmask : (BitVec.ofNat 32 (2 ^ 5 - 1)).getLsbD i = decide (i < 5) := by
    rw [BitVec.getLsbD_ofNat, Nat.testBit_two_pow_sub_one, Bool.and_eq_right_iff_imp]
    intro hi
    exact decide_eq_true ((of_decide_eq_true hi).trans (by decide))
  rw [BitVec.testBit_toNat, BitVec.getLsbD_and, hmask, Nat.testBit_mod_two_pow, Bool.and_comm]
  by_cases hi : i < 5
  · have hbit : (ofLeBits 32 (slice bytes (bitOffset / 8) (32 / 8))).getLsbD (bitOffset % 8 + i) =
        (ofLe bytes).testBit (bitOffset + i) := by
      rw [BitVec.getLsbD, hword, show (256 : Nat) = 2 ^ 8 from rfl, ← pow_mul, Nat.testBit_mod_two_pow,
        Nat.testBit_div_two_pow, decide_eq_true (by omega), Bool.true_and]
      congr 1
      omega
    have hword32 : decide (32 ≤ i) = false := decide_eq_false (by omega)
    rw [BitVec.getLsbD_sshiftRight, if_pos (by omega), hbit, Nat.testBit_div_two_pow, hword32, Nat.add_comm i]
    rfl
  · rw [decide_eq_false hi, Bool.false_and, Bool.false_and]

/-! ## The loops -/

section
variable {maxSample : Int32}

def scaled (maxSample : Int32) (sample : UInt16) : Nat := 31 * sample.toNat / maxSample.toInt.toNat

variable {sample : UInt16}

theorem scaled_lt (hpeak : 0 < maxSample.toInt) (hsample : (sample.toNat : Int) ≤ maxSample.toInt) :
    scaled maxSample sample < 2 ^ 5 := by
  have hle : sample.toNat ≤ maxSample.toInt.toNat := by omega
  have hdiv : scaled maxSample sample ≤ 31 := by
    unfold scaled
    exact Nat.div_le_of_le_mul (by rw [Nat.mul_comm]; exact Nat.mul_le_mul_right 31 hle)
  omega

theorem sampleValue_eq (hpeak : 0 < maxSample.toInt) (hsample : (sample.toNat : Int) ≤ maxSample.toInt) :
    sampleValue maxSample sample = some (BitVec.ofNat 32 (scaled maxSample sample)) := by
  have hne : maxSample ≠ 0 := by
    rintro rfl
    exact absurd hpeak (by decide)
  have hlt := scaled_lt hpeak hsample
  have hmax : maxSample.toInt = (maxSample.toInt.toNat : Int) := (Int.toNat_of_nonneg hpeak.le).symm
  have hdiv : (((sample.toNat : Int).natAbs * 31 : Nat) : Int).tdiv maxSample.toInt = (scaled maxSample sample : Int) := by
    rw [hmax, Int.natAbs_natCast, Int.tdiv_eq_ediv_of_nonneg (Int.natCast_nonneg _), Nat.mul_comm]
    rfl
  have hmin : min (31 : Int) (scaled maxSample sample) = scaled maxSample sample := min_eq_right (by omega)
  rw [sampleValue, if_neg hne, hdiv, hmin, BitVec.ofInt_natCast]

theorem toNat_and_31 {n : Nat} (hn : n < 2 ^ 5) : (BitVec.ofNat 32 n &&& 31).toNat = n := by
  rw [BitVec.toNat_and, BitVec.toNat_ofNat, Nat.mod_eq_of_lt (by omega)]
  exact Nat.and_two_pow_sub_one_of_lt_two_pow (n := 5) hn

variable {samples : List UInt16}

/-- **Samples are written as digits.** -/
theorem setSamples_spec (hpeak : 0 < maxSample.toInt)
    (hsamples : ∀ sample ∈ samples, (sample.toNat : Int) ≤ maxSample.toInt) {done : List Nat}
    (hdone : ∀ d ∈ done, d < 2 ^ 5) {length : Nat} (hfits : 5 * (done.length + samples.length) ≤ 8 * length)
    {behind : Bytes} (hlen : bytes.length = length + behind.length) (hbehind : 3 ≤ behind.length)
    (hnum : ofLe bytes = Nat.ofDigits (2 ^ 5) done + 2 ^ (8 * length) * ofLe behind) :
    ∃ bytes', setSamples maxSample samples done.length bytes = some bytes' ∧ bytes'.length = bytes.length ∧
      ofLe bytes' = Nat.ofDigits (2 ^ 5) (done ++ samples.map (scaled maxSample)) + 2 ^ (8 * length) * ofLe behind := by
  induction samples generalizing done bytes with
  | nil => exact ⟨bytes, rfl, rfl, by rw [hnum, map_nil, append_nil]⟩
  | cons sample samples ih =>
    obtain ⟨hsample, hrest⟩ := forall_mem_cons.mp hsamples
    rw [length_cons] at hfits
    have hlt := scaled_lt hpeak hsample
    have hval : (BitVec.ofNat 32 (scaled maxSample sample) &&& 31).toNat < 2 ^ 5 := by rwa [toNat_and_31 hlt]
    have hin : done.length * 5 / 8 + 4 ≤ bytes.length := by omega
    obtain ⟨bytes₁, hset, hlength₁, hnumber₁⟩ := setBits_spec 5 hval hin
    rw [toNat_and_31 hlt, hnum, Nat.mul_comm done.length, ofDigits_or hdone hlt (by decide) (by omega)] at hnumber₁
    have hdone₁ : ∀ d ∈ done ++ [scaled maxSample sample], d < 2 ^ 5 := by
      intro d hd
      rcases mem_append.mp hd with hd | hd
      · exact hdone d hd
      · rwa [mem_singleton.mp hd]
    have hcnt : (done ++ [scaled maxSample sample]).length = done.length + 1 := by simp
    obtain ⟨bytes₂, hrun, hlength₂, hnumber₂⟩ :=
      ih hrest hdone₁ (by rw [hcnt]; omega) (hlength₁.trans hlen) hnumber₁
    refine ⟨bytes₂, ?_, hlength₂.trans hlength₁, ?_⟩
    · rw [hcnt] at hrun
      rw [setSamples, sampleValue_eq hpeak hsample, bind_eq_bind, bind_some, hset, bind_eq_bind,
        bind_some, hrun]
    · rw [hnumber₂, append_assoc, singleton_append, map_cons]

theorem setSamples_eq_none (hsamples : samples ≠ []) {i : Nat}
    (hout : bytes.length < (i + samples.length - 1) * 5 / 8 + 4) : setSamples maxSample samples i bytes = none := by
  induction samples generalizing i bytes with
  | nil => exact absurd rfl hsamples
  | cons sample samples ih =>
    rw [length_cons] at hout
    rw [setSamples, bind_eq_bind, Option.bind_eq_none_iff]
    intro value _
    rw [bind_eq_bind, Option.bind_eq_none_iff]
    intro bytes' hset
    cases samples with
    | nil =>
      rw [setBits_eq_none 5 _ (by simpa using hout)] at hset
      cases hset
    | cons next samples =>
      refine ih (cons_ne_nil _ _) ?_
      rw [length_setBits hset]
      rw [show i + 1 + (next :: samples).length - 1 = i + ((next :: samples).length + 1) - 1 by omega]
      exact hout

end

variable {stream behind : Bytes}

variable {digits : List Nat}

/-- **And read as digits.** -/
theorem getSamples_spec (hbehind : 3 ≤ behind.length) (hdigits : ∀ d ∈ digits, d < 2 ^ 5)
    (hnum : ofLe stream = Nat.ofDigits (2 ^ 5) digits) (hsmall : stream.length ≤ 2 ^ 28) {numSamples i : Nat}
    (hfits : 5 * (i + numSamples) ≤ 8 * stream.length) : getSamples (stream ++ behind) 31 31 numSamples i =
      some ((List.range' i numSamples).map fun j => ofNat (digits.getD j 0)) := by
  induction numSamples generalizing i with
  | zero => rfl
  | succ numSamples ih =>
    have hoff : checkedInt (i * 5) = some (i * 5 : Int) := if_pos (by omega)
    have hcast : ((i * 5 : Int)).toNat = i * 5 := by omega
    have hin : i * 5 / 8 + 4 ≤ (stream ++ behind).length := by
      rw [length_append]
      omega
    obtain ⟨value, hget, hval⟩ := getBits_spec hin
    rw [ofLe_append, hnum, show (256 : Nat) = 2 ^ 8 from rfl, ← pow_mul, Nat.mul_comm i,
      ofDigits_digit hdigits (ofLe behind) (by omega)] at hval
    have hlt : value.toNat < 2 ^ 31 := by
      have hmod : value.toNat < 2 ^ 5 := by
        rw [hval, getD_eq_getElem?_getD]
        cases hdigit : digits[i]? with
        | none => decide
        | some d => exact hdigits d (mem_of_getElem? hdigit)
      omega
    have hsample : (value.toInt * 31).tdiv 31 = (digits.getD i 0 : Nat) := by
      rw [Int.mul_tdiv_cancel _ (by decide), BitVec.toInt_eq_toNat_of_lt (by omega), hval]
    rw [getSamples, hoff, bind_eq_bind, bind_some, hcast, hget, bind_eq_bind, bind_some,
      ih (by omega), bind_eq_bind, bind_some, hsample, BitVec.ofInt_natCast, range'_succ,
      map_cons]
    rfl

/-! ## Whole waveforms -/

theorem bytesForBits_eq : bytesForBits ((n : Int) * 5) = ((5 * n + 7) / 8 : Nat) := by
  unfold bytesForBits
  rw [Int.tdiv_eq_ediv_of_nonneg (by omega), Int.tmod_eq_emod_of_nonneg (by omega)]
  split_ifs <;> omega

theorem bytesForBits_le {bits : Int} (hbits : bits < 2 ^ 31) : bytesForBits bits ≤ 2 ^ 28 := by
  have hdiv : bits.tdiv 8 < 2 ^ 28 := by
    rcases le_or_gt 0 bits with hpos | hneg
    · rw [Int.tdiv_eq_ediv_of_nonneg hpos]
      omega
    · have hneg' : 0 ≤ (-bits).tdiv 8 := Int.tdiv_nonneg (by omega) (by decide)
      rw [Int.neg_tdiv] at hneg'
      omega
  unfold bytesForBits
  split_ifs <;> omega

variable {self : TGAudioWaveform}

theorem bitstream_eq_bind (hsmall : 5 * self.samples.length < 2 ^ 31) (behind : Bytes) : self.bitstream behind =
      (setSamples self.peak self.samples 0 (List.replicate ((5 * self.samples.length + 7) / 8) 0 ++ behind)).map
        (List.take ((5 * self.samples.length + 7) / 8)) := by
  have hcnt : (Int32.ofNat self.samples.length).toInt = self.samples.length := Int32.toInt_ofNat_of_lt (by omega)
  have hbits : checkedInt ((self.samples.length : Int) * 5) = some ((self.samples.length : Int) * 5) :=
    if_pos (by omega)
  unfold TGAudioWaveform.bitstream
  dsimp only
  rw [hcnt, hbits, bind_eq_bind, bind_some, bytesForBits_eq, if_neg (by omega), Int.toNat_natCast,
    Int.toNat_natCast, take_length, Option.map_eq_bind]
  rfl

/-- **The buffer is the number whose digits are the values.** -/
theorem bitstream_eq (hpeak : 0 < self.peak.toInt)
    (hsamples : ∀ sample ∈ self.samples, (sample.toNat : Int) ≤ self.peak.toInt)
    (hsmall : 5 * self.samples.length < 2 ^ 31) (hbehind : 3 ≤ behind.length) :
    ∃ stream, self.bitstream behind = some stream ∧ stream.length = (5 * self.samples.length + 7) / 8 ∧
      ofLe stream = Nat.ofDigits (2 ^ 5) (self.samples.map (scaled self.peak)) := by
  have hdigits : ∀ d ∈ self.samples.map (scaled self.peak), d < 2 ^ 5 := by
    intro d hd
    obtain ⟨sample, hsample, rfl⟩ := mem_map.mp hd
    exact scaled_lt hpeak (hsamples sample hsample)
  have hempty : ofLe (List.replicate ((5 * self.samples.length + 7) / 8) 0 ++ behind) =
      Nat.ofDigits (2 ^ 5) [] + 2 ^ (8 * ((5 * self.samples.length + 7) / 8)) * ofLe behind := by
    rw [ofLe_append, ofLe_replicate_zero, length_replicate, show (256 : Nat) = 2 ^ 8 from rfl, ← pow_mul]
    rfl
  have hfits : 5 * (([] : List Nat).length + self.samples.length) ≤ 8 * ((5 * self.samples.length + 7) / 8) := by
    rw [length_nil]
    omega
  obtain ⟨bytes, hrun, hlen, hnum⟩ := setSamples_spec hpeak hsamples (by simp) hfits (by simp) hbehind hempty
  rw [length_append, length_replicate] at hlen
  have hlt : Nat.ofDigits (2 ^ 5) (self.samples.map (scaled self.peak)) < 256 ^ ((5 * self.samples.length + 7) / 8) := by
    have h := Nat.ofDigits_lt_base_pow_length (by decide) hdigits
    rw [length_map, ← pow_mul] at h
    rw [show (256 : Nat) = 2 ^ 8 from rfl, ← pow_mul]
    exact h.trans_le (Nat.pow_le_pow_right (by decide) (by omega))
  refine ⟨bytes.take ((5 * self.samples.length + 7) / 8), ?_, length_take_of_le (by omega), ?_⟩
  · rw [bitstream_eq_bind hsmall]
    exact congrArg (Option.map _) hrun
  · rw [ofLe_take _ (by omega), hnum, nil_append, pow_mul, show (2 : Nat) ^ 8 = 256 from rfl,
      Nat.add_mul_mod_self_left, Nat.mod_eq_of_lt hlt]

theorem initWithBitstream_eq (hbehind : 3 ≤ behind.length) (hdigits : ∀ d ∈ digits, d < 2 ^ 5)
    (hnum : ofLe stream = Nat.ofDigits (2 ^ 5) digits) (hsmall : stream.length ≤ 2 ^ 28) :
    TGAudioWaveform.initWithBitstream behind stream 5 =
      some ⟨(List.range (stream.length * 8 / 5)).map fun j => ofNat (digits.getD j 0), 31⟩ := by
  have hmod : stream.length * 8 % 2 ^ 64 = stream.length * 8 := Nat.mod_eq_of_lt (by omega)
  have hcnt : (Int32.ofNat (stream.length * 8 / 5)).toInt = (stream.length * 8 / 5 : Nat) :=
    Int32.toInt_ofNat_of_lt (by omega)
  have hlen : checkedInt (((stream.length * 8 / 5 : Nat) : Int) * 2) = some (((stream.length * 8 / 5 : Nat) : Int) * 2) :=
    if_pos (by omega)
  unfold TGAudioWaveform.initWithBitstream
  rw [if_neg (by decide), hmod]
  dsimp only
  rw [hcnt, hlen, bind_eq_bind, bind_some, if_neg (by omega), Int.toNat_natCast,
    show (2 ^ 5 - 1 : Int) = 31 by decide, getSamples_spec hbehind hdigits hnum hsmall (by omega),
    range_eq_range']
  rfl

/-- A buffer of the right length does not come from an overflow. -/
theorem small_of_length (hstream : self.bitstream behind = some stream)
    (hlen : stream.length = (5 * self.samples.length + 7) / 8) : 5 * self.samples.length < 2 ^ 31 := by
  obtain ⟨bits, hbits, h⟩ := Option.bind_eq_some_iff.mp hstream
  have hlt : bits < 2 ^ 31 := by
    unfold checkedInt at hbits
    split at hbits
    · rename_i hrange
      exact Option.some.inj hbits ▸ hrange.2
    · cases hbits
  have hle := bytesForBits_le hlt
  generalize bytesForBits bits = bitstreamLength at h hle
  dsimp only at h
  split at h
  · cases h
  · obtain ⟨bytes, -, h⟩ := Option.bind_eq_some_iff.mp h
    obtain rfl := Option.some.inj h
    have htake := length_take_le bitstreamLength.toNat bytes
    rw [hlen] at htake
    omega

theorem samplesFound_eq_iff : (5 * n + 7) / 8 * 8 / 5 = n ↔ ¬(n % 8 = 2 ∨ n % 8 = 5 ∨ n % 8 = 7) := by
  have hr : n % 8 < 8 := Nat.mod_lt n (by decide)
  obtain ⟨q, r, hn, hmod⟩ : ∃ q r, n = 8 * q + r ∧ n % 8 = r := ⟨n / 8, n % 8, (Nat.div_add_mod n 8).symm, rfl⟩
  rw [hmod] at hr ⊢
  subst hn
  have hlen : (5 * (8 * q + r) + 7) / 8 = 5 * q + (5 * r + 7) / 8 := by omega
  rw [hlen]
  interval_cases r <;> omega

theorem roundTrips_iff (hpeak : 0 < self.peak.toInt)
    (hsamples : ∀ sample ∈ self.samples, (sample.toNat : Int) ≤ self.peak.toInt)
    (hsmall : 5 * self.samples.length < 2 ^ 31) {written read rewritten : Bytes} (hwritten : 3 ≤ written.length)
    (hread : 3 ≤ read.length) (hrewritten : 3 ≤ rewritten.length) :
    self.RoundTrips written read rewritten ↔ (5 * self.samples.length + 7) / 8 * 8 / 5 = self.samples.length := by
  have hdigits : ∀ d ∈ self.samples.map (scaled self.peak), d < 2 ^ 5 := by
    intro d hd
    obtain ⟨sample, hsample, rfl⟩ := mem_map.mp hd
    exact scaled_lt hpeak (hsamples sample hsample)
  obtain ⟨stream, hstream, hlen, hnum⟩ := bitstream_eq hpeak hsamples hsmall hwritten
  have hdecoded := initWithBitstream_eq hread hdigits hnum (by omega)
  rw [hlen] at hdecoded
  constructor
  · rintro ⟨stream', decoded, hstream', -, hdecoded', hvalues, -⟩
    obtain rfl := Option.some.inj (hstream.symm.trans hstream')
    obtain rfl := Option.some.inj (hdecoded.symm.trans hdecoded')
    have hcnt := congrArg List.length hvalues
    simpa using hcnt
  · intro hcnt
    rw [hcnt] at hdecoded
    have hfound : (List.range self.samples.length).map (fun j => (self.samples.map (scaled self.peak)).getD j 0) =
        self.samples.map (scaled self.peak) := by
      refine ext_getElem (by simp) fun j hj _ => ?_
      rw [length_map, length_range] at hj
      simp [getD_eq_getElem?_getD, hj]
    have hvalues : ((List.range self.samples.length).map fun j =>
        ofNat ((self.samples.map (scaled self.peak)).getD j 0)) =
          (self.samples.map (scaled self.peak)).map ofNat := by
      conv_rhs => rw [← hfound, map_map]
      rfl
    have hlow : ∀ d ∈ self.samples.map (scaled self.peak), (ofNat d).toNat = d := fun d hd => by
      rw [UInt16.toNat_ofNat', Nat.mod_eq_of_lt ((hdigits d hd).trans (by decide))]
    rw [hvalues] at hdecoded
    set decoded : TGAudioWaveform := ⟨(self.samples.map (scaled self.peak)).map ofNat, 31⟩
    have hagain : decoded.samples.map (scaled decoded.peak) = self.samples.map (scaled self.peak) := by
      rw [map_map, map_congr_left, map_id]
      intro d hd
      show 31 * (ofNat d).toNat / 31 = d
      rw [hlow d hd, Nat.mul_div_cancel_left _ (by decide)]
    have hpeak' : ∀ sample ∈ decoded.samples, (sample.toNat : Int) ≤ decoded.peak.toInt := by
      intro sample hsample
      obtain ⟨d, hd, rfl⟩ := mem_map.mp hsample
      rw [hlow d hd]
      have hd' := hdigits d hd
      show (d : Int) ≤ 31
      omega
    have hlength' : decoded.samples.length = self.samples.length := by simp [decoded]
    obtain ⟨stream', hstream', hlength'', hnumber'⟩ :=
      bitstream_eq (show 0 < (31 : Int32).toInt by decide) hpeak' (by rwa [hlength']) hrewritten
    rw [hlength'] at hlength''
    rw [hagain] at hnumber'
    obtain rfl := ofLe_inj (hlen.trans hlength''.symm) (hnum.trans hnumber'.symm)
    refine ⟨stream, decoded, hstream, hlen, hdecoded, ?_, hstream'⟩
    have hsame : decoded.samples.map toNat = self.samples.map (scaled self.peak) := by
      rw [map_map]
      exact map_congr_left hlow |>.trans (map_id' _)
    exact hsame

/-- **The codec.** Within the buffers only an empty waveform can be written. With three bytes behind the buffers a waveform
is read back exactly if the bits that are left over in the last byte are no further field. -/
theorem waveform_roundTrips_iff (self : TGAudioWaveform) (hpeak : 1 ≤ self.peak.toInt)
    (hsamples : ∀ sample ∈ self.samples, (sample.toNat : Int) ≤ self.peak.toInt) :
    (self.RoundTrips [] [] [] ↔ self.samples = []) ∧
      ∀ written read rewritten : Bytes, 3 ≤ written.length → 3 ≤ read.length → 3 ≤ rewritten.length →
        (self.RoundTrips written read rewritten ↔
          5 * self.samples.length < 2 ^ 31 ∧ ¬(self.samples.length % 8 = 2 ∨ self.samples.length % 8 = 5 ∨
            self.samples.length % 8 = 7)) := by
  refine ⟨⟨?_, ?_⟩, ?_⟩
  · rintro ⟨stream, -, hstream, hlength, -⟩
    by_contra hne
    have hpos : 0 < self.samples.length := length_pos_iff.mpr hne
    rw [bitstream_eq_bind (small_of_length hstream hlength), setSamples_eq_none hne (by simp; omega)] at hstream
    cases hstream
  · intro hempty
    obtain ⟨samples, peak⟩ := self
    obtain rfl : samples = [] := hempty
    have hwritten : TGAudioWaveform.bitstream ⟨[], peak⟩ [] = some [] := by
      rw [bitstream_eq_bind (by simp)]
      simp [setSamples]
    exact ⟨[], ⟨[], 31⟩, hwritten, by simp, by decide, rfl, by decide⟩
  · intro written read rewritten hwritten hread hrewritten
    constructor
    · intro h
      obtain ⟨stream, -, hstream, hlength, -⟩ := id h
      have hsmall := small_of_length hstream hlength
      have hcount := (roundTrips_iff hpeak hsamples hsmall hwritten hread hrewritten).mp h
      exact ⟨hsmall, (samplesFound_eq_iff _).mp hcount⟩
    · rintro ⟨hsmall, hcount⟩
      exact (roundTrips_iff hpeak hsamples hsmall hwritten hread hrewritten).mpr ((samplesFound_eq_iff _).mpr hcount)

/-- Four samples up to their peak, and none at all. -/
theorem waveform_roundTrips_four :
    (TGAudioWaveform.RoundTrips [0, 0, 0] [0, 0, 0] [0, 0, 0] ⟨[1, 4, 2, 7], 7⟩) ∧
      ¬TGAudioWaveform.RoundTrips [] [] [] ⟨[1, 4, 2, 7], 7⟩ := by
  obtain ⟨hwithin, hbehind⟩ := waveform_roundTrips_iff ⟨[1, 4, 2, 7], 7⟩ (by decide) (by simp)
  exact ⟨(hbehind _ _ _ (by decide) (by decide) (by decide)).mpr (by decide), fun h => absurd (hwithin.mp h) (by decide)⟩

/-- A single sample: the word at the start of a buffer of one byte. -/
theorem single_sample_outside : ¬TGAudioWaveform.RoundTrips [] [] [] ⟨[1], 1⟩ := by
  rintro ⟨stream, decoded, hstream, -⟩
  have hnone : TGAudioWaveform.bitstream ⟨[1], 1⟩ [] = none := by decide
  exact absurd (hnone.symm.trans hstream) (by simp)

end TelegramClient.Messages
