import Mathlib.Data.List.TakeWhile

/-!
# The hashes of phone numbers and names

* `MurmurHash3_x86_32` : the hash of a string of bytes;
* `phoneMatchHash_eq` : `phoneMatchHash` is `murMurHash32` of those digits.
-/

namespace TelegramClient.Contacts
open List

/-! ## The hash of bytes -/

def rotl32 (x r : UInt32) : UInt32 := (x <<< r) ||| (x >>> (32 - r))

def fmix (h : UInt32) : UInt32 :=
  let h := h ^^^ (h >>> 16)
  let h := h * 0x85ebca6b
  let h := h ^^^ (h >>> 13)
  let h := h * 0xc2b2ae35
  h ^^^ (h >>> 16)

/-- The factor of a block, which is mixed into the hash. -/
def mixBlock (k1 : UInt32) : UInt32 := rotl32 (k1 * 0xcc9e2d51) 15 * 0x1b873593

/-- The blocks of four bytes, least byte first, and then the rest of at most three. -/
def hashBlocks (h1 : UInt32) : List UInt8 → UInt32
  | b0 :: b1 :: b2 :: b3 :: rest =>
    let k1 := b0.toUInt32 ||| (b1.toUInt32 <<< 8) ||| (b2.toUInt32 <<< 16) ||| (b3.toUInt32 <<< 24)
    hashBlocks (rotl32 (h1 ^^^ mixBlock k1) 13 * 5 + 0xe6546b64) rest
  | [b0, b1, b2] => h1 ^^^ mixBlock ((b2.toUInt32 <<< 16) ^^^ (b1.toUInt32 <<< 8) ^^^ b0.toUInt32)
  | [b0, b1] => h1 ^^^ mixBlock ((b1.toUInt32 <<< 8) ^^^ b0.toUInt32)
  | [b0] => h1 ^^^ mixBlock b0.toUInt32
  | [] => h1

def MurmurHash3_x86_32 (key : List UInt8) (seed : UInt32) : UInt32 :=
  fmix (hashBlocks seed key ^^^ UInt32.ofNat key.length)

example : MurmurHash3_x86_32 [104, 101, 108, 108, 111] 0 = 0x248bfa47 := by decide

def hashSeed : UInt32 := (-137723950 : Int32).toUInt32

/-! ## The hashes of texts and numbers -/

def utf8String (text : String) : List UInt8 := text.toList.flatMap String.utf8EncodeChar

/-- The bytes up to the first zero, at which `strlen` stops. -/
def murMurHash32 (text : String) : Int32 :=
  (MurmurHash3_x86_32 ((utf8String text).takeWhile fun b => b ≠ 0) hashSeed).toInt32

def isPhoneDigit (c : Char) : Bool := '0' ≤ c ∧ c ≤ '9'

def phoneDigits (phone : String) : List Char := phone.toList.filter isPhoneDigit

/-- `[TGPhoneUtils cleanPhone:]`. -/
def cleanPhone (phone : String) : String := String.ofList (phoneDigits phone)

def matchDigits (phone : String) : List Char :=
  let digits := phoneDigits phone
  if digits.length > 8 then digits.drop (digits.length - 8) else digits

def phoneMatchHash (phone : String) : Int32 :=
  (MurmurHash3_x86_32 ((matchDigits phone).map fun c => c.toNat.toUInt8) hashSeed).toInt32

/-! ## Numbers without their other characters -/

/-- The text of which `phoneMatchHash` is the hash. -/
def matchText (phone : String) : String := String.ofList (matchDigits phone)

variable (phone : String)

@[simp] theorem phoneDigits_cleanPhone : phoneDigits (cleanPhone phone) = phoneDigits phone := by
  simp [cleanPhone, phoneDigits]

@[simp] theorem cleanPhone_cleanPhone : cleanPhone (cleanPhone phone) = cleanPhone phone := by
  rw [cleanPhone, phoneDigits_cleanPhone, cleanPhone]

@[simp] theorem phoneMatchHash_cleanPhone : phoneMatchHash (cleanPhone phone) = phoneMatchHash phone := by
  simp [phoneMatchHash, matchDigits]

theorem length_cleanPhone : (cleanPhone phone).length = (phoneDigits phone).length := by
  simp [cleanPhone]

theorem matchDigits_subset : ∀ c ∈ matchDigits phone, isPhoneDigit c := by
  intro c hc
  have hdigits : c ∈ phoneDigits phone := by
    dsimp only [matchDigits] at hc
    split at hc
    · exact mem_of_mem_drop hc
    · exact hc
  exact (mem_filter.mp hdigits).2

theorem length_matchDigits_le : (matchDigits phone).length ≤ 8 := by
  dsimp only [matchDigits]
  split
  · simp only [length_drop]
    omega
  · omega

theorem matchText_eq_cleanPhone_iff : matchText phone = cleanPhone phone ↔ (cleanPhone phone).length ≤ 8 := by
  constructor
  · intro h
    rw [← h, matchText, String.length_ofList]
    exact length_matchDigits_le phone
  · intro h
    rw [length_cleanPhone] at h
    rw [matchText, cleanPhone, matchDigits, if_neg (by omega)]

theorem utf8EncodeChar_digit {c : Char} (h : isPhoneDigit c) :
    String.utf8EncodeChar c = [c.toNat.toUInt8] ∧ c.toNat.toUInt8 ≠ 0 := by
  have hbounds : '0' ≤ c ∧ c ≤ '9' := by simpa [isPhoneDigit] using h
  have hlow : 48 ≤ c.toNat := hbounds.1
  have hhigh : c.toNat ≤ 57 := hbounds.2
  constructor
  · have hval : c.val.toNat ≤ 127 := by
      have : c.val.toNat = c.toNat := rfl
      omega
    simp only [String.utf8EncodeChar, if_pos hval]
    rfl
  · intro hzero
    have hmod : c.toNat % 256 = 0 := by simpa using congrArg UInt8.toNat hzero
    omega

theorem phoneMatchHash_eq : phoneMatchHash phone = murMurHash32 (matchText phone) := by
  have hutf8 : utf8String (matchText phone) = (matchDigits phone).map fun c => c.toNat.toUInt8 := by
    rw [utf8String, matchText, String.toList_ofList, map_eq_flatMap, flatMap_def, flatMap_def]
    exact congrArg List.flatten
      (map_congr_left fun c hc => (utf8EncodeChar_digit (matchDigits_subset phone c hc)).1)
  have hstrlen : ∀ b ∈ (matchDigits phone).map fun c => c.toNat.toUInt8, decide (b ≠ 0) = true := by
    intro b hb
    obtain ⟨c, hc, rfl⟩ := mem_map.mp hb
    exact decide_eq_true (utf8EncodeChar_digit (matchDigits_subset phone c hc)).2
  rw [murMurHash32, hutf8, takeWhile_eq_self_iff.mpr hstrlen]
  rfl

end TelegramClient.Contacts
