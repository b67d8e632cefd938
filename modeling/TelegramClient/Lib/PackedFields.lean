import Mathlib.Data.Nat.Digits.Defs
import TelegramClient.Lib.ByteOrder
import TelegramClient.Lib.Pointer

/-!
# Fields of a few bits in memory

Memory is one number, with the first byte at the least significant end. A word that is read at a pointer is a part of this
number, and fields of one width that are put in one after another are its digits.

* `wordAt`, `storeAt` : words at a pointer, at any alignment;
* `ofDigits_digit` : and is found there.
-/

namespace TelegramClient
open List

/-- The word of `w` bits at `ptr`. -/
def wordAt (w : Nat) (memory : Bytes) (ptr : Nat) : Option (BitVec w) := (bytesAt memory ptr (w / 8)).map (ofLeBits w)

/-- The memory after `word` has been stored at `ptr`. -/
def storeAt {w : Nat} (memory : Bytes) (ptr : Nat) (word : BitVec w) : Option Bytes :=
  if ptr + w / 8 ≤ memory.length then some (memory.take ptr ++ leBits word ++ memory.drop (ptr + w / 8)) else none

/-! ## Parts of the number -/

variable {n : Nat}

theorem ofLe_split (bs : Bytes) (hn : n ≤ bs.length) : ofLe bs = ofLe (bs.take n) + 256 ^ n * ofLe (bs.drop n) := by
  have h := ofLe_append (bs.take n) (bs.drop n)
  rwa [take_append_drop, length_take_of_le hn] at h

theorem ofLe_take (bs : Bytes) (hn : n ≤ bs.length) : ofLe (bs.take n) = ofLe bs % 256 ^ n := by
  have hlt : ofLe (bs.take n) < 256 ^ n := by
    have h := ofLe_lt (bs.take n)
    rwa [length_take_of_le hn] at h
  rw [ofLe_split bs hn, Nat.add_mul_mod_self_left, Nat.mod_eq_of_lt hlt]

theorem ofLe_drop (bs : Bytes) (hn : n ≤ bs.length) : ofLe (bs.drop n) = ofLe bs / 256 ^ n := by
  have hlt : ofLe (bs.take n) < 256 ^ n := by
    have h := ofLe_lt (bs.take n)
    rwa [length_take_of_le hn] at h
  rw [ofLe_split bs hn, Nat.add_mul_div_left _ _ (pow_pos (by decide) n), Nat.div_eq_of_lt hlt, zero_add]

theorem ofLe_slice {bs : Bytes} {ptr : Nat} (h : ptr + n ≤ bs.length) :
    ofLe (slice bs ptr n) = ofLe bs / 256 ^ ptr % 256 ^ n := by
  rw [slice, ofLe_take _ (by rw [length_drop]; omega), ofLe_drop bs (by omega)]

theorem ofLe_replicate_zero (n : Nat) : ofLe (List.replicate n 0) = 0 := by
  induction n with
  | zero => rfl
  | succ n ih => rw [replicate_succ, ofLe, ih]; rfl

theorem ofLe_append_or (as bs : Bytes) : ofLe (as ++ bs) = ofLe as ||| ofLe bs <<< (8 * as.length) := by
  have hpow : (256 : Nat) ^ as.length = 2 ^ (8 * as.length) := by rw [pow_mul]; rfl
  have hlt : ofLe as < 2 ^ (8 * as.length) := hpow ▸ ofLe_lt as
  rw [ofLe_append, hpow, Nat.add_comm, Nat.two_pow_add_eq_or_of_lt hlt, Nat.or_comm, Nat.shiftLeft_eq, Nat.mul_comm]

/-! ## Words -/

section
variable {w : Nat} {memory : Bytes} {ptr : Nat}

theorem wordAt_eq_none (h : memory.length < ptr + w / 8) : wordAt w memory ptr = none := by
  rw [wordAt, bytesAt, if_neg (by omega), Option.map_none]

theorem wordAt_of_le (h : ptr + w / 8 ≤ memory.length) :
    wordAt w memory ptr = some (ofLeBits w (slice memory ptr (w / 8))) := by
  rw [wordAt, bytesAt, if_pos h, Option.map_some]

theorem toNat_ofLeBits_slice (hw : w % 8 = 0) (h : ptr + w / 8 ≤ memory.length) :
    (ofLeBits w (slice memory ptr (w / 8))).toNat = ofLe memory / 256 ^ ptr % 2 ^ w := by
  rw [ofLeBits, BitVec.toNat_ofNat, ofLe_slice h, pow_256_div_8 hw, Nat.mod_mod]

theorem ofLe_leBits (hw : w % 8 = 0) (x : BitVec w) : ofLe (leBits x) = x.toNat := by
  rw [leBits, ofLe_leBytes, pow_256_div_8 hw, Nat.mod_eq_of_lt x.isLt]

theorem length_storeAt {word : BitVec w} {memory' : Bytes} (h : storeAt memory ptr word = some memory') :
    memory'.length = memory.length := by
  unfold storeAt at h
  split at h
  · obtain rfl := Option.some.inj h
    simp only [length_append, length_take, length_leBits, length_drop]
    omega
  · cases h

/-- **Bits that are set in a word are set in the number.** -/
theorem ofLe_orAt (hw : w % 8 = 0) (h : ptr + w / 8 ≤ memory.length) (bits : BitVec w) :
    ∃ memory', storeAt memory ptr (ofLeBits w (slice memory ptr (w / 8)) ||| bits) = some memory' ∧
      ofLe memory' = ofLe memory ||| bits.toNat <<< (8 * ptr) := by
  have hsplit : memory = memory.take ptr ++ slice memory ptr (w / 8) ++ memory.drop (ptr + w / 8) := by
    rw [slice, append_assoc, ← drop_drop, take_append_drop, take_append_drop]
  have hslice : ofLe (slice memory ptr (w / 8)) = (ofLeBits w (slice memory ptr (w / 8))).toNat := by
    have hlt := ofLe_lt (slice memory ptr (w / 8))
    rw [length_slice h, pow_256_div_8 hw] at hlt
    rw [ofLeBits, BitVec.toNat_ofNat, Nat.mod_eq_of_lt hlt]
  have htake : (memory.take ptr).length = ptr := length_take_of_le (by omega)
  refine ⟨_, if_pos h, ?_⟩
  conv_rhs => rw [hsplit]
  rw [ofLe_append_or, ofLe_append_or, ofLe_append_or (memory.take ptr ++ slice memory ptr (w / 8)),
    ofLe_append_or (memory.take ptr), length_append, length_append, length_leBits, length_slice h, htake,
    ofLe_leBits hw, hslice, BitVec.toNat_or, Nat.shiftLeft_or_distrib]
  ac_rfl

end

/-! ## Digits -/

variable {width total : Nat} {digits : List Nat}

/-- **A field that is set behind the others is the next digit.** Above them is what lies behind the `total` bits. -/
theorem ofDigits_or {digit : Nat} (hdigits : ∀ d ∈ digits, d < 2 ^ width) (hdigit : digit < 2 ^ width)
    (hwidth : 0 < width) (hfits : width * (digits.length + 1) ≤ total) (above : Nat) :
    (Nat.ofDigits (2 ^ width) digits + 2 ^ total * above) ||| digit <<< (width * digits.length) =
      Nat.ofDigits (2 ^ width) (digits ++ [digit]) + 2 ^ total * above := by
  have hlt : Nat.ofDigits (2 ^ width) digits < 2 ^ (width * digits.length) := by
    have h := Nat.ofDigits_lt_base_pow_length (Nat.one_lt_two_pow hwidth.ne') hdigits
    rwa [← pow_mul] at h
  have hsum : Nat.ofDigits (2 ^ width) digits ||| digit <<< (width * digits.length) =
      Nat.ofDigits (2 ^ width) (digits ++ [digit]) := by
    rw [Nat.ofDigits_append, Nat.ofDigits_singleton, ← pow_mul, Nat.add_comm, Nat.two_pow_add_eq_or_of_lt hlt,
      Nat.or_comm, Nat.shiftLeft_eq, Nat.mul_comm digit]
  have hall : ∀ d ∈ digits ++ [digit], d < 2 ^ width := by
    intro d hd
    rcases mem_append.mp hd with hd | hd
    · exact hdigits d hd
    · rw [mem_singleton.mp hd]
      exact hdigit
  have hlt' : Nat.ofDigits (2 ^ width) (digits ++ [digit]) < 2 ^ total := by
    have h := Nat.ofDigits_lt_base_pow_length (Nat.one_lt_two_pow hwidth.ne') hall
    rw [← pow_mul, length_append, length_singleton] at h
    exact h.trans_le (Nat.pow_le_pow_right (by decide) hfits)
  have hbelow : Nat.ofDigits (2 ^ width) digits < 2 ^ total :=
    hlt.trans_le (Nat.pow_le_pow_right (by decide) (le_trans (Nat.mul_le_mul_left _ (Nat.le_succ _)) hfits))
  rw [Nat.add_comm, Nat.two_pow_add_eq_or_of_lt hbelow, Nat.or_assoc, hsum, ← Nat.two_pow_add_eq_or_of_lt hlt',
    Nat.add_comm]

theorem ofDigits_digit (hdigits : ∀ d ∈ digits, d < 2 ^ width) (above : Nat) {i : Nat} (hi : width * (i + 1) ≤ total) :
    (Nat.ofDigits (2 ^ width) digits + 2 ^ total * above) / 2 ^ (width * i) % 2 ^ width = digits.getD i 0 := by
  have htotal : 2 ^ total * above = 2 ^ (width * i) * (2 ^ width * (2 ^ (total - width * (i + 1)) * above)) := by
    rw [← Nat.mul_assoc, ← Nat.mul_assoc, ← pow_add, ← pow_add]
    congr 2
    rw [Nat.mul_succ] at hi ⊢
    omega
  rw [htotal, Nat.add_mul_div_left _ _ (Nat.two_pow_pos _), Nat.add_mul_mod_self_left, pow_mul,
    Nat.ofDigits_div_pow_eq_ofDigits_drop i (Nat.two_pow_pos _) digits hdigits]
  cases hdrop : digits.drop i with
  | nil =>
    rw [getD_eq_getElem?_getD, getElem?_eq_none (drop_eq_nil_iff.mp hdrop)]
    rfl
  | cons d rest =>
    have hd : digits[i]? = some d := by
      rw [← Nat.add_zero i, ← getElem?_drop, hdrop]
      rfl
    rw [Nat.ofDigits_cons, Nat.add_mul_mod_self_left, getD_eq_getElem?_getD, hd, Option.getD_some,
      Nat.mod_eq_of_lt (hdigits d (mem_of_getElem? hd))]

end TelegramClient
