import Mathlib.Data.Prod.Lex
import TelegramClient.Lib.Bytes

/-!
# The order of byte strings

`memcmp` looks for the first byte that differs. For strings of one length this is the order of the numbers that they are
with the most significant byte first, and of the parts that they consist of.

* `compare_mul_add` : numbers are compared digit by digit;
* `compare_memcmp` : **the order of `memcmp` is that of the big-endian values**;
* `ofBe_append` : the value of a string from those of its parts.
-/

namespace TelegramClient
open List

/-- `memcmp` of strings of one length: the difference of the first bytes that differ. -/
def memcmp : Bytes → Bytes → Int
  | a :: as, b :: bs => if a = b then memcmp as bs else (a.toNat : Int) - b.toNat
  | _, _ => 0

theorem ofLe_append (as bs : Bytes) : ofLe (as ++ bs) = ofLe as + 256 ^ as.length * ofLe bs := by
  induction as with
  | nil => simp [ofLe]
  | cons a as ih =>
    rw [cons_append, ofLe, ih, ofLe, length_cons]
    ring

variable {as bs : Bytes}

theorem ofLe_inj (hlen : as.length = bs.length) (h : ofLe as = ofLe bs) : as = bs := by
  rw [← leBytes_ofLe as, hlen, h, leBytes_ofLe]

theorem ofBe_append (as bs : Bytes) : ofBe (as ++ bs) = ofBe as * 256 ^ bs.length + ofBe bs := by
  rw [ofBe, reverse_append, ofLe_append, length_reverse, ← ofBe, ← ofBe]
  ring

theorem ofBe_cons (b : UInt8) (bs : Bytes) : ofBe (b :: bs) = b.toNat * 256 ^ bs.length + ofBe bs := by
  have h := ofBe_append [b] bs
  rwa [singleton_append, show ofBe [b] = b.toNat from rfl] at h

theorem ofBe_lt (bs : Bytes) : ofBe bs < 256 ^ bs.length := by
  have h := ofBe_beBytes bs.length (ofBe bs)
  rw [beBytes_ofBe] at h
  rw [h]
  exact Nat.mod_lt _ (pow_pos (by decide) _)

theorem ofBe_inj (hlen : as.length = bs.length) (h : ofBe as = ofBe bs) : as = bs := by
  rw [← beBytes_ofBe as, hlen, h, beBytes_ofBe]

theorem compare_mul_add {p x y : Nat} (a b : Nat) (hx : x < p) (hy : y < p) :
    compare (a * p + x) (b * p + y) = (compare a b).then (compare x y) := by
  rcases lt_trichotomy a b with h | rfl | h
  · have hle : (a + 1) * p ≤ b * p := Nat.mul_le_mul_right p h
    rw [Nat.compare_eq_lt.mpr h, Nat.compare_eq_lt.mpr (by rw [add_mul] at hle; omega)]
    rfl
  · rw [Nat.compare_eq_eq.mpr rfl, Nat.compare_eq_ite_lt, Nat.compare_eq_ite_lt]
    simp
  · have hle : (b + 1) * p ≤ a * p := Nat.mul_le_mul_right p h
    rw [Nat.compare_eq_gt.mpr h, Nat.compare_eq_gt.mpr (by rw [add_mul] at hle; omega)]
    rfl

theorem compare_memcmp (hlen : as.length = bs.length) : compare (memcmp as bs) 0 = compare (ofBe as) (ofBe bs) := by
  induction as generalizing bs with
  | nil =>
    obtain rfl := length_eq_zero_iff.mp hlen.symm
    rfl
  | cons a as ih =>
    obtain ⟨b, bs, rfl⟩ := exists_cons_of_length_eq_add_one hlen.symm
    have hlen' : as.length = bs.length := by simpa using hlen
    have hparts : compare (ofBe (a :: as)) (ofBe (b :: bs)) =
        (compare a.toNat b.toNat).then (compare (ofBe as) (ofBe bs)) := by
      rw [ofBe_cons, ofBe_cons, hlen']
      exact compare_mul_add _ _ (hlen' ▸ ofBe_lt as) (ofBe_lt bs)
    rw [hparts, memcmp]
    by_cases h : a = b
    · rw [if_pos h, ih hlen', h, Nat.compare_eq_eq.mpr rfl]
      rfl
    · have hne : a.toNat ≠ b.toNat := fun heq => h (UInt8.toNat_inj.mp heq)
      rw [if_neg h, Int.compare_eq_ite_lt, Nat.compare_eq_ite_lt]
      split_ifs <;> first | rfl | omega

theorem memcmp_nonpos (hlen : as.length = bs.length) : memcmp as bs ≤ 0 ↔ ofBe as ≤ ofBe bs := by
  rw [← Int.compare_ne_gt, compare_memcmp hlen, Nat.compare_ne_gt]

end TelegramClient
