import Mathlib.Data.List.Basic
import Mathlib.Tactic.Ring

/-!
# Byte strings and fixed-width integers

* `leBytes n v` / `ofLe` : the `n` little-endian bytes of `v`, and the value of a little-endian string
  (`ofLe_leBytes`, `leBytes_ofLe`); `ofBe` and `beBytes` are the same with the most significant byte first;
* `xorBytes` : the byte-wise exclusive or, and `leBytes_xor`: it is the exclusive or of the values.
-/

namespace TelegramClient
open List

abbrev Bytes := List UInt8

/-! ## Little-endian values -/

/-- The `n` little-endian bytes of `v`; what does not fit is dropped. -/
def leBytes : Nat → Nat → Bytes
  | 0, _ => []
  | n + 1, v => UInt8.ofNat v :: leBytes n (v / 256)

def ofLe : Bytes → Nat
  | [] => 0
  | b :: bs => b.toNat + 256 * ofLe bs

@[simp] theorem length_leBytes (n v : Nat) : (leBytes n v).length = n := by
  induction n generalizing v with
  | zero => rfl
  | succ n ih => rw [leBytes, length_cons, ih]

theorem ofLe_leBytes (n v : Nat) : ofLe (leBytes n v) = v % 256 ^ n := by
  induction n generalizing v with
  | zero => simp [leBytes, ofLe, Nat.mod_one]
  | succ n ih =>
    rw [leBytes, ofLe, ih, UInt8.toNat_ofNat', pow_succ' (n := n), Nat.mod_mul]

theorem leBytes_ofLe (bs : Bytes) : leBytes bs.length (ofLe bs) = bs := by
  induction bs with
  | nil => rfl
  | cons b bs ih =>
    have hb : b.toNat < 256 := b.toNat_lt
    have hdiv : (b.toNat + 256 * ofLe bs) / 256 = ofLe bs := by omega
    have hbyte : UInt8.ofNat (b.toNat + 256 * ofLe bs) = b := by
      apply UInt8.toNat_inj.mp
      rw [UInt8.toNat_ofNat']
      omega
    rw [length_cons, ofLe, leBytes, hdiv, hbyte, ih]

theorem ofLe_lt (bs : Bytes) : ofLe bs < 256 ^ bs.length := by
  have h := ofLe_leBytes bs.length (ofLe bs)
  rw [leBytes_ofLe] at h
  rw [h]
  exact Nat.mod_lt _ (pow_pos (by decide) _)

/-! ## Fixed-width integers in memory -/

/-- The bytes of an integer of `w` bits, as it lies in memory. -/
def leBits {w : Nat} (x : BitVec w) : Bytes := leBytes (w / 8) x.toNat

/-- The integer of `w` bits that a byte string holds. -/
def ofLeBits (w : Nat) (bs : Bytes) : BitVec w := BitVec.ofNat w (ofLe bs)

variable {w : Nat}

@[simp] theorem length_leBits (x : BitVec w) : (leBits x).length = w / 8 :=
  length_leBytes (w / 8) x.toNat

theorem pow_256_div_8 (hw : w % 8 = 0) : (256 : Nat) ^ (w / 8) = 2 ^ w := by
  rw [show (256 : Nat) = 2 ^ 8 from rfl, ← pow_mul, Nat.mul_div_cancel' (Nat.dvd_of_mod_eq_zero hw)]

theorem ofLeBits_leBits (hw : w % 8 = 0) (x : BitVec w) : ofLeBits w (leBits x) = x := by
  apply BitVec.eq_of_toNat_eq
  rw [ofLeBits, leBits, ofLe_leBytes, pow_256_div_8 hw, BitVec.toNat_ofNat, Nat.mod_mod,
    Nat.mod_eq_of_lt x.isLt]

/-! ## Signed numbers next to each other -/

variable {a b : Int32}

theorem toInt_add_one (h : a < b) : (a + 1).toInt = a.toInt + 1 := by
  have hlt : a.toInt < b.toInt := Int32.lt_iff_toInt_lt.mp h
  have hb := b.toInt_lt
  have ha := a.le_toInt
  rw [Int32.toInt_add, show (1 : Int32).toInt = 1 from rfl, Int.bmod_eq_of_le (by omega) (by omega)]

theorem toInt_sub_one (h : b < a) : (a - 1).toInt = a.toInt - 1 := by
  have hlt : b.toInt < a.toInt := Int32.lt_iff_toInt_lt.mp h
  have hb := b.le_toInt
  have ha := a.toInt_lt
  rw [Int32.toInt_sub, show (1 : Int32).toInt = 1 from rfl, Int.bmod_eq_of_le (by omega) (by omega)]

/-! ## Big-endian values -/

def ofBe (bs : Bytes) : Nat := ofLe bs.reverse

/-- The `n` big-endian bytes of `v`. -/
def beBytes (n v : Nat) : Bytes := (leBytes n v).reverse

@[simp] theorem length_beBytes (n v : Nat) : (beBytes n v).length = n := by simp [beBytes]

theorem ofBe_concat (bs : Bytes) (b : UInt8) : ofBe (bs ++ [b]) = 256 * ofBe bs + b.toNat := by
  rw [ofBe, reverse_append, reverse_singleton, singleton_append, ofLe, ofBe, Nat.add_comm]

theorem ofBe_beBytes (n v : Nat) : ofBe (beBytes n v) = v % 256 ^ n := by
  rw [ofBe, beBytes, reverse_reverse, ofLe_leBytes]

theorem beBytes_ofBe (bs : Bytes) : beBytes bs.length (ofBe bs) = bs := by
  have h := leBytes_ofLe bs.reverse
  rw [length_reverse] at h
  rw [beBytes, ofBe, h, reverse_reverse]

/-! ## Slices -/

/-- The `n` bytes at `offset`. -/
def slice (bs : Bytes) (offset n : Nat) : Bytes := (bs.drop offset).take n

variable {bs : Bytes} {offset n : Nat}

theorem length_slice (h : offset + n ≤ bs.length) : (slice bs offset n).length = n := by
  rw [slice, length_take, length_drop]
  omega

theorem slice_append_left (rest : Bytes) (h : offset + n ≤ bs.length) :
    slice (bs ++ rest) offset n = slice bs offset n := by
  rw [slice, slice, drop_append_of_le_length (by omega),
    take_append_of_le_length (by rw [length_drop]; omega)]

theorem slice_append_middle (pre x rest : Bytes) : slice (pre ++ x ++ rest) pre.length x.length = x := by
  rw [slice, append_assoc, drop_left, take_left]

theorem ofLeBits_slice (hw : w % 8 = 0) (pre : Bytes) (x : BitVec w) (rest : Bytes) :
    ofLeBits w (slice (pre ++ leBits x ++ rest) pre.length (w / 8)) = x := by
  have h := slice_append_middle pre (leBits x) rest
  rw [length_leBits] at h
  rw [h, ofLeBits_leBits hw]

/-! ## Exclusive or -/

def xorBytes (as bs : Bytes) : Bytes := List.zipWith (· ^^^ ·) as bs

theorem length_xorBytes (as bs : Bytes) : (xorBytes as bs).length = min as.length bs.length := by
  simp [xorBytes]

theorem ofLe_xor (as bs : Bytes) (h : as.length = bs.length) : ofLe (xorBytes as bs) = ofLe as ^^^ ofLe bs := by
  induction as generalizing bs with
  | nil => simp [length_eq_zero_iff.mp h.symm, xorBytes, ofLe]
  | cons a as ih =>
    obtain ⟨b, bs, rfl⟩ := exists_cons_of_length_eq_add_one h.symm
    have hlen : as.length = bs.length := by simpa using h
    have ha : a.toNat < 256 := a.toNat_lt
    have hb : b.toNat < 256 := b.toNat_lt
    have hlow := Nat.xor_mod_two_pow (a := a.toNat + 256 * ofLe as) (b := b.toNat + 256 * ofLe bs) (n := 8)
    have hhigh := Nat.xor_div_two_pow (a := a.toNat + 256 * ofLe as) (b := b.toNat + 256 * ofLe bs) (n := 8)
    rw [show (a.toNat + 256 * ofLe as) % 2 ^ 8 = a.toNat by omega,
      show (b.toNat + 256 * ofLe bs) % 2 ^ 8 = b.toNat by omega] at hlow
    rw [show (a.toNat + 256 * ofLe as) / 2 ^ 8 = ofLe as by omega,
      show (b.toNat + 256 * ofLe bs) / 2 ^ 8 = ofLe bs by omega] at hhigh
    have hstep : xorBytes (a :: as) (b :: bs) = (a ^^^ b) :: xorBytes as bs := rfl
    rw [hstep, ofLe, ofLe, ofLe, ih bs hlen, UInt8.toNat_xor]
    omega

theorem leBytes_xor {as : Bytes} (ha : as.length = n) (hb : bs.length = n) :
    leBytes n (ofLe as ^^^ ofLe bs) = xorBytes as bs := by
  have hlen : (xorBytes as bs).length = n := by rw [length_xorBytes, ha, hb, Nat.min_self]
  rw [← ofLe_xor as bs (ha.trans hb.symm), ← hlen, leBytes_ofLe]

end TelegramClient
