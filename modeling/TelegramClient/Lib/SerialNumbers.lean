import Mathlib.Algebra.Order.Group.Unbundled.Int

/-!
# Serial numbers

A whole number `n` is sent as `UInt32.ofInt n`. Two numbers that are near each other are told apart and ordered by what
is sent of them.

* `toNat_ofInt`, `ofInt_sub` : residues and their differences;
* `ofInt_inj_of_near` : numbers less than `2 ^ 32` apart;
* `toNat_sub_ofInt` : the distance to a number that is not far ahead.
-/

namespace TelegramClient
open UInt32 (ofInt ofNat toNat_inj toNat_ofNat')

theorem toNat_ofInt (n : Int) : ((ofInt n).toNat : Int) = n % 2 ^ 32 := by
  rw [ofInt, toNat_ofNat']
  omega

theorem ofInt_natCast (n : Nat) : ofInt n = ofNat n := by
  rw [← toNat_inj, ← Int.natCast_inj, toNat_ofInt, toNat_ofNat']
  omega

theorem ofInt_sub (a b : Int) : ofInt (a - b) = ofInt a - ofInt b := by
  rw [Int.sub_eq_add_neg, UInt32.ofInt_add, UInt32.ofInt_neg, UInt32.sub_eq_add_neg]

theorem ofInt_eq_iff (a b : Int) : ofInt a = ofInt b ↔ a % 2 ^ 32 = b % 2 ^ 32 := by
  rw [← toNat_inj, ← Int.natCast_inj, toNat_ofInt, toNat_ofInt]

theorem ofInt_inj_of_near {a b : Int} (h : |a - b| < 2 ^ 32) : ofInt a = ofInt b ↔ a = b := by
  have hbounds := abs_lt.mp h
  rw [ofInt_eq_iff]
  omega

theorem toNat_sub_ofInt {a b : Int} (hle : b ≤ a) (hlt : a - b < 2 ^ 32) :
    ((ofInt a - ofInt b).toNat : Int) = a - b := by
  rw [← ofInt_sub, toNat_ofInt]
  exact Int.emod_eq_of_lt (by omega) hlt

end TelegramClient
