import Mathlib.FieldTheory.Finite.Basic

/-!
# Powers modulo a safe prime

Modulo a prime `p = 2 * q + 1` with a prime `q`, a number other than `0`, `1` and `p - 1` has the order `q` or `2 * q`.

* `dvd_orderOf` : the order of such a number;
* `modEq_of_pow_mod_eq` : **its power tells the exponent** modulo `q`.
-/

namespace TelegramClient

section
variable {p q : Nat}

theorem dvd_orderOf [Fact p.Prime] (hq : q.Prime) (hp : p - 1 = 2 * q) {x : (ZMod p)ˣ} (hone : x ≠ 1)
    (hneg : x ≠ -1) : q ∣ orderOf x := by
  have hdvd : orderOf x ∣ 2 * q := hp ▸ ZMod.orderOf_units_dvd_card_sub_one x
  by_contra hnot
  have hcoprime : Nat.Coprime (orderOf x) q := ((Nat.Prime.coprime_iff_not_dvd hq).mpr hnot).symm
  have hsq : x ^ 2 = 1 := orderOf_dvd_iff_pow_eq_one.mp (hcoprime.dvd_of_dvd_mul_right hdvd)
  have hval : (x : ZMod p) ^ 2 = 1 := by simpa using congrArg Units.val hsq
  rcases sq_eq_one_iff.mp hval with h | h
  · exact hone (Units.ext h)
  · exact hneg (Units.ext (by simpa using h))

/-- **The power of a number in the range tells the exponent.** -/
theorem modEq_of_pow_mod_eq (hprime : p.Prime) (hq : q.Prime) (hp : p - 1 = 2 * q) {v n m : Nat} (hv : 1 < v)
    (hv' : v < p - 1) (h : v ^ n % p = v ^ m % p) : n ≡ m [MOD q] := by
  have : Fact p.Prime := ⟨hprime⟩
  have hcoprime : Nat.Coprime v p := by
    apply Nat.Coprime.symm
    rw [hprime.coprime_iff_not_dvd]
    intro hdvd
    have hle := Nat.le_of_dvd (by omega) hdvd
    omega
  have hcast : ((ZMod.unitOfCoprime v hcoprime : (ZMod p)ˣ) : ZMod p) = v := rfl
  have hpow : ZMod.unitOfCoprime v hcoprime ^ n = ZMod.unitOfCoprime v hcoprime ^ m := by
    ext
    rw [Units.val_pow_eq_pow_val, Units.val_pow_eq_pow_val, hcast]
    exact_mod_cast (ZMod.natCast_eq_natCast_iff' _ _ _).mpr h
  refine (pow_eq_pow_iff_modEq.mp hpow).of_dvd (dvd_orderOf hq hp ?_ ?_)
  · intro hone
    have hone' : (v : ZMod p) = (1 : Nat) := by simpa using congrArg Units.val hone
    have hmod := (ZMod.natCast_eq_natCast_iff' _ _ _).mp hone'
    rw [Nat.mod_eq_of_lt (by omega), Nat.mod_eq_of_lt (by omega)] at hmod
    omega
  · intro hneg
    have hneg' : ((v + 1 : Nat) : ZMod p) = (0 : Nat) := by
      have hval : (v : ZMod p) = -1 := by simpa using congrArg Units.val hneg
      simp [hval]
    have hmod := (ZMod.natCast_eq_natCast_iff' _ _ _).mp hneg'
    rw [Nat.mod_eq_of_lt (by omega), Nat.zero_mod] at hmod
    omega

end

end TelegramClient
