import TelegramClient.Lib.Bytes

/-!
# The factorization of `pq`

Pollard's rho method as `MTEncryption.m` has it, on 64-bit words that wrap around.

* `mygcd` : the binary gcd, which drops the factors two of both numbers; `mygcd_dvd`;
* `mtFactorize_ok_iff` : **it divides by zero exactly for 0 and 1**, and otherwise ends;
* `factorize`, `factorize_sound` : what its callers see: **factors of `pq`, the smaller one first, or nothing**.
-/

namespace TelegramClient.MtProto

/-- How a method of the key exchange ends the program. -/
inductive Crash where
  | divisionByZero
  /-- An exception of Foundation: a range or a length that is not there. -/
  | exception
  deriving DecidableEq

/-! ## The binary gcd -/

/-- `while ((b & 1) == 0) b >>= 1`, of a number that is not zero. -/
def dropTwos (b : Nat) : Nat := if b ≠ 0 ∧ b % 2 = 0 then dropTwos (b / 2) else b
termination_by b
decreasing_by omega

theorem dropTwos_dvd (b : Nat) : dropTwos b ∣ b := by
  fun_induction dropTwos b with
  | case1 b h ih => exact ih.trans (Nat.div_dvd_of_dvd (Nat.dvd_of_mod_eq_zero h.2))
  | case2 b h => exact Nat.dvd_refl b

theorem dropTwos_le (b : Nat) : dropTwos b ≤ b := by
  fun_induction dropTwos b with
  | case1 b h ih => omega
  | case2 b h => exact Nat.le_refl b

theorem dropTwos_pos {b : Nat} (h : b ≠ 0) : 0 < dropTwos b := by
  fun_induction dropTwos b with
  | case1 b hb ih => exact ih (by omega)
  | case2 b hb => omega

def mygcd (a b : Nat) : Nat :=
  if a ≠ 0 ∧ b ≠ 0 then
    let b' := dropTwos b
    let a' := dropTwos a
    if a' > b' then mygcd (a' - b') b' else mygcd a' (b' - a')
  else if b = 0 then a else b
termination_by a + b
decreasing_by
  all_goals
    rename_i h _
    have := dropTwos_le a
    have := dropTwos_le b
    have := dropTwos_pos h.1
    have := dropTwos_pos h.2
    omega

theorem mygcd_dvd (a b : Nat) : mygcd a b ∣ a ∧ mygcd a b ∣ b := by
  fun_induction mygcd a b with
  | case1 a b h b' a' hlt ih =>
    have ha : mygcd (a' - b') b' ∣ a' := (Nat.dvd_sub_iff_left (by omega) ih.2).mp ih.1
    exact ⟨ha.trans (dropTwos_dvd a), ih.2.trans (dropTwos_dvd b)⟩
  | case2 a b h b' a' hle ih =>
    have hb : mygcd a' (b' - a') ∣ b' := (Nat.dvd_sub_iff_left (by omega) ih.1).mp ih.2
    exact ⟨ih.1.trans (dropTwos_dvd a), hb.trans (dropTwos_dvd b)⟩
  | case3 a h => simp
  | case4 a b h hb =>
    have ha : a = 0 := by omega
    simp [ha]

/-! ## Pollard's rho -/

/-- `c - what` where `c` has reached `what`. -/
def reduceOnce (what c : BitVec 64) : BitVec 64 := if what ≤ c then c - what else c

/-- The `while (b)` loop: `c + a * b`, bit by bit. -/
def mulAddLoop (what a b c : BitVec 64) : BitVec 64 :=
  if b = 0 then c
  else
    let c := if b &&& 1 = 1 then reduceOnce what (c + a) else c
    mulAddLoop what (reduceOnce what (a + a)) (b >>> 1) c
termination_by b.toNat
decreasing_by
  rename_i h
  have hb : b.toNat ≠ 0 := fun hz => h (BitVec.eq_of_toNat_eq hz)
  simp only [BitVec.toNat_ushiftRight, Nat.shiftRight_eq_div_pow]
  omega

/-- The gcd of `what` with the difference of `x` and `y`. -/
def differenceGcd (what x y : BitVec 64) : Nat :=
  mygcd (if x < y then what + x - y else x - y).toNat what.toNat

/-- `y` follows `x` at the powers of two. -/
def savedPoint (j : Nat) (x y : BitVec 64) : BitVec 64 := if j &&& (j - 1) = 0 then x else y

/-- The `for (j = 1; j < lim; j++)` loop: the last gcd, and the counter `it`. -/
def rhoLoop (what q : BitVec 64) (lim : Int) (j : Nat) (x y : BitVec 64) (it g : Nat) : Nat × Nat :=
  if (j : Int) < lim then
    let x := mulAddLoop what x x q
    let g := differenceGcd what x y
    if g ≠ 1 then (g, it + 1) else rhoLoop what q lim (j + 1) x (savedPoint j x y) (it + 1) g
  else (g, it)
termination_by (lim - j).toNat
decreasing_by omega

variable (lrand48 : Nat → BitVec 31) (what q : BitVec 64)

theorem le_rhoLoop_it (lim : Int) (j : Nat) (x y : BitVec 64) (it g : Nat) :
    it ≤ (rhoLoop what q lim j x y it g).2 := by
  fun_induction rhoLoop what q lim j x y it g with
  | case1 => simp
  | case2 j x y it g h x' g' hg ih => omega
  | case3 => simp

theorem lt_rhoLoop_it {lim : Int} {j : Nat} (h : (j : Int) < lim) (x y : BitVec 64) (it g : Nat) :
    it < (rhoLoop what q lim j x y it g).2 := by
  rw [rhoLoop, if_pos h]
  dsimp only
  split
  · simp
  · exact le_rhoLoop_it what q lim (j + 1) _ _ (it + 1) _

theorem rhoLoop_dvd (lim : Int) (j : Nat) (x y : BitVec 64) (it g : Nat) (hg : 1 < g → g ∣ what.toNat)
    (h : 1 < (rhoLoop what q lim j x y it g).1) : (rhoLoop what q lim j x y it g).1 ∣ what.toNat := by
  fun_induction rhoLoop what q lim j x y it g with
  | case1 => exact (mygcd_dvd _ _).2
  | case2 j x y it g _ x' g' _ ih => exact ih (fun _ => (mygcd_dvd _ _).2) h
  | case3 => exact hg h

/-- `1 << (i + 18)`: the processors take the distance modulo 32. -/
def passLimit (i : Nat) : Int := (1#32 <<< ((i + 18) % 32)).toInt

theorem one_lt_passLimit {i : Nat} (h0 : (i + 18) % 32 ≠ 0) (h31 : (i + 18) % 32 ≠ 31) : 1 < passLimit i := by
  have hall : ∀ k < 31, k ≠ 0 → 1 < (1#32 <<< k).toInt := by decide
  exact hall _ (by omega) h0

/-- A bound on the passes that follow: only a pass that runs counts for `it`. -/
def passesLeft (i it : Nat) : Nat :=
  4 * (1000 - it) + 4 * (3 - i) + (if (i + 18) % 32 = 31 then 2 else if (i + 18) % 32 = 0 then 1 else 0)

theorem passesLeft_lt {i it it' : Nat} (hloop : i < 3 ∨ it < 1000) (hle : it ≤ it')
    (hlt : 1 < passLimit i → it < it') : passesLeft (i + 1) it' < passesLeft i it := by
  unfold passesLeft
  by_cases hrun : (i + 18) % 32 ≠ 0 ∧ (i + 18) % 32 ≠ 31
  · have hit := hlt (one_lt_passLimit hrun.1 hrun.2)
    split_ifs <;> omega
  · split_ifs <;> omega

/-- The outer loop, with the numbers that `lrand48` returns. -/
def factorizeLoop (lrand48 : Nat → BitVec 31) (what : BitVec 64) (i it g : Nat) : Except Crash Nat :=
  if i < 3 ∨ it < 1000 then
    if what = 0 then .error .divisionByZero
    else
      let q := BitVec.ofNat 64 (((lrand48 (2 * i)).toNat % 16 + 17) % what.toNat)
      if what - 1 = 0 then .error .divisionByZero
      else
        let x := BitVec.ofNat 64 ((lrand48 (2 * i + 1)).toNat % (what - 1).toNat) + 1
        let pass := rhoLoop what q (passLimit i) 1 x x it g
        if 1 < pass.1 ∧ pass.1 < what.toNat then .ok pass.1
        else factorizeLoop lrand48 what (i + 1) pass.2 pass.1
  else .ok g
termination_by passesLeft i it
decreasing_by
  rename_i hloop _ _ _
  exact passesLeft_lt hloop (le_rhoLoop_it ..) fun h => lt_rhoLoop_it _ _ h ..

/-- `MTFactorize`: the two factors, the smaller one first. -/
def mtFactorize (lrand48 : Nat → BitVec 31) (what : BitVec 64) : Except Crash (Option (BitVec 64 × BitVec 64)) := do
  let g ← factorizeLoop lrand48 what 0 0 0
  if 1 < g ∧ g < what.toNat then
    let p1 := BitVec.ofNat 64 g
    let p2 := BitVec.ofNat 64 (what.toNat / g)
    return some (if p1 > p2 then (p2, p1) else (p1, p2))
  else return none

theorem factorizeLoop_ok {what : BitVec 64} (hwhat : 2 ≤ what.toNat) (i it g : Nat) (hg : 1 < g → g ∣ what.toNat) :
    ∃ g', factorizeLoop lrand48 what i it g = .ok g' ∧ (1 < g' → g' ∣ what.toNat) := by
  have h0 : what ≠ 0 := by
    rintro rfl
    simp at hwhat
  have h1 : what - 1 ≠ 0 := by
    intro h
    have hone : what = 1 := by
      rw [← BitVec.sub_add_cancel what 1, h]
      rfl
    rw [hone] at hwhat
    simp at hwhat
  fun_induction factorizeLoop lrand48 what i it g with
  | case1 i it g _ hzero => exact absurd hzero h0
  | case2 i it g _ _ hone => exact absurd hone h1
  | case3 i it g _ _ q _ x pass hfound =>
    exact ⟨pass.1, rfl, rhoLoop_dvd what q (passLimit i) 1 x x it g hg⟩
  | case4 i it g _ _ q _ x pass _ ih => exact ih (rhoLoop_dvd what q (passLimit i) 1 x x it g hg)
  | case5 i it g => exact ⟨g, rfl, hg⟩

theorem factorizeLoop_zero : factorizeLoop lrand48 0 0 0 0 = .error .divisionByZero := by
  rw [factorizeLoop]
  rfl

theorem factorizeLoop_one : factorizeLoop lrand48 1 0 0 0 = .error .divisionByZero := by
  rw [factorizeLoop]
  rfl

/-- **`MTFactorize` returns exactly from 2 on**; it divides 0 and 1 by zero. -/
theorem mtFactorize_ok_iff : (∃ r, mtFactorize lrand48 what = .ok r) ↔ 2 ≤ what.toNat := by
  constructor
  · rintro ⟨r, hr⟩
    by_contra hlt
    have hsmall : what = 0 ∨ what = 1 := by
      rcases (by omega : what.toNat = 0 ∨ what.toNat = 1) with h | h
      · exact .inl (BitVec.eq_of_toNat_eq h)
      · exact .inr (BitVec.eq_of_toNat_eq h)
    unfold mtFactorize at hr
    rcases hsmall with rfl | rfl
    · rw [factorizeLoop_zero] at hr
      cases hr
    · rw [factorizeLoop_one] at hr
      cases hr
  · intro h
    obtain ⟨g, hg, -⟩ := factorizeLoop_ok lrand48 h 0 0 0 (by omega)
    unfold mtFactorize
    rw [hg]
    simp only [bind, Except.bind]
    split
    · exact ⟨_, rfl⟩
    · exact ⟨_, rfl⟩

theorem mtFactorize_mul {lrand48 : Nat → BitVec 31} {what p q : BitVec 64}
    (h : mtFactorize lrand48 what = .ok (some (p, q))) :
    p.toNat * q.toNat = what.toNat ∧ 1 < p.toNat ∧ p.toNat ≤ q.toNat := by
  have hwhat := (mtFactorize_ok_iff lrand48 what).mp ⟨_, h⟩
  obtain ⟨g, hg, hdvd⟩ := factorizeLoop_ok lrand48 hwhat 0 0 0 (by omega)
  unfold mtFactorize at h
  rw [hg] at h
  simp only [bind, Except.bind] at h
  split at h
  next hfound =>
      have hmul : g * (what.toNat / g) = what.toNat := Nat.mul_div_cancel' (hdvd hfound.1)
      have hlt := what.isLt
      have hg64 : (BitVec.ofNat 64 g).toNat = g := by
        rw [BitVec.toNat_ofNat]
        omega
      have hquot : what.toNat / g < 2 ^ 64 := lt_of_le_of_lt (Nat.div_le_self _ _) hlt
      have hquot64 : (BitVec.ofNat 64 (what.toNat / g)).toNat = what.toNat / g := by
        rw [BitVec.toNat_ofNat, Nat.mod_eq_of_lt hquot]
      have hone : 1 < what.toNat / g := by
        by_contra hle
        have : what.toNat / g = 0 ∨ what.toNat / g = 1 := by omega
        rcases this with h0 | h1
        · rw [h0] at hmul; omega
        · rw [h1] at hmul; omega
      simp only [pure, Except.pure, Except.ok.injEq, Option.some.injEq] at h
      split at h
      · cases h
        rename_i hgt
        rw [gt_iff_lt, BitVec.lt_def, hg64, hquot64] at hgt
        rw [hg64, hquot64, Nat.mul_comm]
        exact ⟨hmul, hone, le_of_lt hgt⟩
      · cases h
        rename_i hle
        rw [gt_iff_lt, BitVec.lt_def, hg64, hquot64] at hle
        rw [hg64, hquot64]
        exact ⟨hmul, hfound.1, by omega⟩
  next => cases h

/-! ## The outputs -/

/-- `MTFactorize` with its outputs: whether it found factors, and what `resA` and `resB` hold then. A pointer that is
`NULL` is `none`. -/
def factorize (lrand48 : Nat → BitVec 31) (what : BitVec 64) (resA resB : Option (BitVec 64)) :
    Except Crash (Bool × Option (BitVec 64) × Option (BitVec 64)) := do
  match ← mtFactorize lrand48 what with
  | some (p1, p2) => return (true, resA.map fun _ => p1, resB.map fun _ => p2)
  | none => return (false, resA, resB)

/-- Of a number from 2 on `MTFactorize` returns, for every stream of random numbers. -/
theorem factorize_sound (lrand48 : Nat → BitVec 31) {what : BitVec 64} (hwhat : 2 ≤ what.toNat)
    (resA resB : Option (BitVec 64)) :
    ∃ found a b, factorize lrand48 what resA resB = .ok (found, a, b) ∧
      (found = true → ∃ p q : BitVec 64, a = (resA.map fun _ => p) ∧ b = (resB.map fun _ => q) ∧ 1 < p.toNat ∧
        p.toNat ≤ q.toNat ∧ q.toNat < what.toNat ∧ p.toNat * q.toNat = what.toNat) ∧
      (found = false → a = resA ∧ b = resB) := by
  obtain ⟨r, hr⟩ := (mtFactorize_ok_iff lrand48 what).mpr hwhat
  unfold factorize
  rw [hr]
  cases r with
  | none => exact ⟨false, resA, resB, rfl, by simp, by simp⟩
  | some factors =>
      obtain ⟨p, q⟩ := factors
      obtain ⟨hmul, hp, hpq⟩ := mtFactorize_mul hr
      have hq : q.toNat < what.toNat := by
        rw [← hmul]
        exact lt_mul_of_one_lt_left (by omega) hp
      exact ⟨true, _, _, rfl, fun _ => ⟨p, q, rfl, rfl, hp, hpq, hq, hmul⟩, by simp⟩

/-- The stream of zeros, with a `NULL` for the larger factor. -/
theorem factorize_sound_six :
    ∃ found a b, factorize (fun _ => 0) 6 (some 0) none = .ok (found, a, b) ∧
      (found = true → ∃ p q : BitVec 64, a = some p ∧ b = none ∧ 1 < p.toNat ∧
        p.toNat ≤ q.toNat ∧ q.toNat < 6 ∧ p.toNat * q.toNat = 6) ∧
      (found = false → a = some 0 ∧ b = none) :=
  factorize_sound (fun _ => 0) (by decide) (some 0) none

end TelegramClient.MtProto
