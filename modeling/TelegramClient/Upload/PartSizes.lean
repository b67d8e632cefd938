import TelegramClient.Upload.FileUpload
import Mathlib.Data.Nat.Prime.Basic
import Mathlib.Data.Nat.Log

/-!
# The parts of an upload

* `roundPartSize_eq` : the rounding loop finds the next power of two;
* `partList_eq` : **the loop makes these parts** if no offset is out of range; `partList_none` : it never ends otherwise;
* `count_le_iff` : **when there are at most 3000** of them.
-/

namespace TelegramClient.Upload

/-! ## Rounding -/

theorem int32_of_lt {x : Int} (hlow : -2 ^ 31 ≤ x) (hhigh : x < 2 ^ 31) : int32 x = x := by
  rw [int32, Int.bmod_eq_of_le] <;> omega

theorem roundPartSize_eq {fuel p : Nat} (hp : 0 < p) (hle : p ≤ 2 ^ 20) (hfuel : 2 ^ 20 < p + fuel) :
    ∃ k, k ≤ 20 ∧ roundPartSize fuel p = (2 ^ k : Nat) ∧ p ≤ 2 ^ k ∧ ∀ j, p ≤ 2 ^ j → k ≤ j := by
  induction fuel generalizing p with
  | zero => omega
  | succ fuel ih =>
    rw [roundPartSize]
    by_cases hdvd : p ∣ 2 ^ 20
    · obtain ⟨k, hk, rfl⟩ := (Nat.dvd_prime_pow Nat.prime_two).mp hdvd
      refine ⟨k, hk, ?_, le_refl _, fun j hj => (Nat.pow_le_pow_iff_right (by omega)).mp hj⟩
      rw [if_neg]
      have hmod : (1024 * 1024 : Int) % ((2 ^ k : Nat) : Int) = 0 := by
        exact_mod_cast Nat.mod_eq_zero_of_dvd hdvd
      exact not_not.mpr hmod
    · have hne : p ≠ 2 ^ 20 := fun heq => hdvd (heq ▸ dvd_rfl)
      have hmod : (1024 * 1024 : Int) % (p : Int) ≠ 0 := fun hmod => hdvd (by
        have hnat : (2 ^ 20) % p = 0 := by exact_mod_cast hmod
        exact Nat.dvd_of_mod_eq_zero hnat)
      rw [if_pos hmod]
      obtain ⟨k, hk, heq, hpk, hleast⟩ := ih (p := p + 1) (by omega) (by omega) (by omega)
      refine ⟨k, hk, by exact_mod_cast heq, by omega, fun j hj => hleast j ?_⟩
      have hpow : p ≠ 2 ^ j := fun heq => by
        apply hdvd
        rw [heq]
        apply pow_dvd_pow
        have hlt : 2 ^ j < 2 ^ 20 := by omega
        exact ((Nat.pow_lt_pow_iff_right (by omega)).mp hlt).le
      omega

variable {n : Nat}

theorem partSizeFor_big (small : Int) (hbig : 10 * 1024 * 1024 ≤ n) (hn : n < 2 ^ 31) :
    ∃ m, 16 ≤ m ∧ m ≤ 20 ∧ partSizeFor small n = (2 ^ m : Nat) ∧ n / 3000 ≤ 2 ^ m ∧
      ∀ j, 16 ≤ j → n / 3000 ≤ 2 ^ j → m ≤ j := by
  have hround : ∃ k, k ≤ 20 ∧ roundPartSize (1024 * 1024) (n / 3000 : Nat) = (2 ^ k : Nat) ∧ n / 3000 ≤ 2 ^ k ∧
      ∀ j, n / 3000 ≤ 2 ^ j → k ≤ j := roundPartSize_eq (by omega) (by omega) (by omega)
  obtain ⟨k, hk, heq, hpk, hleast⟩ := hround
  refine ⟨max k 16, by omega, by omega, ?_, ?_, fun j hj hpj => ?_⟩
  · have hbig' : usesBigFileParts n = true := by
      rw [usesBigFileParts, decide_eq_true_eq]
      omega
    have hdiv : ((n / 3000 : Nat) : Int) = (n : Int) / 3000 := by omega
    rw [partSizeFor, if_pos hbig', ← hdiv, heq]
    rcases le_total k 16 with hle | hle
    · rw [Nat.max_eq_right hle]
      have hpow : 2 ^ k ≤ 2 ^ 16 := Nat.pow_le_pow_right (by omega) hle
      rw [videoPartSize]
      omega
    · rw [Nat.max_eq_left hle]
      have hpow : 2 ^ 16 ≤ 2 ^ k := Nat.pow_le_pow_right (by omega) hle
      rw [videoPartSize]
      omega
  · exact hpk.trans (Nat.pow_le_pow_right (by omega) (Nat.le_max_left k 16))
  · exact Nat.max_le.mpr ⟨hleast j hpj, hj⟩

theorem partSizeFor_small (small : Int) (hsmall : n < 10 * 1024 * 1024) : partSizeFor small n = small := by
  rw [partSizeFor, if_neg]
  rw [usesBigFileParts, decide_eq_true_eq]
  omega

/-! ## Parts of one size -/

/-- `count` parts of `partSize` bytes, of which the last one may be shorter. -/
structure Parts (size partSize count : Nat) : Prop where
  pos : 0 < partSize
  lower : (count - 1) * partSize < size
  upper : size ≤ count * partSize

def partAt (size partSize : Nat) (uploading : Bool) (k : Nat) : FilePart :=
  ⟨k, (min partSize (size - k * partSize) : Nat), uploading⟩

variable {size : Nat}

theorem exists_parts {partSize : Nat} (hsize : 0 < size) (hpos : 0 < partSize) :
    Parts size partSize ((size + partSize - 1) / partSize) := by
  have hdiv := Nat.div_add_mod (size + partSize - 1) partSize
  have hmod := Nat.mod_lt (size + partSize - 1) hpos
  set count := (size + partSize - 1) / partSize
  have hcnt : 0 < count := Nat.div_pos (by omega) hpos
  obtain ⟨c, hc⟩ : ∃ c, count = c + 1 := ⟨count - 1, by omega⟩
  rw [hc] at hdiv ⊢
  have hmul : partSize * (c + 1) = c * partSize + partSize := by ring
  have hmul' : (c + 1) * partSize = c * partSize + partSize := by ring
  refine ⟨hpos, ?_, ?_⟩
  · rw [Nat.add_sub_cancel]
    omega
  · omega

namespace Parts

variable {size partSize count : Nat}

theorem count_pos (h : Parts size partSize count) : 0 < count := by
  by_contra hcnt
  have hzero : count = 0 := by omega
  have hlower := h.lower
  have hupper := h.upper
  simp only [hzero, Nat.zero_mul, Nat.zero_sub] at hlower hupper
  omega

variable {k : Nat}

section
variable (h : Parts size partSize count)
include h

theorem lt_size (hk : k < count) : k * partSize < size :=
  lt_of_le_of_lt (Nat.mul_le_mul_right partSize (by omega : k ≤ count - 1)) h.lower

theorem succ_lt_size (hk : k + 1 < count) : k * partSize + partSize < size := by
  have hlt := h.lt_size hk
  have hmul : (k + 1) * partSize = k * partSize + partSize := by ring
  omega

theorem count_le_iff {limit : Nat} : count ≤ limit ↔ size ≤ limit * partSize := by
  constructor
  · intro hcnt
    exact h.upper.trans (Nat.mul_le_mul_right partSize hcnt)
  · intro hsize
    by_contra hlimit
    have hlt := h.lt_size (by omega : limit < count)
    omega

/-- **The loop makes these parts**, if no offset is out of range. -/
theorem partList_eq (hrange : size + partSize ≤ 2 ^ 31) {fuel : Nat} (hk : k ≤ count) (hfuel : count < k + fuel) :
    partList size partSize fuel (k * partSize : Nat) ((k : Int) - 1) =
      some ((List.range' k (count - k)).map (partAt size partSize false)) := by
  induction fuel generalizing k with
  | zero => omega
  | succ fuel ih =>
    rw [partList]
    by_cases hlast : k = count
    · have hupper := h.upper
      subst hlast
      rw [if_neg (by omega), Nat.sub_self]
      rfl
    · have hlt := h.lt_size (by omega : k < count)
      have hpos := h.pos
      have hmul : (k + 1) * partSize = k * partSize + partSize := by ring
      have hnext : int32 ((k * partSize : Nat) + (partSize : Int)) = ((k + 1) * partSize : Nat) := by
        rw [int32_of_lt] <;> omega
      have hlen : int32 ((size : Int) - (k * partSize : Nat)) = (size - k * partSize : Nat) := by
        rw [int32_of_lt] <;> omega
      have hidx : (k : Int) - 1 + 1 = ((k + 1 : Nat) : Int) - 1 := by omega
      have hcnt : count - k = count - (k + 1) + 1 := by omega
      rw [if_pos (by omega), hnext, hidx, ih (by omega) (by omega), hcnt, List.range'_succ, List.map_cons,
        Option.map_some, hlen]
      have hpart : (⟨((k + 1 : Nat) : Int) - 1, min (partSize : Int) (size - k * partSize : Nat), false⟩ : FilePart) =
          partAt size partSize false k := by
        rw [partAt, FilePart.mk.injEq]
        exact ⟨by omega, by omega, rfl⟩
      rw [hpart]

end

end Parts

/-- **The loop does not end** at parts of 1 MiB if the last of them begins at the last one of these offsets. -/
theorem partList_none (hsize : 2047 * 2 ^ 20 < size) (fuel : Nat) {i : Int} (hdvd : 2 ^ 20 ∣ i) (hi : i < 2 ^ 31)
    (index : Int) : partList size (2 ^ 20 : Nat) fuel i index = none := by
  induction fuel generalizing i index with
  | zero => rfl
  | succ fuel ih =>
    have hnext : 2 ^ 20 ∣ int32 (i + (2 ^ 20 : Nat)) := by
      rw [int32, Int.bmod_eq_self_sub_mul_bdiv]
      exact Int.dvd_sub (Int.dvd_add hdvd dvd_rfl) (Dvd.dvd.mul_right (by norm_num) _)
    have hlt : int32 (i + (2 ^ 20 : Nat)) < 2 ^ 31 := Int.bmod_lt (by norm_num)
    rw [partList, if_pos (by omega), ih hnext hlt, Option.map_none]

/-! ## The number of parts -/

/-- The sizes that have more than 3000 parts: rounding down has lost some bytes of every part. -/
def ManyParts (size : Nat) : Prop := ∃ k, 16 ≤ k ∧ 3000 * 2 ^ k < size ∧ size < 3000 * (2 ^ k + 1)

theorem not_manyParts_of_small (h : size < 10 * 1024 * 1024) : ¬ ManyParts size := by
  rintro ⟨k, hk, hlow, -⟩
  have hpow : 2 ^ 16 ≤ 2 ^ k := Nat.pow_le_pow_right (by omega) hk
  omega

/-- **When a big file has at most 3000 parts.** -/
theorem le_iff_not_manyParts {m : Nat} (hm : 16 ≤ m) (hle : size / 3000 ≤ 2 ^ m)
    (hleast : ∀ j, 16 ≤ j → size / 3000 ≤ 2 ^ j → m ≤ j) : size ≤ 3000 * 2 ^ m ↔ ¬ ManyParts size := by
  constructor
  · rintro hsize ⟨k, hk, hlow, hhigh⟩
    -- the quotient is a power, at which the rounding stops
    have hmk : m ≤ k := hleast k hk (by omega)
    have hpow : 2 ^ m ≤ 2 ^ k := Nat.pow_le_pow_right (by omega) hmk
    omega
  · intro hmany
    by_contra hsize
    exact hmany ⟨m, hm, by omega, by omega⟩

end TelegramClient.Upload
