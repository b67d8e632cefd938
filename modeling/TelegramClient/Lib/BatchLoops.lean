import Mathlib.Data.List.Basic

/-!
# Batches made by two loops over one index

The outer loop `for (i = 0; i < count; i++)` starts a batch, and an inner loop `for (j = 0; j < size && i < count; j++, i++)`
fills it. Both advance `i`, so that the outer loop passes over the element at which the inner one stopped.

* `nestedBatches` : the batches;
* `mem_flatten_nestedBatches` : **the elements at the positions `size`, `2 * size + 1`, ... are in no batch**.
-/

namespace TelegramClient
open List

section
variable {α : Type*}

/-- The outer loop, with at most `fuel` rounds. -/
def nestedBatchesFrom (size : Nat) : Nat → List α → List (List α)
  | 0, _ | _, [] => []
  | fuel + 1, x :: xs => (x :: xs).take size :: nestedBatchesFrom size fuel ((x :: xs).drop (size + 1))

def nestedBatches (size : Nat) (xs : List α) : List (List α) := nestedBatchesFrom size xs.length xs

def InBatch (size i : Nat) : Prop := i % (size + 1) < size

instance (size i : Nat) : Decidable (InBatch size i) := inferInstanceAs (Decidable (_ < _))

variable {size i : Nat}

theorem inBatch_of_lt (h : i < size) : InBatch size i := by
  unfold InBatch
  rwa [Nat.mod_eq_of_lt (Nat.lt_succ_of_lt h)]

theorem not_inBatch_self (size : Nat) : ¬InBatch size size := by
  simp [InBatch]

theorem inBatch_add : InBatch size (size + 1 + i) ↔ InBatch size i := by
  simp [InBatch]

variable {xs : List α} {x : α}

theorem mem_flatten_nestedBatchesFrom {fuel : Nat} (hfuel : xs.length ≤ fuel) :
    x ∈ (nestedBatchesFrom size fuel xs).flatten ↔ ∃ i, xs[i]? = some x ∧ InBatch size i := by
  induction fuel generalizing xs with
  | zero =>
    obtain rfl : xs = [] := length_eq_zero_iff.mp (by omega)
    simp [nestedBatchesFrom]
  | succ fuel ih =>
    cases xs with
    | nil => simp [nestedBatchesFrom]
    | cons first rest =>
      have hrest : ((first :: rest).drop (size + 1)).length ≤ fuel := by
        simp only [length_drop, length_cons] at hfuel ⊢
        omega
      rw [nestedBatchesFrom, flatten_cons, mem_append, ih hrest]
      constructor
      · rintro (htake | ⟨i, hi, hbatch⟩)
        · obtain ⟨i, hi⟩ := mem_iff_getElem?.mp htake
          rw [getElem?_take] at hi
          split at hi
          · next hlt => exact ⟨i, hi, inBatch_of_lt hlt⟩
          · exact absurd hi.symm (Option.some_ne_none x)
        · rw [getElem?_drop] at hi
          exact ⟨size + 1 + i, hi, inBatch_add.mpr hbatch⟩
      · rintro ⟨i, hi, hbatch⟩
        rcases Nat.lt_or_ge i size with hlt | hge
        · refine .inl (mem_iff_getElem?.mpr ⟨i, ?_⟩)
          rwa [getElem?_take, if_pos hlt]
        · have hne : i ≠ size := fun heq => not_inBatch_self size (heq ▸ hbatch)
          obtain ⟨k, rfl⟩ : ∃ k, i = size + 1 + k := ⟨i - (size + 1), by omega⟩
          exact .inr ⟨k, by rwa [getElem?_drop], inBatch_add.mp hbatch⟩

theorem mem_flatten_nestedBatches : x ∈ (nestedBatches size xs).flatten ↔ ∃ i, xs[i]? = some x ∧ InBatch size i :=
  mem_flatten_nestedBatchesFrom (Nat.le_refl _)

end

end TelegramClient
