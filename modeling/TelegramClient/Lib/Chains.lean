import Mathlib.Data.List.Infix
import Mathlib.Data.List.Pairwise

/-!
# Chains of numbered items

An item has a number and a count, and covers the `count` numbers up to its own. A chain from `p` is a list in which each
item begins where the one before it has ended.

* `ChainFrom p ds`, `endOf p ds` : chains, and where they end (`chainFrom_append`, `endOf_append`);
* `ChainFrom.prefix_of_mem` : a chain of items of another chain that begins at the same place is the beginning of it.
-/

namespace TelegramClient
open List

section
variable {δ : Type*} (number count : δ → Int)

def ChainFrom : Int → List δ → Prop
  | _, [] => True
  | p, d :: ds => number d - count d = p ∧ ChainFrom (number d) ds

def endOf : Int → List δ → Int
  | p, [] => p
  | _, d :: ds => endOf (number d) ds

variable {number count}

variable {p : Int} {ds es : List δ}

theorem chainFrom_append : ChainFrom number count p (ds ++ es) ↔
      ChainFrom number count p ds ∧ ChainFrom number count (endOf number p ds) es := by
  induction ds generalizing p with
  | nil => simp [ChainFrom, endOf]
  | cons d ds ih => simp [ChainFrom, endOf, ih, and_assoc]

theorem endOf_append (p : Int) (ds es : List δ) :
    endOf number p (ds ++ es) = endOf number (endOf number p ds) es := by
  induction ds generalizing p with
  | nil => rfl
  | cons d ds ih => exact ih (number d)

theorem endOf_mem (h : ds ≠ []) (p : Int) : ∃ d ∈ ds, endOf number p ds = number d := by
  induction ds generalizing p with
  | nil => exact absurd rfl h
  | cons d ds ih =>
    by_cases hds : ds = []
    · exact ⟨d, mem_cons_self, by rw [hds]; rfl⟩
    · obtain ⟨e, he, hend⟩ := ih hds (number d)
      exact ⟨e, mem_cons_of_mem d he, hend⟩

section
variable (h : ChainFrom number count p ds)
include h

theorem le_endOf (hcnt : ∀ d ∈ ds, 0 < count d) : p ≤ endOf number p ds := by
  induction ds generalizing p with
  | nil => exact Int.le_refl p
  | cons d ds ih =>
    have hrest := ih h.2 fun e he => hcnt e (mem_cons_of_mem d he)
    have hd := hcnt d mem_cons_self
    have hstart := h.1
    rw [endOf]
    omega

theorem ChainFrom.lt_of_mem (hcnt : ∀ d ∈ ds, 0 < count d) {d : δ} (hd : d ∈ ds) :
    p ≤ number d - count d ∧ p < number d ∧ number d ≤ endOf number p ds := by
  induction ds generalizing p with
  | nil => exact absurd hd not_mem_nil
  | cons e ds ih =>
    have hcount' : ∀ d ∈ ds, 0 < count d := fun d hd => hcnt d (mem_cons_of_mem e hd)
    have he := hcnt e mem_cons_self
    have hstart := h.1
    rw [endOf]
    rcases mem_cons.mp hd with rfl | hd
    · have hend := le_endOf h.2 hcount'
      omega
    · have hrest := ih h.2 hcount' hd
      omega

theorem ChainFrom.pairwise_lt (hcnt : ∀ d ∈ ds, 0 < count d) : ds.Pairwise fun d e => number d < number e := by
  induction ds generalizing p with
  | nil => exact List.Pairwise.nil
  | cons d ds ih =>
    have hcount' : ∀ e ∈ ds, 0 < count e := fun e he => hcnt e (mem_cons_of_mem d he)
    exact pairwise_cons.mpr ⟨fun e he => (h.2.lt_of_mem hcount' he).2.1, ih h.2 hcount'⟩

end

theorem ChainFrom.prefix_of_mem (hds : ChainFrom number count p ds) (hes : ChainFrom number count p es)
    (hcnt : ∀ d ∈ ds, 0 < count d) (hm : ∀ e ∈ es, e ∈ ds) : es <+: ds := by
  induction ds generalizing p es with
  | nil =>
    rw [eq_nil_iff_forall_not_mem.mpr fun e he => not_mem_nil (hm e he)]
  | cons d ds ih =>
    have hcount' : ∀ e ∈ ds, 0 < count e := fun e he => hcnt e (mem_cons_of_mem d he)
    have hd := hcnt d mem_cons_self
    have hstart := hds.1
    cases es with
    | nil => exact nil_prefix
    | cons e es =>
      have hestart := hes.1
      have hcountEs : ∀ f ∈ es, 0 < count f := fun f hf => hcnt f (hm f (mem_cons_of_mem e hf))
      -- another item than the first would begin later
      have heq : e = d := by
        rcases mem_cons.mp (hm e mem_cons_self) with heq | he
        · exact heq
        · have hlater := (hds.2.lt_of_mem hcount' he).1
          omega
      subst heq
      refine cons_prefix_cons.mpr ⟨rfl, ih hds.2 hes.2 hcount' fun f hf => ?_⟩
      rcases mem_cons.mp (hm f (mem_cons_of_mem e hf)) with rfl | hf'
      · exact absurd (hes.2.lt_of_mem hcountEs hf).2.1 (Int.lt_irrefl _)
      · exact hf'

end

end TelegramClient
