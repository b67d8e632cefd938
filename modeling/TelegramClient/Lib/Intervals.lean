import Mathlib.Data.List.Basic
import Mathlib.Data.List.Pairwise
import Mathlib.Data.Set.Lattice
import Mathlib.Order.CompletePartialOrder
import Mathlib.Order.MinMax

/-!
# Families of closed intervals

A family gives each index the ends of a closed interval of a linear order.

* `Meets`, `Apart` : two intervals have a common point, or one ends before the other begins;
* `mem_hull` : intervals that all meet `[a, b]` make up, with it, one interval.
-/

namespace TelegramClient
open List hiding Disjoint

/-- The closed intervals from `lo i` to `hi i`. -/
structure IntervalFamily (ι α : Type*) where
  lo : ι → α
  hi : ι → α

namespace IntervalFamily

variable {ι α : Type*} [LinearOrder α] (F : IntervalFamily ι α)

def interval (i : ι) : Set α := Set.Icc (F.lo i) (F.hi i)

def Meets (i j : ι) : Prop := F.lo i ≤ F.hi j ∧ F.lo j ≤ F.hi i

def Apart (i j : ι) : Prop := F.hi i < F.lo j ∨ F.hi j < F.lo i

instance (i j : ι) : Decidable (F.Apart i j) := inferInstanceAs (Decidable (_ ∨ _))

def covered (s : List ι) : Set α := {x | ∃ i ∈ s, x ∈ F.interval i}

variable {F}

variable {i : ι} {x : α}

theorem mem_interval : x ∈ F.interval i ↔ F.lo i ≤ x ∧ x ≤ F.hi i := Iff.rfl

variable {s : List ι}

theorem mem_covered : x ∈ F.covered s ↔ ∃ i ∈ s, x ∈ F.interval i := Iff.rfl

variable {j : ι}

theorem Apart.symm (h : F.Apart i j) : F.Apart j i := Or.symm h

theorem apart_iff_not_meets : F.Apart i j ↔ ¬F.Meets i j := by
  unfold Apart Meets
  rw [not_and_or, not_le, not_le, or_comm]

theorem Apart.disjoint (h : F.Apart i j) : Disjoint (F.interval i) (F.interval j) := by
  rw [Set.disjoint_left]
  rintro x ⟨hli, hhi⟩ ⟨hlj, hhj⟩
  rcases h with h | h
  · exact absurd (hlj.trans hhi) (not_le.mpr h)
  · exact absurd (hli.trans hhj) (not_le.mpr h)

theorem Meets.max_lo_mem (h : F.Meets i j) (hi : F.lo i ≤ F.hi i) (hj : F.lo j ≤ F.hi j) :
    max (F.lo i) (F.lo j) ∈ F.interval i ∧ max (F.lo i) (F.lo j) ∈ F.interval j :=
  ⟨⟨le_max_left _ _, max_le hi h.2⟩, ⟨le_max_right _ _, max_le h.1 hj⟩⟩

theorem Apart.mono {k : ι} (h : F.Apart i k) (hlo : F.lo i ≤ F.lo j) (hhi : F.hi j ≤ F.hi i) : F.Apart j k :=
  h.imp hhi.trans_lt fun h => h.trans_le hlo

/-! ## Separated intervals -/

variable (F) in
structure Separated (s : List ι) : Prop where
  nonempty : ∀ i ∈ s, F.lo i ≤ F.hi i
  apart : s.Pairwise F.Apart

theorem Separated.apart_of_ne (hs : F.Separated s) (hi : i ∈ s) (hj : j ∈ s) (hij : i ≠ j) : F.Apart i j :=
  haveI : Std.Symm F.Apart := ⟨fun _ _ => Apart.symm⟩
  hs.apart.forall hi hj hij

theorem Separated.eq_of_meets (hs : F.Separated s) (hi : i ∈ s) (hj : j ∈ s) (h : F.Meets i j) : i = j := by
  by_contra hij
  exact apart_iff_not_meets.mp (hs.apart_of_ne hi hj hij) h

theorem Separated.eq_of_mem (hs : F.Separated s) (hi : i ∈ s) (hj : j ∈ s) (hxi : x ∈ F.interval i)
    (hxj : x ∈ F.interval j) : i = j :=
  hs.eq_of_meets hi hj ⟨hxi.1.trans hxj.2, hxj.1.trans hxi.2⟩

theorem Separated.eq_of_reaches (hs : F.Separated s) (hi : i ∈ s) (hj : j ∈ s) {b : α} (hlo : F.lo i ≤ b)
    (hafter : b < F.hi j) (hfirst : F.hi j ≤ F.hi i) : i = j :=
  hs.eq_of_mem hi hj ⟨hlo.trans hafter.le, hfirst⟩ ⟨hs.nonempty j hj, le_rfl⟩

variable {t : List ι}

theorem Separated.sublist (hs : F.Separated s) (hsub : t.Sublist s) : F.Separated t :=
  ⟨fun i hi => hs.nonempty i (hsub.subset hi), hs.apart.sublist hsub⟩

theorem Separated.nodup (hs : F.Separated s) : s.Nodup := by
  refine hs.apart.imp_of_mem fun {i j} hi _ hapart heq => ?_
  subst heq
  exact hapart.elim (not_lt.mpr (hs.nonempty i hi)) (not_lt.mpr (hs.nonempty i hi))

theorem Separated.of_nodup (hs : F.Separated s) (hnd : t.Nodup) (hsub : ∀ i ∈ t, i ∈ s) : F.Separated t :=
  ⟨fun i hi => hs.nonempty i (hsub i hi),
    hnd.imp_of_mem fun hi hj hij => hs.apart_of_ne (hsub _ hi) (hsub _ hj) hij⟩

theorem separated_append : F.Separated (s ++ t) ↔ F.Separated s ∧ F.Separated t ∧ ∀ i ∈ s, ∀ j ∈ t, F.Apart i j := by
  constructor
  · intro h
    obtain ⟨hs, ht, hst⟩ := pairwise_append.mp h.apart
    exact ⟨⟨fun i hi => h.nonempty i (mem_append_left t hi), hs⟩,
      ⟨fun i hi => h.nonempty i (mem_append_right s hi), ht⟩, hst⟩
  · rintro ⟨hs, ht, hst⟩
    refine ⟨fun i hi => ?_, pairwise_append.mpr ⟨hs.apart, ht.apart, hst⟩⟩
    rcases mem_append.mp hi with hi | hi
    · exact hs.nonempty i hi
    · exact ht.nonempty i hi

theorem Separated.flatMap (hs : F.Separated s) {f : ι → List ι} (hf : ∀ i ∈ s, F.Separated (f i))
    (hsub : ∀ i ∈ s, ∀ j ∈ f i, F.lo i ≤ F.lo j ∧ F.hi j ≤ F.hi i) : F.Separated (s.flatMap f) := by
  induction s with
  | nil => exact ⟨by simp, by simp⟩
  | cons i s ih =>
    have hfirst : ∀ k ∈ s, F.Apart i k := (pairwise_cons.mp hs.apart).1
    have htail := ih (hs.sublist (sublist_cons_self i s)) (fun k hk => hf k (mem_cons_of_mem i hk))
      fun k hk => hsub k (mem_cons_of_mem i hk)
    rw [flatMap_cons, separated_append]
    refine ⟨hf i mem_cons_self, htail, fun j hj j' hj' => ?_⟩
    obtain ⟨k, hk, hj'⟩ := mem_flatMap.mp hj'
    obtain ⟨hlo, hhi⟩ := hsub i mem_cons_self j hj
    obtain ⟨hlo', hhi'⟩ := hsub k (mem_cons_of_mem i hk) j' hj'
    exact (((hfirst k hk).mono hlo hhi).symm.mono hlo' hhi').symm

theorem covered_append (s t : List ι) : F.covered (s ++ t) = F.covered s ∪ F.covered t := by
  ext x
  simp [covered, or_and_right, exists_or]

/-! ## Merging -/

variable (F) in
/-- The ends of `[a, b]` moved outwards over the intervals of `s`. -/
def hull (s : List ι) (a b : α) : α × α := s.foldl (fun ends i => (min ends.1 (F.lo i), max ends.2 (F.hi i))) (a, b)

theorem mem_hull {a b : α} (hab : a ≤ b) (hne : ∀ i ∈ s, F.lo i ≤ F.hi i) (hs : ∀ i ∈ s, a ≤ F.hi i ∧ F.lo i ≤ b) :
    ((F.hull s a b).1 ≤ x ∧ x ≤ (F.hull s a b).2) ↔ (a ≤ x ∧ x ≤ b) ∨ x ∈ F.covered s := by
  induction s generalizing a b with
  | nil => simp [hull, covered]
  | cons i s ih =>
    obtain ⟨hai, hib⟩ := hs i mem_cons_self
    have hnei : F.lo i ≤ F.hi i := hne i mem_cons_self
    have hrest := ih (a := min a (F.lo i)) (b := max b (F.hi i)) (le_trans (min_le_left _ _) (hab.trans
      (le_max_left _ _))) (fun j hj => hne j (mem_cons_of_mem i hj)) fun j hj =>
        ⟨(min_le_left _ _).trans (hs j (mem_cons_of_mem i hj)).1,
          (hs j (mem_cons_of_mem i hj)).2.trans (le_max_left _ _)⟩
    -- two intervals that meet leave no gap between them
    have htwo : (min a (F.lo i) ≤ x ∧ x ≤ max b (F.hi i)) ↔ (a ≤ x ∧ x ≤ b) ∨ x ∈ F.interval i := by
      rw [mem_interval, min_le_iff, le_max_iff]
      constructor
      · rintro ⟨hx | hx, hx' | hx'⟩
        · exact .inl ⟨hx, hx'⟩
        · exact (le_total x b).imp (fun h => ⟨hx, h⟩) fun h => ⟨hib.trans h, hx'⟩
        · exact (le_total a x).imp (fun h => ⟨h, hx'⟩) fun h => ⟨hx, h.trans hai⟩
        · exact .inr ⟨hx, hx'⟩
      · rintro (⟨hx, hx'⟩ | ⟨hx, hx'⟩)
        · exact ⟨.inl hx, .inl hx'⟩
        · exact ⟨.inr hx, .inr hx'⟩
    have hcovered : x ∈ F.covered (i :: s) ↔ x ∈ F.interval i ∨ x ∈ F.covered s := by
      simp [covered]
    rw [hcovered, ← or_assoc, ← htwo]
    exact hrest

end IntervalFamily

end TelegramClient
