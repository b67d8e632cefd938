import Mathlib.Algebra.BigOperators.Group.Finset.Basic
import Mathlib.Algebra.GroupWithZero.Nat

/-!
# Tables with a primary key

A table is the list of its rows, no two of which have the same key.

* `KeyedTable`, `find` : the table, and the row of a key;
* `RowOrder` : the order in which a database returns rows that it is not asked to sort.
-/

namespace TelegramClient
open List hiding modify

structure RowOrder (α : Type*) where
  read : List α → List α
  perm : ∀ rows, (read rows).Perm rows

def RowOrder.asStored {α : Type*} : RowOrder α := ⟨id, fun rows => List.Perm.refl rows⟩

structure KeyedTable {α κ : Type*} (key : α → κ) where
  rows : List α
  nodup : (rows.map key).Nodup

namespace KeyedTable

variable {α κ : Type*} {key : α → κ}

def empty : KeyedTable key := ⟨[], nodup_nil⟩

variable {row : α}

theorem eq_of_key (t : KeyedTable key) {row' : α} (h : row ∈ t.rows) (h' : row' ∈ t.rows) (hkey : key row = key row') :
    row = row' :=
  inj_on_of_nodup_map t.nodup h h' hkey

/-- `DELETE ... WHERE`. -/
def deleteWhere (t : KeyedTable key) (p : α → Bool) : KeyedTable key :=
  ⟨t.rows.filter fun row => !p row, t.nodup.sublist (filter_sublist.map key)⟩

variable {t : KeyedTable key}

@[simp] theorem mem_deleteWhere {p : α → Bool} : row ∈ (t.deleteWhere p).rows ↔ row ∈ t.rows ∧ p row = false := by
  simp [deleteWhere]

theorem countP_deleteWhere (t : KeyedTable key) (p q : α → Bool) :
    (t.deleteWhere q).rows.countP p + t.rows.countP (fun row => p row && q row) = t.rows.countP p := by
  rw [deleteWhere, countP_filter, countP_eq_countP_filter_add t.rows p q, countP_filter, countP_filter]
  omega

def Has (t : KeyedTable key) (k : κ) : Prop := ∃ row ∈ t.rows, key row = k

theorem has_key (h : row ∈ t.rows) : t.Has (key row) := ⟨row, h, rfl⟩

theorem not_has_empty (k : κ) : ¬(empty : KeyedTable key).Has k := by
  simp [Has, empty]

theorem has_deleteWhere {p : α → Bool} {k : κ} :
    (t.deleteWhere p).Has k ↔ ∃ row ∈ t.rows, key row = k ∧ p row = false := by
  simp only [Has, mem_deleteWhere]
  grind

section
variable [DecidableEq κ]

def find (t : KeyedTable key) (k : κ) : Option α := t.rows.find? fun row => key row = k

variable {t : KeyedTable key} {k : κ} {row : α}

theorem find_eq_some : t.find k = some row ↔ row ∈ t.rows ∧ key row = k := by
  constructor
  · intro h
    exact ⟨mem_of_find?_eq_some h, by simpa using find?_some h⟩
  · rintro ⟨hrow, rfl⟩
    cases hfind : t.find (key row) with
    | none => exact absurd (decide_eq_true rfl) (find?_eq_none.mp hfind row hrow)
    | some found =>
      have hfound : key found = key row := by simpa using find?_some hfind
      rw [t.eq_of_key (mem_of_find?_eq_some hfind) hrow hfound]

theorem find_key (h : row ∈ t.rows) : t.find (key row) = some row :=
  find_eq_some.mpr ⟨h, rfl⟩

theorem find_eq_none : t.find k = none ↔ ∀ row ∈ t.rows, key row ≠ k := by
  simp [find]

theorem key_of_find (h : t.find k = some row) : key row = k :=
  (find_eq_some.mp h).2

/-! ## Statements -/

/-- `INSERT OR IGNORE`. -/
def insertOrIgnore (t : KeyedTable key) (row : α) : KeyedTable key :=
  if h : t.find (key row) = none then
    ⟨t.rows ++ [row], by
      rw [map_append]
      refine nodup_append.mpr ⟨t.nodup, nodup_singleton _, fun k hk k' hk' => ?_⟩
      obtain ⟨other, hother, rfl⟩ := mem_map.mp hk
      obtain rfl := mem_singleton.mp hk'
      exact find_eq_none.mp h other hother⟩
  else t

/-- `UPDATE ... WHERE key=?`, of other columns than the key. -/
def modify (t : KeyedTable key) (k : κ) (f : α → α) (hf : ∀ row, key (f row) = key row) : KeyedTable key :=
  ⟨t.rows.map fun row => if key row = k then f row else row, by
    have hkeys : (t.rows.map fun row => if key row = k then f row else row).map key = t.rows.map key := by
      rw [map_map]
      refine map_congr_left fun row _ => ?_
      dsimp only [Function.comp_apply]
      split
      · exact hf row
      · rfl
    rw [hkeys]
    exact t.nodup⟩

theorem mem_insertOrIgnore {other : α} :
    other ∈ (t.insertOrIgnore row).rows ↔ other ∈ t.rows ∨ t.find (key row) = none ∧ other = row := by
  unfold insertOrIgnore
  split
  · next h => simp [h]
  · next h => simp [h]

theorem find_insertOrIgnore (t : KeyedTable key) (row : α) (k : κ) :
    (t.insertOrIgnore row).find k = (t.find k).or (if key row = k then some row else none) := by
  cases hfind : t.find k with
  | some found =>
    obtain ⟨hm, hkey⟩ := find_eq_some.mp hfind
    exact find_eq_some.mpr ⟨mem_insertOrIgnore.mpr (.inl hm), hkey⟩
  | none =>
    rw [Option.none_or]
    split
    · next hkey => exact find_eq_some.mpr ⟨mem_insertOrIgnore.mpr (.inr ⟨by rw [hkey, hfind], rfl⟩), hkey⟩
    · next hkey =>
      refine find_eq_none.mpr fun other hother => ?_
      rcases mem_insertOrIgnore.mp hother with hold | ⟨-, rfl⟩
      · exact find_eq_none.mp hfind other hold
      · exact hkey

theorem find_deleteWhere (t : KeyedTable key) (p : α → Bool) (k : κ) :
    (t.deleteWhere p).find k = (t.find k).filter fun row => !p row := by
  cases hfind : t.find k with
  | none =>
    rw [Option.filter_none]
    exact find_eq_none.mpr fun row hrow => find_eq_none.mp hfind row (mem_deleteWhere.mp hrow).1
  | some found =>
    obtain ⟨hm, hkey⟩ := find_eq_some.mp hfind
    cases hp : p found with
    | false =>
      rw [Option.filter_some_pos (by simp [hp])]
      exact find_eq_some.mpr ⟨mem_deleteWhere.mpr ⟨hm, hp⟩, hkey⟩
    | true =>
      rw [Option.filter_some_neg (by simp [hp])]
      refine find_eq_none.mpr fun row hrow hsame => ?_
      obtain ⟨hold, hkeep⟩ := mem_deleteWhere.mp hrow
      rw [t.eq_of_key hold hm (hsame.trans hkey.symm), hp] at hkeep
      exact Bool.false_ne_true hkeep.symm

variable {f : α → α}

theorem find_modify (t : KeyedTable key) (k : κ) (hf : ∀ row, key (f row) = key row) (k' : κ) :
    (t.modify k f hf).find k' = if k' = k then (t.find k').map f else t.find k' := by
  have hrow : ∀ row, key (if key row = k then f row else row) = key row := by
    intro row
    split
    · exact hf row
    · rfl
  have hfind : (t.modify k f hf).find k' = (t.find k').map fun row => if key row = k then f row else row := by
    cases hold : t.find k' with
    | none =>
      refine find_eq_none.mpr fun row hm => ?_
      obtain ⟨old, hmemOld, rfl⟩ := mem_map.mp hm
      rw [hrow]
      exact find_eq_none.mp hold old hmemOld
    | some old =>
      obtain ⟨hm, hkey⟩ := find_eq_some.mp hold
      exact find_eq_some.mpr ⟨mem_map.mpr ⟨old, hm, rfl⟩, (hrow old).trans hkey⟩
  rw [hfind]
  split
  · next heq =>
    refine Option.map_congr fun row hm => if_pos ?_
    rw [key_of_find hm, heq]
  · next hne =>
    refine (Option.map_congr fun row hm => if_neg ?_).trans Option.map_id'
    rw [key_of_find hm]
    exact hne

variable {p : α → Bool}

theorem countP_modify (t : KeyedTable key) (k : κ) (hf : ∀ row, key (f row) = key row)
    (hp : ∀ row ∈ t.rows, key row = k → p (f row) = p row) : (t.modify k f hf).rows.countP p = t.rows.countP p := by
  rw [modify, countP_map]
  refine countP_congr fun row hrow => ?_
  dsimp only [Function.comp_apply]
  split
  · next hkey => rw [hp row hrow hkey]
  · exact Iff.rfl

theorem filter_key (t : KeyedTable key) (k : κ) : (t.rows.filter fun row => key row = k) = (t.find k).toList := by
  cases hfind : t.find k with
  | none =>
    refine filter_eq_nil_iff.mpr fun row hrow => ?_
    simpa using find_eq_none.mp hfind row hrow
  | some found =>
    obtain ⟨hm, hkey⟩ := find_eq_some.mp hfind
    have hrows : t.rows.Nodup := List.Nodup.of_map key t.nodup
    refine perm_singleton.mp ((perm_ext_iff_of_nodup (hrows.filter _) (nodup_singleton _)).mpr fun row => ?_)
    rw [mem_filter, mem_singleton, decide_eq_true_eq]
    constructor
    · rintro ⟨hrow, hsame⟩
      exact t.eq_of_key hrow hm (hsame.trans hkey.symm)
    · rintro rfl
      exact ⟨hm, hkey⟩

theorem countP_key (t : KeyedTable key) (p : α → Bool) (k : κ) :
    t.rows.countP (fun row => p row && key row = k) = if (t.find k).any p then 1 else 0 := by
  have hcnt : t.rows.countP (fun row => p row && key row = k) = ((t.rows.filter fun row => key row = k).filter p).length := by
    rw [filter_filter, countP_eq_length_filter]
  rw [hcnt, filter_key]
  cases t.find k with
  | none => rfl
  | some found => cases hp : p found <;> simp [hp]

theorem find_eq_none_iff_not_has : t.find k = none ↔ ¬t.Has k := by
  simp [find_eq_none, Has]

instance (t : KeyedTable key) (k : κ) : Decidable (t.Has k) :=
  inferInstanceAs (Decidable (∃ row ∈ t.rows, key row = k))

/-- `UPDATE OR IGNORE ... SET key=? WHERE key=?`: nothing is done when the new key is taken. -/
def changeKey (t : KeyedTable key) (k k' : κ) (f : α → α) (hf : ∀ row, key (f row) = k') : KeyedTable key :=
  if h : t.Has k' then t
  else ⟨t.rows.map fun row => if key row = k then f row else row, by
    rw [map_map]
    refine List.Nodup.map_on (fun row hrow other hother heq => t.eq_of_key hrow hother ?_) (List.Nodup.of_map key t.nodup)
    simp only [Function.comp_apply] at heq
    split at heq <;> split at heq
    · next hrowKey hotherKey => rw [hrowKey, hotherKey]
    · exact absurd ⟨other, hother, by rw [← heq, hf]⟩ h
    · exact absurd ⟨row, hrow, by rw [heq, hf]⟩ h
    · exact heq⟩

variable {k' : κ}

theorem changeKey_of_has (h : t.Has k') (hf : ∀ row, key (f row) = k') : t.changeKey k k' f hf = t := by
  rw [changeKey, dif_pos h]

theorem has_changeKey (h : ¬t.Has k') (hf : ∀ row, key (f row) = k') {j : κ} :
    (t.changeKey k k' f hf).Has j ↔ j = k' ∧ t.Has k ∨ j ≠ k ∧ t.Has j := by
  rw [changeKey, dif_neg h]
  simp only [Has, mem_map]
  constructor
  · rintro ⟨row, ⟨old, hold, rfl⟩, rfl⟩
    split
    · next hkey => exact .inl ⟨hf old, old, hold, hkey⟩
    · next hkey => exact .inr ⟨hkey, old, hold, rfl⟩
  · rintro (⟨rfl, old, hold, hkey⟩ | ⟨hne, old, hold, rfl⟩)
    · exact ⟨_, ⟨old, hold, rfl⟩, by rw [if_pos hkey, hf]⟩
    · exact ⟨_, ⟨old, hold, rfl⟩, by rw [if_neg hne]⟩

theorem mem_changeKey {hf : ∀ row, key (f row) = k'} (h : row ∈ (t.changeKey k k' f hf).rows) :
    row ∈ t.rows ∨ ∃ old ∈ t.rows, row = f old := by
  unfold changeKey at h
  split at h
  · exact .inl h
  · obtain ⟨old, hold, rfl⟩ := mem_map.mp h
    split
    · exact .inr ⟨old, hold, rfl⟩
    · exact .inl hold

theorem has_insertOrIgnore : (t.insertOrIgnore row).Has k ↔ t.Has k ∨ key row = k := by
  simp only [Has, mem_insertOrIgnore, find_eq_none]
  grind

/-- `INSERT OR REPLACE`. -/
def insertOrReplace (t : KeyedTable key) (row : α) : KeyedTable key :=
  (t.deleteWhere fun other => key other = key row).insertOrIgnore row

theorem find_insertOrReplace (t : KeyedTable key) (row : α) (k : κ) :
    (t.insertOrReplace row).find k = if key row = k then some row else t.find k := by
  rw [insertOrReplace, find_insertOrIgnore, find_deleteWhere]
  split
  · next hkey =>
    cases hold : t.find k with
    | none => rfl
    | some old =>
      have hsame : key old = key row := (key_of_find hold).trans hkey.symm
      rw [Option.filter_some_neg (by simp [hsame]), Option.none_or]
  · next hne =>
    cases hold : t.find k with
    | none => rfl
    | some old =>
      have hother : key old ≠ key row := fun hsame => hne (hsame.symm.trans (key_of_find hold))
      rw [Option.filter_some_pos (by simp [hother]), Option.some_or]

/-! ## Groups -/

omit [DecidableEq κ] in
theorem flatMap_filter_perm [DecidableEq κ] {β : Type*} (group : β → κ) {keys : List κ} (hkeys : keys.Nodup) (xs : List β) :
    (keys.flatMap fun k => xs.filter fun x => group x = k).Perm (xs.filter fun x => group x ∈ keys) := by
  induction keys with
  | nil => simp
  | cons k keys ih =>
    obtain ⟨hnot, hrest⟩ := nodup_cons.mp hkeys
    have hsplit := filter_append_perm (fun x => group x = k) (xs.filter fun x => group x ∈ k :: keys)
    rw [filter_filter, filter_filter] at hsplit
    have hgroup : (xs.filter fun x => decide (group x = k) && decide (group x ∈ k :: keys)) = xs.filter fun x => group x = k := by
      refine filter_congr fun x _ => ?_
      by_cases hx : group x = k <;> simp [hx]
    have hothers : (xs.filter fun x => !decide (group x = k) && decide (group x ∈ k :: keys)) =
        xs.filter fun x => group x ∈ keys := by
      refine filter_congr fun x _ => ?_
      by_cases hx : group x = k
      · simp [hx, hnot]
      · simp [hx]
    rw [hgroup, hothers] at hsplit
    rw [flatMap_cons]
    exact ((ih hrest).append_left _).trans hsplit

/-! ## Sums over a table -/

def total (t : KeyedTable key) (w : α → Nat) : Nat := (t.rows.map w).sum

theorem total_eq_sum (t : KeyedTable key) (w : α → Nat) {keys : Finset κ} (hkeys : ∀ row ∈ t.rows, key row ∈ keys) :
    t.total w = ∑ k ∈ keys, (t.find k).elim 0 w := by
  have hrows : (t.rows.map w).sum = ((t.rows.map key).map fun k => (t.find k).elim 0 w).sum := by
    rw [map_map]
    refine congrArg List.sum (map_congr_left fun row hrow => ?_)
    simp [find_key hrow]
  rw [total, hrows, ← sum_toFinset _ t.nodup]
  refine Finset.sum_subset (fun k hk => ?_) fun k _ hk => ?_
  · obtain ⟨row, hrow, rfl⟩ := mem_map.mp (mem_toFinset.mp hk)
    exact hkeys row hrow
  · have hnone : t.find k = none :=
      find_eq_none.mpr fun row hrow hkey => hk (mem_toFinset.mpr (mem_map.mpr ⟨row, hrow, hkey⟩))
    rw [hnone]
    rfl

omit [DecidableEq κ] in
theorem total_congr {w w' : α → Nat} (h : ∀ row ∈ t.rows, w row = w' row) : t.total w = t.total w' :=
  congrArg List.sum (map_congr_left h)

theorem total_add_total {a b c d : KeyedTable key} {w : α → Nat}
    (h : ∀ k, (a.find k).elim 0 w + (b.find k).elim 0 w = (c.find k).elim 0 w + (d.find k).elim 0 w) :
    a.total w + b.total w = c.total w + d.total w := by
  let keys : Finset κ := ((a.rows ++ b.rows ++ c.rows ++ d.rows).map key).toFinset
  have hkeys (t : KeyedTable key) (ht : t.rows ⊆ a.rows ++ b.rows ++ c.rows ++ d.rows) :
      t.total w = ∑ k ∈ keys, (t.find k).elim 0 w :=
    t.total_eq_sum w fun row hrow => mem_toFinset.mpr (mem_map_of_mem (ht hrow))
  rw [hkeys a (by intro row; simp; tauto), hkeys b (by intro row; simp; tauto), hkeys c (by intro row; simp; tauto),
    hkeys d (by intro row; simp; tauto), ← Finset.sum_add_distrib, ← Finset.sum_add_distrib]
  exact Finset.sum_congr rfl fun k _ => h k

theorem total_deleteWhere_key (t : KeyedTable key) (w : α → Nat) (k : κ) :
    (t.deleteWhere fun row => key row = k).total w + (t.find k).elim 0 w = t.total w := by
  have hperm := (filter_append_perm (fun row => decide (key row = k)) t.rows).map w
  rw [map_append, filter_key] at hperm
  have hsum := hperm.sum_eq
  rw [sum_append] at hsum
  have hkey : ((t.find k).toList.map w).sum = (t.find k).elim 0 w := by cases t.find k <;> simp
  rw [hkey] at hsum
  rw [total, total, ← hsum, Nat.add_comm]
  rfl

/-! ## Inserting a list -/

def insertAll (t : KeyedTable key) (rows : List α) : KeyedTable key := rows.foldl insertOrIgnore t

theorem find_insertAll (t : KeyedTable key) (rows : List α) (k : κ) :
    (t.insertAll rows).find k = (t.find k).or (rows.find? fun row => key row = k) := by
  induction rows generalizing t with
  | nil => simp [insertAll]
  | cons row rows ih =>
    change ((t.insertOrIgnore row).insertAll rows).find k = _
    rw [ih, find_insertOrIgnore, Option.or_assoc, find?_cons]
    by_cases hkey : key row = k <;> simp [hkey]

variable {rows : List α}

theorem mem_insertAll (h : row ∈ (t.insertAll rows).rows) : row ∈ t.rows ∨ row ∈ rows := by
  induction rows generalizing t with
  | nil => exact .inl h
  | cons first rows ih =>
    rcases ih h with hold | hnew
    · rcases mem_insertOrIgnore.mp hold with holder | ⟨-, rfl⟩
      · exact .inl holder
      · exact .inr mem_cons_self
    · exact .inr (mem_cons_of_mem first hnew)

theorem has_insertAll : (t.insertAll rows).Has k ↔ t.Has k ∨ ∃ row ∈ rows, key row = k := by
  induction rows generalizing t with
  | nil => simp [insertAll]
  | cons row rows ih =>
    change ((t.insertOrIgnore row).insertAll rows).Has k ↔ _
    rw [ih, has_insertOrIgnore]
    simp [or_assoc]

theorem rows_insertAll (h : ((t.rows ++ rows).map key).Nodup) : (t.insertAll rows).rows = t.rows ++ rows := by
  induction rows generalizing t with
  | nil => simp [insertAll]
  | cons row rows ih =>
    have hnew : t.find (key row) = none := by
      refine find_eq_none.mpr fun other hother hkey => ?_
      rw [map_append, nodup_append] at h
      exact h.2.2 _ (mem_map_of_mem hother) _ (mem_map_of_mem mem_cons_self) hkey
    have hrows : (t.insertOrIgnore row).rows = t.rows ++ [row] := by rw [insertOrIgnore, dif_pos hnew]
    change ((t.insertOrIgnore row).insertAll rows).rows = _
    rw [ih (by rw [hrows]; simpa using h), hrows]
    simp

theorem countP_insertAll (hnew : ∀ row ∈ rows, p row → ¬t.Has (key row))
    (hdist : rows.Pairwise fun row row' => p row ∨ p row' → key row ≠ key row') :
    (t.insertAll rows).rows.countP p = t.rows.countP p + rows.countP p := by
  induction rows generalizing t with
  | nil => simp [insertAll]
  | cons row rows ih =>
    obtain ⟨hfirst, hrest⟩ := pairwise_cons.mp hdist
    have hcnt : (t.insertOrIgnore row).rows.countP p = t.rows.countP p + if p row then 1 else 0 := by
      by_cases hp : p row
      · have hfree : t.find (key row) = none := find_eq_none_iff_not_has.mpr (hnew row mem_cons_self hp)
        rw [insertOrIgnore, dif_pos hfree, countP_append, countP_singleton]
      · rw [if_neg hp]
        unfold insertOrIgnore
        split
        · rw [countP_append, countP_singleton, if_neg hp]
        · rfl
    have hfree : ∀ other ∈ rows, p other → ¬(t.insertOrIgnore row).Has (key other) := by
      intro other hother hp hhas
      rcases has_insertOrIgnore.mp hhas with hold | hkey
      · exact hnew other (mem_cons_of_mem row hother) hp hold
      · exact hfirst other hother (.inr hp) hkey
    change ((t.insertOrIgnore row).insertAll rows).rows.countP p = _
    rw [ih hfree hrest, hcnt, countP_cons]
    omega

theorem countP_insertAll_of_forall (h : ∀ row ∈ rows, p row = false) :
    (t.insertAll rows).rows.countP p = t.rows.countP p := by
  have hnone : rows.countP p = 0 := countP_eq_zero.mpr fun row hrow => by simp [h row hrow]
  rw [countP_insertAll (fun row hrow hp => absurd hp (by simp [h row hrow])) ?_, hnone, Nat.add_zero]
  refine pairwise_iff_forall_sublist.mpr fun hsub hp => ?_
  have hm := hsub.subset
  rcases hp with hp | hp
  · rw [h _ (hm mem_cons_self)] at hp
    cases hp
  · rw [h _ (hm (mem_cons_of_mem _ mem_cons_self))] at hp
    cases hp

theorem mem_insertAll_empty :
    row ∈ ((empty : KeyedTable key).insertAll rows).rows ↔ rows.find? (fun other => key other = key row) = some row := by
  have hfind := find_insertAll (empty : KeyedTable key) rows (key row)
  have hempty : (empty : KeyedTable key).find (key row) = none := rfl
  rw [hempty, Option.none_or] at hfind
  rw [← hfind, find_eq_some]
  simp

end

end KeyedTable

end TelegramClient
