import Mathlib.Algebra.Order.BigOperators.Group.List
import Mathlib.Data.List.Lex
import Mathlib.Tactic.Ring

/-!
# Sorted tables and cursors

A map is the list of its entries in the order of the keys. A cursor stands at an entry, or between two: it knows the
entries below it and those from it on.

* `takeWhile_eq_filter` : a predicate that holds of a beginning of a list;
* `weight` : a sum over the entries, and what erasing and inserting adds to it.
-/

namespace TelegramClient
open List

/-- Bytes are compared as numbers, and byte strings lexicographically then. -/
instance byteOrder : LinearOrder UInt8 where
  le_refl _ := Nat.le_refl _
  le_trans _ _ _ := Nat.le_trans
  lt_iff_le_not_ge _ _ := Nat.lt_iff_le_and_not_ge
  le_antisymm _ _ h h' := UInt8.le_antisymm h h'
  le_total a b := Nat.le_total a.toNat b.toNat
  toDecidableLE := inferInstance

section
variable {α σ : Type*}

theorem takeWhile_eq_filter {p : α → Bool} {l : List α} (h : l.Pairwise fun a b => p b = true → p a = true) :
    l.takeWhile p = l.filter p := by
  induction h with
  | nil => rfl
  | @cons a l hhead _ ih =>
    cases hp : p a with
    | true => rw [takeWhile_cons_of_pos hp, filter_cons_of_pos hp, ih]
    | false =>
      have hnone : l.filter p = [] := filter_eq_nil_iff.mpr fun b hb hpb => by
        have := hhead b hb hpb
        rw [hp] at this
        exact Bool.false_ne_true this
      rw [takeWhile_cons_of_neg (by rw [hp]; exact Bool.false_ne_true),
        filter_cons_of_neg (by rw [hp]; exact Bool.false_ne_true), hnone]

/-- The calls of a block for the members of a list, up to the first call that stops. -/
def feed (block : α → σ → Bool × σ) : List α → σ → σ
  | [], s => s
  | a :: as, s =>
      let (stop, s') := block a s
      if stop then s' else feed block as s'

theorem feed_cons (block : α → σ → Bool × σ) (a : α) (as : List α) (s : σ) :
    feed block (a :: as) s = if (block a s).1 then (block a s).2 else feed block as (block a s).2 := rfl

/-- A block that records its calls and decides by them whether to stop. -/
def recording (stop : List α → Bool) (a : α) (calls : List α) : Bool × List α :=
  (stop (calls ++ [a]), calls ++ [a])

variable (stop : List α → Bool)

variable (a : α) (l calls : List α)

theorem feed_recording_cons : feed (recording stop) (a :: l) calls =
      if stop (calls ++ [a]) then calls ++ [a] else feed (recording stop) l (calls ++ [a]) := rfl

theorem prefix_feed_recording : calls <+: feed (recording stop) l calls := by
  induction l generalizing calls with
  | nil => exact prefix_rfl
  | cons a l ih =>
    have hcall : calls <+: calls ++ [a] := prefix_append _ _
    rw [feed_recording_cons]
    split
    · exact hcall
    · exact hcall.trans (ih _)

theorem feed_recording_cons_ne_nil : feed (recording stop) (a :: l) [] ≠ [] := by
  rw [feed_recording_cons]
  split
  · exact cons_ne_nil _ _
  · exact fun h => absurd (h ▸ prefix_feed_recording stop l ([] ++ [a])) (by simp)

end

/-- A map, as its entries in the order of the keys. -/
structure SortedTable (K V : Type*) [LT K] where
  entries : List (K × V)
  sorted : entries.Pairwise fun a b => a.1 < b.1

def SortedTable.empty {K V : Type*} [LT K] : SortedTable K V := ⟨[], .nil⟩

inductive CursorDirection where
  | back
  | forward
deriving DecidableEq

/-- A position in a table: the entries below it, the nearest first, and those from it on. -/
structure TableCursor (K V : Type*) where
  below : List (K × V)
  rest : List (K × V)

namespace TableCursor

variable {K V : Type*}

def previous (c : TableCursor K V) : Option ((K × V) × TableCursor K V) :=
  match c.below with
  | [] => none
  | e :: below => some (e, ⟨below, e :: c.rest⟩)

def next (c : TableCursor K V) : Option ((K × V) × TableCursor K V) :=
  match c.rest with
  | e :: e' :: rest => some (e', ⟨e :: c.below, e' :: rest⟩)
  | _ => none

def move (c : TableCursor K V) : CursorDirection → Option ((K × V) × TableCursor K V)
  | .back => c.previous
  | .forward => c.next

/-- What the moves in a direction yield, one after another. -/
def ahead (c : TableCursor K V) : CursorDirection → List (K × V)
  | .back => c.below
  | .forward => c.rest.tail

variable {c : TableCursor K V} {direction : CursorDirection}

theorem move_of_ahead_nil (h : c.ahead direction = []) : c.move direction = none := by
  obtain ⟨below, rest⟩ := c
  cases direction with
  | back =>
    obtain rfl : below = [] := h
    rfl
  | forward =>
    rcases rest with _ | ⟨e, rest⟩
    · rfl
    · obtain rfl : rest = [] := h
      rfl

theorem move_of_ahead_cons {e : K × V} {es : List (K × V)} (h : c.ahead direction = e :: es) :
    ∃ c', c.move direction = some (e, c') ∧ c'.ahead direction = es := by
  obtain ⟨below, rest⟩ := c
  cases direction with
  | back =>
    obtain rfl : below = e :: es := h
    exact ⟨_, rfl, rfl⟩
  | forward =>
    rcases rest with _ | ⟨e₀, rest⟩
    · cases h
    · obtain rfl : rest = e :: es := h
      exact ⟨_, rfl, rfl⟩

end TableCursor

namespace SortedTable

variable {K V : Type*} [LinearOrder K] (t : SortedTable K V)

theorem filter_or {p q : K → Prop} [DecidablePred p] [DecidablePred q] (h : ∀ a b, p a → q b → a < b) :
    t.entries.filter (fun e => p e.1 ∨ q e.1) =
      t.entries.filter (fun e => p e.1) ++ t.entries.filter (fun e => q e.1) := by
  obtain ⟨entries, hsorted⟩ := t
  dsimp only
  induction entries with
  | nil => rfl
  | cons e l ih =>
    obtain ⟨hhead, hl⟩ := pairwise_cons.mp hsorted
    by_cases hp : p e.1
    · have hq : ¬q e.1 := fun hq => lt_irrefl _ (h _ _ hp hq)
      rw [filter_cons_of_pos (by simp [hp]), filter_cons_of_pos (by simp [hp]),
        filter_cons_of_neg (by simp [hq]), ih hl, cons_append]
    by_cases hq : q e.1
    · have hnone : l.filter (fun e => p e.1) = [] := filter_eq_nil_iff.mpr fun e' hm hp' =>
        lt_asymm (hhead e' hm) (h _ _ (of_decide_eq_true hp') hq)
      rw [filter_cons_of_pos (by simp [hq]), filter_cons_of_neg (by simp [hp]),
        filter_cons_of_pos (by simp [hq]), ih hl, hnone, nil_append, nil_append]
    · rw [filter_cons_of_neg (by simp [hp, hq]), filter_cons_of_neg (by simp [hp]),
        filter_cons_of_neg (by simp [hq]), ih hl]

def run (key : K) : CursorDirection → List (K × V)
  | .back => (t.entries.filter fun e => e.1 ≤ key).reverse
  | .forward => t.entries.filter fun e => key ≤ e.1

def beyond (key : K) : CursorDirection → List (K × V)
  | .back => (t.entries.filter fun e => e.1 < key).reverse
  | .forward => t.entries.filter fun e => key < e.1

def cursorAt (key : K) : TableCursor K V :=
  ⟨(t.entries.filter fun e => e.1 < key).reverse, t.entries.filter fun e => key ≤ e.1⟩

def seekRange (key : K) : Option (K × V) := (t.cursorAt key).rest.head?

def seekKey (key : K) : Option (K × V) := (t.seekRange key).filter fun e => e.1 = key

theorem filter_key (key : K) : t.entries.filter (fun e => e.1 = key) = (t.seekKey key).toList := by
  have hsplit : t.entries.filter (fun e => key ≤ e.1) =
      t.entries.filter (fun e => e.1 = key) ++ t.entries.filter (fun e => key < e.1) := by
    rw [← t.filter_or fun a b (ha : a = key) hb => ha ▸ hb]
    exact filter_congr fun e _ => decide_eq_decide.mpr (by rw [le_iff_eq_or_lt, eq_comm])
  have hone : (t.entries.filter (fun e => e.1 = key)).Pairwise fun a b => a.1 < b.1 :=
    t.sorted.sublist filter_sublist
  have hkeys : ∀ e ∈ t.entries.filter (fun e => e.1 = key), e.1 = key := fun e he =>
    of_decide_eq_true (mem_filter.mp he).2
  have hseek : t.seekKey key = (t.entries.filter (fun e => key ≤ e.1)).head?.filter fun e => e.1 = key := rfl
  rw [hsplit] at hseek
  rcases hlist : t.entries.filter (fun e => e.1 = key) with _ | ⟨e, _ | ⟨e', es⟩⟩
  · rw [hlist, nil_append] at hseek
    have hnone : t.seekKey key = none := by
      rw [hseek]
      refine Option.filter_eq_none_iff.mpr fun e he => ?_
      have hlt := of_decide_eq_true (mem_filter.mp (mem_of_mem_head? he)).2
      simpa using ne_of_gt hlt
    rw [hlist, hnone, Option.toList_none]
  · rw [hlist] at hseek hkeys
    have hkey := hkeys e (mem_singleton_self e)
    rw [hlist, hseek, singleton_append, head?_cons, Option.filter_some_pos (by simpa using hkey),
      Option.toList_some]
  · rw [hlist] at hone hkeys
    have hlt := (pairwise_cons.mp hone).1 e' mem_cons_self
    rw [hkeys e mem_cons_self, hkeys e' (mem_cons_of_mem _ mem_cons_self)] at hlt
    exact absurd hlt (lt_irrefl _)

theorem run_eq (key : K) (direction : CursorDirection) :
    t.run key direction = (t.seekKey key).toList ++ t.beyond key direction := by
  cases direction with
  | forward =>
    have hsplit := t.filter_or (p := (· = key)) (q := (key < ·)) fun a b ha hb => ha ▸ hb
    rw [← filter_key, beyond, ← hsplit]
    exact filter_congr fun e _ => decide_eq_decide.mpr (by rw [le_iff_eq_or_lt, eq_comm])
  | back =>
    have hsplit := t.filter_or (p := (· < key)) (q := (· = key)) fun a b ha hb => hb ▸ ha
    have hreverse : (t.seekKey key).toList = (t.seekKey key).toList.reverse := by cases t.seekKey key <;> rfl
    rw [hreverse, ← filter_key, beyond, ← reverse_append, ← hsplit]
    exact congrArg List.reverse (filter_congr fun e _ => decide_eq_decide.mpr le_iff_lt_or_eq)

variable {key : K} {e : K × V}

theorem key_ne_of_mem_beyond {direction : CursorDirection} (h : e ∈ t.beyond key direction) : e.1 ≠ key := by
  cases direction with
  | forward => exact ne_of_gt (of_decide_eq_true (mem_filter.mp h).2)
  | back => exact ne_of_lt (of_decide_eq_true (mem_filter.mp (mem_reverse.mp h)).2)

theorem key_of_seekKey (h : t.seekKey key = some e) : e.1 = key :=
  of_decide_eq_true (Option.filter_eq_some_iff.mp h).2

/-! ## Changes -/

theorem eq_of_mem {e' : K × V} (h : e ∈ t.entries) (h' : e' ∈ t.entries) (hkey : e.1 = e'.1) : e = e' := by
  obtain ⟨entries, hsorted⟩ := t
  dsimp only at h h'
  induction entries with
  | nil => cases h
  | cons a l ih =>
    obtain ⟨hhead, hl⟩ := pairwise_cons.mp hsorted
    rcases mem_cons.mp h with rfl | h₁
    · rcases mem_cons.mp h' with rfl | h₂
      · rfl
      · exact absurd hkey (ne_of_lt (hhead _ h₂))
    · rcases mem_cons.mp h' with rfl | h₂
      · exact absurd hkey (ne_of_gt (hhead _ h₁))
      · exact ih hl h₁ h₂

theorem nodup : t.entries.Nodup := by
  refine List.Pairwise.imp (fun {a b} (hlt : a.1 < b.1) => ?_) t.sorted
  rintro rfl
  exact lt_irrefl _ hlt

def lookup (key : K) : Option V := (t.entries.find? fun e => e.1 = key).map Prod.snd

variable {v : V}

theorem lookup_eq_some : t.lookup key = some v ↔ (key, v) ∈ t.entries := by
  unfold lookup
  constructor
  · intro h
    obtain ⟨e, hfind, rfl⟩ := Option.map_eq_some_iff.mp h
    have hkey : e.1 = key := by simpa using find?_some hfind
    rw [← hkey]
    exact mem_of_find?_eq_some hfind
  · intro h
    cases hfind : t.entries.find? fun e => e.1 = key with
    | none => exact absurd (find?_eq_none.mp hfind _ h) (by simp)
    | some e =>
      have hkey : e.1 = key := by simpa using find?_some hfind
      rw [t.eq_of_mem (mem_of_find?_eq_some hfind) h hkey, Option.map_some]

theorem lookup_eq_none : t.lookup key = none ↔ ∀ e ∈ t.entries, e.1 ≠ key := by
  rw [lookup, Option.map_eq_none_iff, find?_eq_none]
  simp

def erase (key : K) : SortedTable K V := ⟨t.entries.filter fun e => e.1 ≠ key, t.sorted.sublist filter_sublist⟩

/-- An entry in place of the one that the key has. -/
def insert (key : K) (v : V) : SortedTable K V where
  entries := t.entries.filter (fun e => e.1 < key) ++ (key, v) :: t.entries.filter (fun e => key < e.1)
  sorted := by
    refine pairwise_append.mpr ⟨t.sorted.sublist filter_sublist, pairwise_cons.mpr ⟨?_, ?_⟩, ?_⟩
    · exact fun e he => of_decide_eq_true (mem_filter.mp he).2
    · exact t.sorted.sublist filter_sublist
    · intro a ha b hb
      have hlt : a.1 < key := of_decide_eq_true (mem_filter.mp ha).2
      rcases mem_cons.mp hb with rfl | hb
      · exact hlt
      · exact hlt.trans (of_decide_eq_true (mem_filter.mp hb).2)

theorem mem_erase : e ∈ (t.erase key).entries ↔ e ∈ t.entries ∧ e.1 ≠ key := by
  simp [erase]

theorem entries_erase (key : K) : (t.erase key).entries =
    t.entries.filter (fun e => e.1 < key) ++ t.entries.filter (fun e => key < e.1) := by
  rw [← t.filter_or (p := (· < key)) (q := (key < ·)) fun a b ha hb => lt_trans ha hb]
  exact filter_congr fun e _ => decide_eq_decide.mpr ne_iff_lt_or_gt

theorem filter_insert {p : K → Bool} (h : p key = false) (v : V) :
    (t.insert key v).entries.filter (fun e => p e.1) = t.entries.filter fun e => p e.1 := by
  have herase : t.entries.filter (fun e => p e.1) = (t.erase key).entries.filter fun e => p e.1 := by
    rw [erase, filter_filter]
    refine filter_congr fun e _ => ?_
    by_cases heq : e.1 = key
    · rw [heq, h, Bool.false_and]
    · rw [decide_eq_true heq, Bool.and_true]
  rw [herase, t.entries_erase, insert, filter_append, filter_append, filter_cons, h,
    if_neg Bool.false_ne_true]

theorem insert_perm (key : K) (v : V) : List.Perm (t.insert key v).entries ((key, v) :: (t.erase key).entries) := by
  rw [entries_erase]
  exact perm_middle

theorem mem_insert : e ∈ (t.insert key v).entries ↔ e = (key, v) ∨ e ∈ t.entries ∧ e.1 ≠ key := by
  rw [(t.insert_perm key v).mem_iff, mem_cons, mem_erase]

theorem erase_comm (key key' : K) : (t.erase key).erase key' = (t.erase key').erase key := by
  unfold erase
  simp only [filter_filter, Bool.and_comm]

@[simp] theorem lookup_erase_self (key : K) : (t.erase key).lookup key = none :=
  (t.erase key).lookup_eq_none.mpr fun _ he => (t.mem_erase.mp he).2

variable {key' : K}

theorem lookup_erase_of_ne (h : key' ≠ key) : (t.erase key).lookup key' = t.lookup key' := by
  refine Option.ext fun v => ?_
  rw [lookup_eq_some, lookup_eq_some, mem_erase]
  exact and_iff_left h

@[simp] theorem lookup_insert_self (key : K) (v : V) : (t.insert key v).lookup key = some v :=
  (t.insert key v).lookup_eq_some.mpr (t.mem_insert.mpr (.inl rfl))

theorem lookup_insert_of_ne (h : key' ≠ key) (v : V) : (t.insert key v).lookup key' = t.lookup key' := by
  refine Option.ext fun v' => ?_
  rw [lookup_eq_some, lookup_eq_some, mem_insert]
  exact ⟨fun hm => hm.elim (fun heq => absurd (Prod.ext_iff.mp heq).1 h) And.left, fun hm => .inr ⟨hm, h⟩⟩

def mapValues {W : Type*} (f : V → W) : SortedTable K W :=
  ⟨t.entries.map fun e => (e.1, f e.2), pairwise_map.mpr t.sorted⟩

theorem mem_mapValues {W : Type*} {f : V → W} {e : K × W} :
    e ∈ (t.mapValues f).entries ↔ ∃ v, (e.1, v) ∈ t.entries ∧ e.2 = f v := by
  unfold mapValues
  rw [mem_map]
  constructor
  · rintro ⟨e', hm, rfl⟩
    exact ⟨e'.2, hm, rfl⟩
  · rintro ⟨v, hm, heq⟩
    exact ⟨_, hm, Prod.ext rfl heq.symm⟩

def weight (f : K × V → Nat) : Nat := (t.entries.map f).sum

variable (f : K × V → Nat)

theorem weight_insert (key : K) (v : V) : (t.insert key v).weight f = f (key, v) + (t.erase key).weight f := by
  rw [weight, ((t.insert_perm key v).map f).sum_nat, map_cons, sum_cons, weight]

theorem erase_of_lookup_eq_none (h : t.lookup key = none) : (t.erase key).entries = t.entries :=
  filter_eq_self.mpr fun e he => decide_eq_true (t.lookup_eq_none.mp h e he)

theorem weight_erase_of_none (h : t.lookup key = none) : (t.erase key).weight f = t.weight f := by
  rw [weight, t.erase_of_lookup_eq_none h, weight]

theorem weight_erase (h : t.lookup key = some v) : t.weight f = f (key, v) + (t.erase key).weight f := by
  have hsame : List.Perm t.entries (t.insert key v).entries := by
    refine (perm_ext_iff_of_nodup t.nodup (t.insert key v).nodup).mpr fun e => ?_
    have hm := t.lookup_eq_some.mp h
    rw [mem_insert]
    constructor
    · intro he
      by_cases hkey : e.1 = key
      · exact .inl (t.eq_of_mem he hm hkey)
      · exact .inr ⟨he, hkey⟩
    · rintro (rfl | he)
      · exact hm
      · exact he.1
  rw [← t.weight_insert f key v, weight, (hsame.map f).sum_nat, weight]

end SortedTable

end TelegramClient
