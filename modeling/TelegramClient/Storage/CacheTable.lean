import TelegramClient.Storage.ModernCache

/-!
# The table of the disk cache

* `Represents` : the table says for every key its sorting value and its size;
* `evicted`, `evictFrom` : the entries that make room for a value, and the table without them.
-/

namespace TelegramClient.Storage
open Function (update update_of_ne update_self)
open List (cons_ne_nil length_cons map_cons sum_cons)
open SortedTable (erase_comm lookup_erase_of_ne lookup_insert_of_ne lookup_insert_self mem_erase mem_insert weight)

/-! ## Keys -/

variable {key' : Bytes}

theorem recordKey_inj {key : Bytes} : recordKey key = recordKey key' ↔ key = key' :=
  ⟨fun h => (List.cons.inj h).2, fun h => h ▸ rfl⟩

theorem indexKey_inj {sortingValue sortingValue' key : Bytes} (hlen : sortingValue.length = sortingValue'.length) :
    indexKey sortingValue key = indexKey sortingValue' key' ↔ sortingValue = sortingValue' ∧ key = key' := by
  refine ⟨fun h => List.append_inj (List.cons.inj h).2 hlen, ?_⟩
  rintro ⟨rfl, rfl⟩
  rfl

variable (t : SortedTable Bytes Bytes) (key : Bytes)

variable (u : Usage) (sortingValue : Bytes)

theorem recordKey_ne_indexKey (key' : Bytes) : recordKey key ≠ indexKey sortingValue key' :=
  fun h => absurd (List.cons.inj h).1 (by decide)

theorem isIndexKey_indexKey (key : Bytes) : isIndexKey (indexKey sortingValue key) = true := rfl

theorem isIndexKey_recordKey : isIndexKey (recordKey key) = false := rfl

def IsOtherKey (key : Bytes) : Prop := ∃ keyspace rest, key = keyspace :: rest ∧ keyspace ≠ lastUsageByPath ∧
  keyspace ≠ pathAndSizeByLastUsage

theorem isOtherKey_sizeKey : IsOtherKey sizeKey := ⟨_, _, rfl, by decide, by decide⟩

theorem isOtherKey_sortingValueKey : IsOtherKey sortingValueKey := ⟨_, _, rfl, by decide, by decide⟩

theorem IsOtherKey.ne_recordKey {key : Bytes} (h : IsOtherKey key) (key' : Bytes) : recordKey key' ≠ key := by
  obtain ⟨keyspace, rest, rfl, hne, -⟩ := h
  exact fun heq => hne (List.cons.inj heq).1.symm

theorem IsOtherKey.not_isIndexKey {key : Bytes} (h : IsOtherKey key) : isIndexKey key = false := by
  obtain ⟨keyspace, rest, rfl, -, hne⟩ := h
  exact decide_eq_false fun heq => hne (Option.some.inj heq)

theorem IsOtherKey.ne_indexKey {key : Bytes} (h : IsOtherKey key) (sortingValue key' : Bytes) :
    indexKey sortingValue key' ≠ key := by
  rintro rfl
  exact Bool.false_ne_true (h.not_isIndexKey.symm.trans (isIndexKey_indexKey sortingValue key'))

variable (size : Nat)

theorem take_indexValue (key : Bytes) : (indexValue size key).take 4 = leBytes 4 size := by
  rw [indexValue, List.take_append_of_le_length (by rw [length_leBytes])]
  exact List.take_of_length_le (by rw [length_leBytes])

theorem drop_indexValue (key : Bytes) : (indexValue size key).drop 4 = key := by
  have h : (leBytes 4 size ++ key).drop (leBytes 4 size).length = key := List.drop_left
  rwa [length_leBytes] at h

theorem sizeField_indexValue {size : Nat} (h : size < 2 ^ 31) (key : Bytes) :
    sizeField (indexValue size key) = size := by
  rw [sizeField, take_indexValue, ofLe_leBytes]
  omega

/-! ## What a table says -/

abbrev Usage : Type := Bytes → Option (Bytes × Nat)

structure Represents (t : SortedTable Bytes Bytes) (u : Usage) : Prop where
  record_eq : ∀ key, t.lookup (recordKey key) = (u key).map Prod.fst
  index_eq : ∀ {key sortingValue size}, u key = some (sortingValue, size) →
    t.lookup (indexKey sortingValue key) = some (indexValue size key)
  of_mem : ∀ e ∈ t.entries, isIndexKey e.1 → ∃ key sortingValue size, u key = some (sortingValue, size) ∧
    e = (indexKey sortingValue key, indexValue size key)
  length_eq : ∀ {key sortingValue size}, u key = some (sortingValue, size) → sortingValue.length = 4

def indexWeight (f : Bytes → Nat) (t : SortedTable Bytes Bytes) : Nat :=
  t.weight fun e => if isIndexKey e.1 then f e.2 else 0

namespace Represents

variable {t : SortedTable Bytes Bytes} {u : Usage} (h : Represents t u)
include h

variable {key : Bytes}

theorem write_other (hkey : IsOtherKey key) (value : Bytes) : Represents (writeValueForRawKey t key value) u := by
  unfold writeValueForRawKey
  split
  case isFalse => exact h
  refine ⟨fun key' => ?_, fun {key' sortingValue size} hu => ?_, fun e hm hidx => ?_, h.length_eq⟩
  · rw [t.lookup_insert_of_ne (hkey.ne_recordKey key'), h.record_eq]
  · rw [t.lookup_insert_of_ne (hkey.ne_indexKey sortingValue key'), h.index_eq hu]
  · rcases t.mem_insert.mp hm with rfl | ⟨hm, -⟩
    · exact absurd (hkey.not_isIndexKey.symm.trans hidx) Bool.false_ne_true
    · exact h.of_mem e hm hidx

variable {sortingValue : Bytes}

theorem erase {size : Nat} (hu : u key = some (sortingValue, size)) :
    Represents ((t.erase (indexKey sortingValue key)).erase (recordKey key)) (update u key none) := by
  have hold : ∀ {key' entry}, update u key none key' = some entry → key' ≠ key ∧ u key' = some entry := by
    intro key' entry hu'
    by_cases hkey : key' = key
    · rw [hkey, update_self] at hu'
      cases hu'
    · rw [update_of_ne hkey] at hu'
      exact ⟨hkey, hu'⟩
  refine ⟨fun key' => ?_, fun {key' sortingValue' size'} hu' => ?_, fun e hm hidx => ?_, fun hu' => ?_⟩
  · by_cases hkey : key' = key
    · rw [hkey, SortedTable.lookup_erase_self, update_self, Option.map_none]
    · rw [lookup_erase_of_ne _ (recordKey_inj.not.mpr hkey),
        lookup_erase_of_ne _ (recordKey_ne_indexKey key' sortingValue key), h.record_eq,
        update_of_ne hkey]
  · obtain ⟨hkey, hu'⟩ := hold hu'
    have hlen := (h.length_eq hu').trans (h.length_eq hu).symm
    rw [lookup_erase_of_ne _ (recordKey_ne_indexKey key sortingValue' key').symm,
      lookup_erase_of_ne _ fun heq => hkey ((indexKey_inj hlen).mp heq).2, h.index_eq hu']
  · obtain ⟨hm, -⟩ := mem_erase _ |>.mp hm
    obtain ⟨hm, hne⟩ := mem_erase _ |>.mp hm
    obtain ⟨key', sortingValue', size', hu', rfl⟩ := h.of_mem e hm hidx
    have hkey : key' ≠ key := by
      rintro rfl
      rw [hu] at hu'
      cases hu'
      exact hne rfl
    exact ⟨key', sortingValue', size', by rw [update_of_ne hkey, hu'], rfl⟩
  · exact h.length_eq (hold hu').2

theorem put (size : Nat) (hu : u key = none) (hlen : sortingValue.length = 4) (hkey : key.length ≤ 506) :
    Represents (writeValueForRawKey (writeValueForRawKey t (recordKey key) sortingValue) (indexKey sortingValue key)
      (indexValue size key)) (update u key (some (sortingValue, size))) := by
  have hrec : recordKey key ≠ [] ∧ (recordKey key).length ≤ 511 :=
    ⟨cons_ne_nil _ _, by rw [recordKey, length_cons]; omega⟩
  have hidx : indexKey sortingValue key ≠ [] ∧ (indexKey sortingValue key).length ≤ 511 :=
    ⟨cons_ne_nil _ _, by rw [indexKey, length_cons, List.length_append, hlen]; omega⟩
  rw [writeValueForRawKey, writeValueForRawKey, if_pos hrec, if_pos hidx]
  refine ⟨fun key' => ?_, fun {key' sortingValue' size'} hu' => ?_, fun e hm he => ?_, fun {key' _ _} hu' => ?_⟩
  · rw [lookup_insert_of_ne _ (recordKey_ne_indexKey key' sortingValue key)]
    by_cases heq : key' = key
    · rw [heq, lookup_insert_self, update_self, Option.map_some]
    · rw [lookup_insert_of_ne _ (recordKey_inj.not.mpr heq), h.record_eq, update_of_ne heq]
  · by_cases heq : key' = key
    · rw [heq, update_self] at hu'
      cases hu'
      rw [heq, lookup_insert_self]
    · rw [update_of_ne heq] at hu'
      have hlen' := (h.length_eq hu').trans hlen.symm
      rw [lookup_insert_of_ne _ fun heq' => heq ((indexKey_inj hlen').mp heq').2,
        lookup_insert_of_ne _ (recordKey_ne_indexKey key sortingValue' key').symm, h.index_eq hu']
  · rcases mem_insert _ |>.mp hm with rfl | ⟨hm, -⟩
    · exact ⟨key, sortingValue, size, update_self .., rfl⟩
    · rcases mem_insert _ |>.mp hm with rfl | ⟨hm, -⟩
      · exact absurd he Bool.false_ne_true
      · obtain ⟨key', sortingValue', size', hu', rfl⟩ := h.of_mem e hm he
        have heq : key' ≠ key := by
          rintro rfl
          rw [hu] at hu'
          cases hu'
        exact ⟨key', sortingValue', size', by rw [update_of_ne heq, hu'], rfl⟩
  · by_cases heq : key' = key
    · rw [heq, update_self] at hu'
      cases hu'
      exact hlen
    · rw [update_of_ne heq] at hu'
      exact h.length_eq hu'

end Represents

/-! ## Sums over the index -/

section
variable (f : Bytes → Nat) (t : SortedTable Bytes Bytes)

variable {key : Bytes}

theorem indexWeight_insert_of_not (hkey : isIndexKey key = false) (value : Bytes) :
    indexWeight f (t.insert key value) = indexWeight f t := by
  have hzero : ∀ value : Bytes, (if isIndexKey key then f value else 0) = 0 := fun value => by
    rw [hkey, if_neg Bool.false_ne_true]
  rw [indexWeight, t.weight_insert, hzero, Nat.zero_add]
  cases hlook : t.lookup key with
  | none => rw [t.weight_erase_of_none _ hlook, indexWeight]
  | some old => rw [indexWeight, t.weight_erase _ hlook, hzero, Nat.zero_add]

theorem indexWeight_write_of_not (hkey : isIndexKey key = false) (value : Bytes) :
    indexWeight f (writeValueForRawKey t key value) = indexWeight f t := by
  unfold writeValueForRawKey
  split
  · exact indexWeight_insert_of_not f t hkey value
  · rfl

theorem indexWeight_erase_of_not (hkey : isIndexKey key = false) : indexWeight f (t.erase key) = indexWeight f t := by
  cases hlook : t.lookup key with
  | none => rw [indexWeight, t.weight_erase_of_none _ hlook, indexWeight]
  | some old =>
    have hweight := t.weight_erase (fun e => if isIndexKey e.1 then f e.2 else 0) hlook
    rw [hkey, if_neg Bool.false_ne_true, Nat.zero_add] at hweight
    exact hweight.symm

variable {sortingValue : Bytes}

theorem indexWeight_erase {value : Bytes} (h : t.lookup (indexKey sortingValue key) = some value) :
    indexWeight f t = f value + indexWeight f (t.erase (indexKey sortingValue key)) :=
  t.weight_erase (fun e => if isIndexKey e.1 then f e.2 else 0) h

theorem indexWeight_insert (h : t.lookup (indexKey sortingValue key) = none) (value : Bytes) :
    indexWeight f (t.insert (indexKey sortingValue key) value) = f value + indexWeight f t := by
  rw [indexWeight, t.weight_insert, t.weight_erase_of_none _ h]
  rfl

end

def entryWeight (f : Bytes → Nat) (u : Usage) (key : Bytes) : Nat :=
  match u key with
  | some (_, size) => f (indexValue size key)
  | none => 0

namespace Represents

variable {t : SortedTable Bytes Bytes} {u : Usage} (h : Represents t u)
include h

variable {key sortingValue : Bytes} (f : Bytes → Nat)

theorem indexWeight_erase {size : Nat} (hu : u key = some (sortingValue, size)) :
    indexWeight f t = f (indexValue size key) +
      indexWeight f ((t.erase (indexKey sortingValue key)).erase (recordKey key)) := by
  rw [indexWeight_erase_of_not f _ (isIndexKey_recordKey key), ← Storage.indexWeight_erase f t (h.index_eq hu)]

theorem deleteLastAccess (key : Bytes) : Represents (deleteLastAccess t key) (update u key none) ∧
      indexWeight f t = entryWeight f u key + indexWeight f (Storage.deleteLastAccess t key) := by
  unfold Storage.deleteLastAccess entryWeight
  rw [h.record_eq]
  cases hu : u key with
  | none =>
    rw [Function.update_eq_self_iff.mpr hu.symm]
    exact ⟨h, (Nat.zero_add _).symm⟩
  | some entry =>
    obtain ⟨sortingValue, size⟩ := entry
    have htake : sortingValue.take 4 = sortingValue := List.take_of_length_le (h.length_eq hu).le
    rw [Option.map_some]
    dsimp only
    rw [htake, erase_comm]
    exact ⟨h.erase hu, h.indexWeight_erase f hu⟩

theorem lookup_indexKey_eq_none (hu : u key = none) (hlen : sortingValue.length = 4) :
    t.lookup (indexKey sortingValue key) = none := by
  cases hlook : t.lookup (indexKey sortingValue key) with
  | none => rfl
  | some value =>
    obtain ⟨key', sortingValue', size, hu', heq⟩ :=
      h.of_mem _ (t.lookup_eq_some.mp hlook) (isIndexKey_indexKey sortingValue key)
    obtain ⟨-, rfl⟩ := (indexKey_inj (hlen.trans (h.length_eq hu').symm)).mp (Prod.ext_iff.mp heq).1
    rw [hu] at hu'
    cases hu'

theorem indexWeight_put (size : Nat) (hu : u key = none) (hlen : sortingValue.length = 4) (hkey : key.length ≤ 506) :
    indexWeight f (writeValueForRawKey (writeValueForRawKey t (recordKey key) sortingValue) (indexKey sortingValue key)
      (indexValue size key)) = f (indexValue size key) + indexWeight f t := by
  have hidx : indexKey sortingValue key ≠ [] ∧ (indexKey sortingValue key).length ≤ 511 :=
    ⟨cons_ne_nil _ _, by rw [indexKey, length_cons, List.length_append, hlen]; omega⟩
  have hnone : (writeValueForRawKey t (recordKey key) sortingValue).lookup (indexKey sortingValue key) = none := by
    unfold writeValueForRawKey
    split
    · rw [lookup_insert_of_ne _ (recordKey_ne_indexKey key sortingValue key).symm]
      exact h.lookup_indexKey_eq_none hu hlen
    · exact h.lookup_indexKey_eq_none hu hlen
  rw [writeValueForRawKey, if_pos hidx, indexWeight_insert f _ hnone,
    indexWeight_write_of_not f t (isIndexKey_recordKey key)]

theorem updateLastAccessDate (size : Nat) (hkey : key.length ≤ 506) : Represents (updateLastAccessDate t key size)
        (update u key (some (beBytes 4 (nextInvertedSortingValue t), size))) ∧
      indexWeight f (Storage.updateLastAccessDate t key size) + entryWeight f u key =
        f (indexValue size key) + indexWeight f t := by
  have hcounter := h.write_other isOtherKey_sortingValueKey (leBytes 4 (nextInvertedSortingValue t + 1))
  obtain ⟨hdel, hweight⟩ := hcounter.deleteLastAccess f key
  rw [indexWeight_write_of_not f t isOtherKey_sortingValueKey.not_isIndexKey] at hweight
  have hnone : update u key none key = none := update_self ..
  have hlen : (beBytes 4 (nextInvertedSortingValue t)).length = 4 := length_beBytes _ _
  have hput := hdel.put size hnone hlen hkey
  rw [Function.update_idem] at hput
  refine ⟨hput, ?_⟩
  have hnew := hdel.indexWeight_put f size hnone hlen hkey
  unfold Storage.updateLastAccessDate
  dsimp only
  omega

end Represents

/-! ## The total size -/

variable (remaining : Int)

theorem getCurrentSize_setCurrentSize {size : Nat} (h : size < 2 ^ 31) :
    getCurrentSize (setCurrentSize t size) = size := by
  have hkey : sizeKey ≠ [] ∧ sizeKey.length ≤ 511 := by decide
  unfold getCurrentSize setCurrentSize writeValueForRawKey
  rw [if_pos hkey, lookup_insert_self]
  dsimp only
  rw [if_pos (length_leBytes 4 size), ofLe_leBytes]
  omega

theorem getCurrentSize_congr {t t' : SortedTable Bytes Bytes} (h : t'.lookup sizeKey = t.lookup sizeKey) :
    getCurrentSize t' = getCurrentSize t := by
  unfold getCurrentSize
  rw [h]

theorem lookup_write_of_ne {t : SortedTable Bytes Bytes} {key : Bytes} (h : key' ≠ key) (value : Bytes) :
    (writeValueForRawKey t key value).lookup key' = t.lookup key' := by
  unfold writeValueForRawKey
  split
  · exact t.lookup_insert_of_ne h value
  · rfl

theorem getCurrentSize_updateLastAccessDate : getCurrentSize (updateLastAccessDate t key size) = getCurrentSize t := by
  have hrec := (isOtherKey_sizeKey.ne_recordKey key).symm
  have hidx : ∀ sortingValue, sizeKey ≠ indexKey sortingValue key := fun sortingValue =>
    (isOtherKey_sizeKey.ne_indexKey sortingValue key).symm
  have hdelete : ∀ t : SortedTable Bytes Bytes, (deleteLastAccess t key).lookup sizeKey = t.lookup sizeKey := by
    intro t
    unfold deleteLastAccess
    split
    · rw [lookup_erase_of_ne _ (hidx _), lookup_erase_of_ne _ hrec]
    · rfl
  refine getCurrentSize_congr ?_
  unfold updateLastAccessDate
  dsimp only
  rw [lookup_write_of_ne (hidx _), lookup_write_of_ne hrec, hdelete, lookup_write_of_ne (by decide)]

/-! ## The enumeration of the index -/

def indexEntries (t : SortedTable Bytes Bytes) : List (Bytes × Bytes) := t.entries.filter fun e => isIndexKey e.1

theorem halfOpen_iff {K : Type} [LinearOrder K] (lower upper key : K) :
    (aboveLower lower ⟨false, false, true⟩ key && belowUpper upper ⟨false, false, true⟩ key) = true ↔
      lower ≤ key ∧ key < upper := by
  rw [Bool.and_eq_true]
  exact and_congr decide_eq_true_iff decide_eq_true_iff

theorem aboveLower_and_belowUpper : (aboveLower [pathAndSizeByLastUsage] ⟨false, false, true⟩ key &&
      belowUpper [pathAndSizeByLastUsage + 1] ⟨false, false, true⟩ key) = isIndexKey key := by
  have hbounds : ([pathAndSizeByLastUsage] ≤ key ∧ key < [pathAndSizeByLastUsage + 1]) ↔
      key.head? = some pathAndSizeByLastUsage := by
    cases key with
    | nil => exact ⟨fun h => absurd h.1 (by decide), fun h => nomatch h⟩
    | cons keyspace rest =>
      have hnil : ∀ l : Bytes, ¬l < [] := List.not_lt_nil
      rw [← not_lt, List.cons_lt_cons_iff, List.cons_lt_cons_iff, List.head?_cons, Option.some_inj]
      simp only [hnil, and_false, or_false]
      have hnext : (pathAndSizeByLastUsage + 1).toNat = pathAndSizeByLastUsage.toNat + 1 := by decide
      rw [UInt8.lt_iff_toNat_lt, UInt8.lt_iff_toNat_lt, ← UInt8.toNat_inj, hnext]
      omega
  exact Bool.eq_iff_iff.mpr ((halfOpen_iff _ _ key).trans (hbounds.trans decide_eq_true_iff.symm))

theorem enumerateIndex_eq {σ : Type} (block : Bytes × Bytes → σ → Bool × σ) (s : σ) :
    enumerateIndex t block s = feed block (indexEntries t) s := by
  have hexact : ¬StaleFirst t [pathAndSizeByLastUsage] [pathAndSizeByLastUsage + 1] ⟨false, false, true⟩ :=
    fun h => Bool.false_ne_true h.1
  have hbetween : between t [pathAndSizeByLastUsage] [pathAndSizeByLastUsage + 1] ⟨false, false, true⟩ =
      indexEntries t := List.filter_congr fun e _ => aboveLower_and_belowUpper e.1
  rw [enumerateIndex, (enumerateKeysAndValues_spec t _ _ _ block s).1 hexact, hbetween]

variable (e : Bytes × Bytes) (f : Bytes → Nat)

theorem indexWeight_eq (t : SortedTable Bytes Bytes) : indexWeight f t = ((indexEntries t).map fun e => f e.2).sum := by
  unfold indexWeight weight indexEntries
  induction t.entries with
  | nil => rfl
  | cons e l ih =>
    rw [map_cons, sum_cons, ih, List.filter_cons]
    split
    · rw [map_cons, sum_cons]
    · rw [Nat.zero_add]

theorem enumerateIndex_sum :
    enumerateIndex t (fun e currentSize => (false, currentSize + sizeField e.2)) 0 = indexSum t := by
  have hfeed : ∀ (l : List (Bytes × Bytes)) (n : Nat),
      feed (fun e currentSize => (false, currentSize + sizeField e.2)) l n = n + (l.map fun e => sizeField e.2).sum := by
    intro l
    induction l with
    | nil => exact fun n => (Nat.add_zero n).symm
    | cons e l ih =>
      intro n
      rw [feed_cons, if_neg Bool.false_ne_true, ih, map_cons, sum_cons, Nat.add_assoc]
  rw [enumerateIndex_eq, hfeed, Nat.zero_add]
  exact (indexWeight_eq sizeField t).symm

/-! ## Eviction -/

/-- The entries up to the one with which `remaining` is used up. -/
def evicted (remaining : Int) : List (Bytes × Bytes) → List (Bytes × Bytes)
  | [] => []
  | e :: es =>
    let remaining := remaining - sizeField e.2
    if remaining ≤ 0 then [e] else e :: evicted remaining es

def sizes (l : List (Bytes × Bytes)) : Nat := (l.map fun e => sizeField e.2).sum

def evictedKeys (l : List (Bytes × Bytes)) : List Bytes := l.map fun e => e.2.drop 4

theorem evicted_cons (es : List (Bytes × Bytes)) : evicted remaining (e :: es) =
      if remaining - sizeField e.2 ≤ 0 then [e] else e :: evicted (remaining - sizeField e.2) es := rfl

theorem sizes_cons (l : List (Bytes × Bytes)) : sizes (e :: l) = sizeField e.2 + sizes l := by
  rw [sizes, map_cons, sum_cons, sizes]

theorem evicted_begins (l : List (Bytes × Bytes)) : evicted remaining l <+: l := by
  induction l generalizing remaining with
  | nil => exact List.prefix_rfl
  | cons e es ih =>
    rw [evicted_cons]
    split
    · exact List.prefix_append [e] es
    · exact List.cons_prefix_cons.mpr ⟨rfl, ih _⟩

theorem evicted_eq_or_le (l : List (Bytes × Bytes)) :
    evicted remaining l = l ∨ remaining ≤ sizes (evicted remaining l) := by
  induction l generalizing remaining with
  | nil => exact .inl rfl
  | cons e es ih =>
    rw [evicted_cons]
    split
    case isTrue hdone =>
      refine .inr ?_
      rw [sizes_cons]
      omega
    case isFalse hmore =>
      rw [sizes_cons]
      rcases ih (remaining - sizeField e.2) with heq | hle
      · exact .inl (congrArg (e :: ·) heq)
      · refine .inr ?_
        omega

variable {l : List (Bytes × Bytes)}

theorem evicted_ne_nil (h : l ≠ []) : evicted remaining l ≠ [] := by
  cases l with
  | nil => exact absurd rfl h
  | cons e es =>
    rw [evicted_cons]
    split
    · exact cons_ne_nil _ _
    · exact cons_ne_nil _ _

section
variable {Path : Type} (filePath : Bytes → Path)

theorem feed_evictBlock (l : List (Bytes × Bytes)) (eviction : ModernCache.Eviction Path) :
    feed (ModernCache.evictBlock filePath) l eviction =
      ⟨eviction.remainingSize - sizes (evicted eviction.remainingSize l),
        eviction.removedSize + sizes (evicted eviction.remainingSize l),
        eviction.keysToRemove ++ (evicted eviction.remainingSize l).flatMap fun e => [e.1, recordKey (e.2.drop 4)],
        eviction.filePathsToRemove ++ (evictedKeys (evicted eviction.remainingSize l)).map filePath⟩ := by
  induction l generalizing eviction with
  | nil => simp [feed, evicted, sizes, evictedKeys]
  | cons e es ih =>
    rw [feed_cons, ih]
    have hblock : ModernCache.evictBlock filePath e eviction =
        (decide (eviction.remainingSize - sizeField e.2 ≤ 0),
          ⟨eviction.remainingSize - sizeField e.2, eviction.removedSize + sizeField e.2,
            eviction.keysToRemove ++ [e.1, recordKey (e.2.drop 4)],
            eviction.filePathsToRemove ++ [filePath (e.2.drop 4)]⟩) := rfl
    rw [hblock, evicted_cons]
    dsimp only
    by_cases hdone : eviction.remainingSize - sizeField e.2 ≤ 0
    · rw [if_pos (decide_eq_true hdone), if_pos hdone]
      simp [sizes, evictedKeys]
    · rw [if_neg (by simpa using hdone), if_neg hdone, sizes_cons]
      simp [evictedKeys, Nat.add_assoc, Int.sub_sub]

end

def without (u : Usage) (keys : List Bytes) : Usage := fun key => if key ∈ keys then none else u key

theorem without_nil : without u [] = u := funext fun _ => if_neg List.not_mem_nil

theorem without_cons (key : Bytes) (keys : List Bytes) :
    without (update u key none) keys = without u (key :: keys) := by
  funext key'
  unfold without
  by_cases hkey : key' = key
  · rw [hkey, update_self, ite_self, if_pos List.mem_cons_self]
  · rw [update_of_ne hkey]
    simp only [List.mem_cons, hkey, false_or]

def evictFrom (t : SortedTable Bytes Bytes) (l : List (Bytes × Bytes)) : SortedTable Bytes Bytes :=
  (l.flatMap fun e => [e.1, recordKey (e.2.drop 4)]).foldl SortedTable.erase t

theorem Represents.evictFrom {t : SortedTable Bytes Bytes} {u : Usage} (h : Represents t u)
    (hl : ∀ e ∈ l, e ∈ t.entries ∧ isIndexKey e.1) (hnd : (l.map Prod.fst).Nodup) :
    Represents (evictFrom t l) (without u (evictedKeys l)) ∧
      indexWeight f t = (l.map fun e => f e.2).sum + indexWeight f (Storage.evictFrom t l) := by
  induction l generalizing t u with
  | nil =>
    rw [evictedKeys, List.map_nil, without_nil]
    exact ⟨h, (Nat.zero_add _).symm⟩
  | cons e l ih =>
    obtain ⟨hm, hidx⟩ := hl e List.mem_cons_self
    obtain ⟨key, sortingValue, size, hu, rfl⟩ := h.of_mem e hm hidx
    obtain ⟨hfresh, hnd⟩ := List.nodup_cons.mp hnd
    have hrest : ∀ e ∈ l, e ∈ ((t.erase (indexKey sortingValue key)).erase (recordKey key)).entries ∧ isIndexKey e.1 := by
      intro e he
      obtain ⟨hm, hidx⟩ := hl e (List.mem_cons_of_mem _ he)
      refine ⟨(mem_erase _).mpr ⟨(mem_erase _).mpr ⟨hm, fun heq => ?_⟩, fun heq => ?_⟩, hidx⟩
      · exact hfresh (List.mem_map.mpr ⟨e, he, heq⟩)
      · rw [heq] at hidx
        exact Bool.false_ne_true hidx
    obtain ⟨hrepresents, hweight⟩ := ih (h.erase hu) hrest hnd
    have htable : Storage.evictFrom t ((indexKey sortingValue key, indexValue size key) :: l) =
        Storage.evictFrom ((t.erase (indexKey sortingValue key)).erase (recordKey key)) l := by
      unfold Storage.evictFrom
      rw [List.flatMap_cons, List.foldl_append, drop_indexValue]
      rfl
    have hkeys : evictedKeys ((indexKey sortingValue key, indexValue size key) :: l) = key :: evictedKeys l := by
      rw [evictedKeys, map_cons, drop_indexValue, evictedKeys]
    rw [htable, hkeys, ← without_cons]
    refine ⟨hrepresents, ?_⟩
    rw [h.indexWeight_erase f hu, hweight, map_cons, sum_cons, Nat.add_assoc]

end TelegramClient.Storage
