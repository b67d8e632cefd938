import TelegramClient.Storage.CacheTable

/-!
# The books of the disk cache

* `FilesMatch` : the files are those of the keys in use;
* `CacheInv` : what holds between two operations;
* `CacheInv.room` : what is left when a value is stored;
* **`cache_booked_iff`** : the books are right after every operation of a run unless one overwrites, or has too long a key.
-/

namespace TelegramClient.Storage
open List
open Function (update update_of_ne update_self)
open ModernCache (removeItems)

/-! ## The files -/

section
variable {Path : Type} [DecidableEq Path] {filePath : Bytes → Path} {files : Path → Option Bytes} {u : Usage}

/-- The files are those of the keys in use, with their sizes. -/
structure FilesMatch (filePath : Bytes → Path) (files : Path → Option Bytes) (u : Usage) : Prop where
  file_of : ∀ {key sortingValue size}, u key = some (sortingValue, size) →
    ∃ data, files (filePath key) = some data ∧ data.length = size
  of_file : ∀ {path data}, files path = some data → ∃ key sortingValue, path = filePath key ∧
    u key = some (sortingValue, data.length)

theorem removeItems_apply (paths : List Path) (path : Path) :
    removeItems files paths path = if path ∈ paths then none else files path := by
  unfold removeItems
  induction paths generalizing files with
  | nil => rfl
  | cons path' paths ih =>
    rw [foldl_cons, ih]
    by_cases hpath : path = path'
    · rw [hpath, update_self, ite_self, if_pos mem_cons_self]
    · rw [update_of_ne hpath]
      simp only [mem_cons, hpath, false_or]

variable (hinj : Function.Injective filePath)
include hinj

theorem FilesMatch.evict (h : FilesMatch filePath files u) (keys : List Bytes) :
    FilesMatch filePath (removeItems files (keys.map filePath)) (without u keys) := by
  have hm : ∀ key, filePath key ∈ keys.map filePath ↔ key ∈ keys := fun key => mem_map_of_injective hinj
  refine ⟨fun {key _ _} hu => ?_, fun {path data} hfile => ?_⟩
  · unfold without at hu
    split at hu
    · cases hu
    case isFalse hkey =>
      rw [removeItems_apply, if_neg ((hm key).not.mpr hkey)]
      exact h.file_of hu
  · rw [removeItems_apply] at hfile
    split at hfile
    · cases hfile
    case isFalse hpath =>
      obtain ⟨key, sortingValue, rfl, hu⟩ := h.of_file hfile
      exact ⟨key, sortingValue, rfl, by rw [without, if_neg ((hm key).not.mp hpath), hu]⟩

theorem FilesMatch.write (h : FilesMatch filePath files u) (key sortingValue value : Bytes) :
    FilesMatch filePath (update files (filePath key) (some value))
      (update u key (some (sortingValue, value.length))) := by
  refine ⟨fun {key' _ _} hu => ?_, fun {path data} hfile => ?_⟩
  · by_cases hkey : key' = key
    · rw [hkey, update_self] at hu
      cases hu
      exact ⟨value, by rw [hkey, update_self], rfl⟩
    · rw [update_of_ne hkey] at hu
      rw [update_of_ne (hinj.ne hkey)]
      exact h.file_of hu
  · by_cases hpath : path = filePath key
    · rw [hpath, update_self] at hfile
      cases hfile
      exact ⟨key, sortingValue, hpath, update_self ..⟩
    · rw [update_of_ne hpath] at hfile
      obtain ⟨key', sortingValue', rfl, hu⟩ := h.of_file hfile
      have hkey : key' ≠ key := fun heq => hpath (congrArg filePath heq)
      exact ⟨key', sortingValue', rfl, by rw [update_of_ne hkey, hu]⟩

omit hinj [DecidableEq Path] in
theorem FilesMatch.touch (h : FilesMatch filePath files u) {key sortingValue : Bytes} {size : Nat}
    (hu : u key = some (sortingValue, size)) (sortingValue' : Bytes) :
    FilesMatch filePath files (update u key (some (sortingValue', size))) := by
  refine ⟨fun {key' _ _} hu' => ?_, fun {path data} hfile => ?_⟩
  · by_cases hkey : key' = key
    · rw [hkey, update_self] at hu'
      cases hu'
      exact hkey ▸ h.file_of hu
    · rw [update_of_ne hkey] at hu'
      exact h.file_of hu'
  · obtain ⟨key', sortingValue'', rfl, hu'⟩ := h.of_file hfile
    by_cases hkey : key' = key
    · rw [hkey, hu] at hu'
      cases hu'
      exact ⟨key, sortingValue', by rw [hkey], update_self ..⟩
    · exact ⟨key', sortingValue'', rfl, by rw [update_of_ne hkey, hu']⟩

end

/-! ## One operation -/

section
variable {Path : Type} {filePath : Bytes → Path} {s : ModernCache Path} {u : Usage}

def indexCount (t : SortedTable Bytes Bytes) : Nat := indexWeight (fun _ => 1) t

theorem indexCount_eq (t : SortedTable Bytes Bytes) : indexCount t = (indexEntries t).length := by
  rw [indexCount, indexWeight_eq, map_const']
  simp

/-- What holds between two operations. Where the limit is exceeded, one value is left. -/
structure CacheInv (filePath : Bytes → Path) (s : ModernCache Path) (u : Usage) : Prop where
  represents : Represents s.table u
  files : FilesMatch filePath s.files u
  total_eq : getCurrentSize s.table = indexSum s.table
  total_le : indexSum s.table ≤ max s.maxSize s.lastStored
  single : s.maxSize < indexSum s.table → indexCount s.table ≤ 1
  sum_le : indexSum s.table ≤ s.storedTotal
  size_le : ∀ {key sortingValue size}, u key = some (sortingValue, size) → size ≤ s.storedTotal
  length_le : ∀ {key entry}, u key = some entry → key.length ≤ 506
  bound : s.storedTotal < 2 ^ 31

/-- The entries that go to make room for a value. -/
def evictedFor (s : ModernCache Path) (length : Nat) : List (Bytes × Bytes) :=
  if s.maxSize < indexSum s.table + length then evicted length (indexEntries s.table) else []

/-- A value is stored under a key that stays in the index with a size. -/
def Overwrites (s : ModernCache Path) (value key : Bytes) : Prop :=
  ∃ e ∈ indexEntries s.table, e ∉ evictedFor s value.length ∧ e.2.drop 4 = key ∧ sizeField e.2 ≠ 0

theorem CacheInv.isBooked (h : CacheInv filePath s u) : IsBooked filePath s := by
  have hindexed : ∀ sortingValue key, Indexed s.table sortingValue key ↔ ∃ size, u key = some (sortingValue, size) := by
    intro sortingValue key
    constructor
    · rintro ⟨hlen, hsome⟩
      obtain ⟨value, hlook⟩ := Option.isSome_iff_exists.mp hsome
      obtain ⟨key', sortingValue', size, hu, heq⟩ :=
        h.represents.of_mem _ (s.table.lookup_eq_some.mp hlook) (isIndexKey_indexKey sortingValue key)
      obtain ⟨rfl, rfl⟩ :=
        (indexKey_inj (hlen.trans (h.represents.length_eq hu).symm)).mp (Prod.ext_iff.mp heq).1
      exact ⟨size, hu⟩
    · rintro ⟨size, hu⟩
      exact ⟨h.represents.length_eq hu, by rw [h.represents.index_eq hu]; rfl⟩
  refine ⟨fun sortingValue key => ?_, fun e hm hidx => ?_, fun sortingValue key value hlen hlook => ?_,
    fun path => ?_, h.total_eq, h.total_eq.trans_le h.total_le⟩
  · rw [hindexed, h.represents.record_eq, Option.map_eq_some_iff]
    constructor
    · rintro ⟨⟨sortingValue', size⟩, hu, rfl⟩
      exact ⟨size, hu⟩
    · rintro ⟨size, hu⟩
      exact ⟨_, hu, rfl⟩
  · obtain ⟨key, sortingValue, size, hu, rfl⟩ := h.represents.of_mem e hm hidx
    exact ⟨sortingValue, key, h.represents.length_eq hu, rfl⟩
  · obtain ⟨size, hu⟩ := (hindexed sortingValue key).mp ⟨hlen, by rw [hlook]; rfl⟩
    rw [h.represents.index_eq hu] at hlook
    cases hlook
    obtain ⟨data, hfile, rfl⟩ := h.files.file_of hu
    exact ⟨data, hfile, rfl⟩
  · rw [Option.isSome_iff_exists]
    constructor
    · rintro ⟨data, hfile⟩
      obtain ⟨key, sortingValue, rfl, hu⟩ := h.files.of_file hfile
      exact ⟨sortingValue, key, rfl, (hindexed _ _).mpr ⟨_, hu⟩⟩
    · rintro ⟨sortingValue, key, rfl, hin⟩
      obtain ⟨size, hu⟩ := (hindexed _ _).mp hin
      obtain ⟨data, hfile, -⟩ := h.files.file_of hu
      exact ⟨data, hfile⟩

variable {key : Bytes}

theorem CacheInv.noteUse (h : CacheInv filePath s u) {data : Bytes} (hfile : s.files (filePath key) = some data)
    (hinj : Function.Injective filePath) : ∃ u', CacheInv filePath (s.noteUse key data.length) u' := by
  obtain ⟨key', sortingValue, heq, hu⟩ := h.files.of_file hfile
  obtain rfl := hinj heq
  have hrec : (s.table.lookup (recordKey key)).isSome := by rw [h.represents.record_eq, hu]; rfl
  have hupd := fun f => h.represents.updateLastAccessDate f data.length (h.length_le hu)
  have hweight : ∀ f, indexWeight f (updateLastAccessDate s.table key data.length) = indexWeight f s.table := by
    intro f
    have heq := (hupd f).2
    have hentry : entryWeight f u key = f (indexValue data.length key) := by rw [entryWeight, hu]
    omega
  have htotal := getCurrentSize_updateLastAccessDate s.table key data.length
  have hsum : indexSum (updateLastAccessDate s.table key data.length) = indexSum s.table := hweight sizeField
  have hcnt : indexCount (updateLastAccessDate s.table key data.length) = indexCount s.table := hweight _
  rw [ModernCache.noteUse, if_pos hrec]
  refine ⟨_, (hupd fun _ => 0).1, h.files.touch hu _, htotal.trans (h.total_eq.trans hsum.symm), hsum.trans_le h.total_le,
    fun hlt => ?_, hsum.trans_le h.sum_le, fun {key' _ _} hu' => ?_, fun {key' _} hu' => ?_, h.bound⟩
  · exact hcnt.trans_le (h.single (hsum ▸ hlt))
  · by_cases hkey : key' = key
    · rw [hkey, update_self] at hu'
      cases hu'
      exact h.size_le hu
    · rw [update_of_ne hkey] at hu'
      exact h.size_le hu'
  · by_cases hkey : key' = key
    · exact hkey ▸ h.length_le hu
    · rw [update_of_ne hkey] at hu'
      exact h.length_le hu'

/-! ### Storing a value -/

/-- The state in which a value is stored: the total size has just been computed. -/
def checked (s : ModernCache Path) : ModernCache Path :=
  { s with table := setCurrentSize s.table (indexSum s.table), recalculatedCurrentSize := true }

theorem checkCurrentSize_eq (s : ModernCache Path) :
    (s.checkCurrentSize).recalculateCurrentSizeIfNeeded = checked s := by
  unfold ModernCache.checkCurrentSize ModernCache.recalculateCurrentSizeIfNeeded checked
  rw [if_neg Bool.false_ne_true, if_pos rfl, enumerateIndex_sum]

variable {t : SortedTable Bytes Bytes}

theorem indexEntries_write (hkey : isIndexKey key = false) (value : Bytes) :
    indexEntries (writeValueForRawKey t key value) = indexEntries t := by
  unfold writeValueForRawKey
  split
  case isFalse => rfl
  exact t.filter_insert hkey value

theorem mem_of_mem_evictedFor {length : Nat} {e : Bytes × Bytes} (h : e ∈ evictedFor s length) :
    e ∈ indexEntries s.table := by
  unfold evictedFor at h
  split at h
  · exact (evicted_begins _ _).subset h
  · cases h

theorem nodup_evictedFor (s : ModernCache Path) (length : Nat) : ((evictedFor s length).map Prod.fst).Nodup := by
  have hkeys : ((indexEntries s.table).map Prod.fst).Nodup := by
    refine List.Pairwise.map _ (fun a b hlt heq => ?_) (s.table.sorted.sublist filter_sublist)
    exact ne_of_lt hlt heq
  unfold evictedFor
  split
  · exact hkeys.sublist ((evicted_begins _ _).sublist.map _)
  · exact nodup_nil

theorem indexWeight_checked (f : Bytes → Nat) (s : ModernCache Path) :
    indexWeight f (checked s).table = indexWeight f s.table :=
  indexWeight_write_of_not f s.table isOtherKey_sizeKey.not_isIndexKey _

theorem indexEntries_checked (s : ModernCache Path) : indexEntries (checked s).table = indexEntries s.table :=
  indexEntries_write isOtherKey_sizeKey.not_isIndexKey _

theorem CacheInv.evictFrom (h : CacheInv filePath s u) (f : Bytes → Nat) (length : Nat) :
    Represents (evictFrom (checked s).table (evictedFor s length)) (without u (evictedKeys (evictedFor s length))) ∧
      indexWeight f s.table = ((evictedFor s length).map fun e => f e.2).sum +
        indexWeight f (Storage.evictFrom (checked s).table (evictedFor s length)) := by
  have hchecked : Represents (checked s).table u := h.represents.write_other isOtherKey_sizeKey _
  rw [← indexWeight_checked f s]
  refine hchecked.evictFrom f (fun e he => ?_) (nodup_evictedFor s length)
  have hm := mem_of_mem_evictedFor he
  rw [← indexEntries_checked] at hm
  exact mem_filter.mp hm

theorem CacheInv.makeRoom_eq [DecidableEq Path] (h : CacheInv filePath s u) (length : Nat) :
    ModernCache.makeRoom filePath (checked s) length =
      (indexSum (Storage.evictFrom (checked s).table (evictedFor s length)),
        { checked s with
          files := removeItems s.files ((evictedKeys (evictedFor s length)).map filePath)
          table := Storage.evictFrom (checked s).table (evictedFor s length) }) := by
  have hcur : getCurrentSize (checked s).table = indexSum s.table :=
    getCurrentSize_setCurrentSize _ (lt_of_le_of_lt h.sum_le h.bound)
  have hsum := (h.evictFrom sizeField length).2
  unfold ModernCache.makeRoom
  dsimp only
  rw [hcur]
  unfold evictedFor at hsum ⊢
  by_cases hfull : s.maxSize < indexSum s.table + length
  · have hfull' : (checked s).maxSize < indexSum s.table + length := hfull
    rw [if_pos hfull] at hsum
    rw [if_pos hfull, if_pos hfull', ModernCache.evictValuesOfTotalSize, enumerateIndex_eq, indexEntries_checked,
      feed_evictBlock]
    dsimp only
    rw [nil_append, nil_append, Nat.zero_add]
    refine Prod.ext ?_ rfl
    have hsplit : indexSum s.table = sizes (evicted length (indexEntries s.table)) +
        indexSum (Storage.evictFrom (checked s).table (evicted length (indexEntries s.table))) := hsum
    dsimp only
    rw [hsplit]
    split <;> omega
  · have hfull' : ¬(checked s).maxSize < indexSum s.table + length := hfull
    rw [if_neg hfull, if_neg hfull']
    have hnone : Storage.evictFrom (checked s).table [] = (checked s).table := rfl
    have hsame : indexSum (checked s).table = indexSum s.table := indexWeight_checked sizeField s
    rw [hnone, hsame]
    rfl

theorem CacheInv.room (h : CacheInv filePath s u) (length : Nat) :
    let left := Storage.evictFrom (checked s).table (evictedFor s length)
    indexSum left + length ≤ max s.maxSize length ∧ (s.maxSize < indexSum left + length → indexCount left = 0) := by
  dsimp only
  have hsum : indexSum s.table = sizes (evictedFor s length) +
      indexSum (Storage.evictFrom (checked s).table (evictedFor s length)) := (h.evictFrom sizeField length).2
  have hcnt : indexCount s.table = (evictedFor s length).length +
      indexCount (Storage.evictFrom (checked s).table (evictedFor s length)) := by
    have hones := (h.evictFrom (fun _ => 1) length).2
    rw [map_const'] at hones
    simpa [indexCount] using hones
  have hsum' : indexSum s.table = sizes (indexEntries s.table) := indexWeight_eq sizeField s.table
  have hcount' := indexCount_eq s.table
  have hall : evictedFor s length = indexEntries s.table →
      indexSum (Storage.evictFrom (checked s).table (evictedFor s length)) = 0 ∧
        indexCount (Storage.evictFrom (checked s).table (evictedFor s length)) = 0 := by
    intro heq
    rw [heq] at hsum hcnt ⊢
    omega
  by_cases hfull : s.maxSize < indexSum s.table + length
  · have hevicted : evictedFor s length = evicted length (indexEntries s.table) := if_pos hfull
    rcases evicted_eq_or_le length (indexEntries s.table) with heq | hle
    · obtain ⟨hzero, hnone⟩ := hall (hevicted.trans heq)
      rw [hzero, hnone]
      omega
    · rw [← hevicted] at hle
      rcases le_or_gt (indexSum s.table) s.maxSize with hfits | hexceeds
      · omega
      · -- The limit is exceeded by a single value, and that one goes.
        have hsingle := h.single hexceeds
        have hne : indexEntries s.table ≠ [] := by
          intro hnil
          rw [hnil] at hsum'
          exact absurd hexceeds (by rw [hsum']; exact Nat.not_lt_zero _)
        have hpos := length_pos_iff.mpr (evicted_ne_nil length hne)
        have heq := (evicted_begins length (indexEntries s.table)).eq_of_length_le (by omega)
        obtain ⟨hzero, hnone⟩ := hall (hevicted.trans heq)
        rw [hzero, hnone]
        omega
  · have hnone : evictedFor s length = [] := if_neg hfull
    rw [hnone] at hsum ⊢
    have hzero : sizes [] = 0 := rfl
    omega

/-- The usage of the keys that are left when a value is stored. -/
def leftUsage (s : ModernCache Path) (u : Usage) (length : Nat) : Usage := without u (evictedKeys (evictedFor s length))

/-- The table without the entries that make room. -/
def leftTable (s : ModernCache Path) (length : Nat) : SortedTable Bytes Bytes :=
  Storage.evictFrom (checked s).table (evictedFor s length)

section
variable (h : CacheInv filePath s u)
include h

theorem CacheInv.setValue_eq [DecidableEq Path] (value key : Bytes) : s.setValue filePath value key =
      { s with
        table := updateLastAccessDate (setCurrentSize (leftTable s value.length)
          (indexSum (leftTable s value.length) + value.length)) key value.length
        files := update (removeItems s.files
          ((evictedKeys (evictedFor s value.length)).map filePath)) (filePath key) (some value)
        recalculatedCurrentSize := true
        lastStored := value.length
        storedTotal := s.storedTotal + value.length } := by
  rw [ModernCache.setValue, checkCurrentSize_eq]
  dsimp only
  rw [h.makeRoom_eq]
  rfl

theorem CacheInv.left_le (length : Nat) : indexSum (leftTable s length) ≤ s.storedTotal := by
  have hsum : indexSum s.table = sizes (evictedFor s length) + indexSum (leftTable s length) :=
    (h.evictFrom sizeField length).2
  have hle := h.sum_le
  omega

variable {value : Bytes}

theorem CacheInv.setValue_total [DecidableEq Path] (key : Bytes) (hbound : s.storedTotal + value.length < 2 ^ 31) :
    getCurrentSize (s.setValue filePath value key).table = indexSum (leftTable s value.length) + value.length := by
  have hle := h.left_le value.length
  rw [h.setValue_eq, getCurrentSize_updateLastAccessDate]
  exact getCurrentSize_setCurrentSize _ (by omega)

theorem CacheInv.represents_left (length size : Nat) :
    Represents (setCurrentSize (leftTable s length) size) (leftUsage s u length) :=
  (h.evictFrom (fun _ => 0) length).1.write_other isOtherKey_sizeKey _

variable {key : Bytes}

theorem CacheInv.setValue_weight [DecidableEq Path] (f : Bytes → Nat) (value : Bytes) (hkey : key.length ≤ 506) :
    indexWeight f (s.setValue filePath value key).table + entryWeight f (leftUsage s u value.length) key =
      f (indexValue value.length key) + indexWeight f (leftTable s value.length) := by
  have hupd := ((h.represents_left value.length (indexSum (leftTable s value.length) +
    value.length)).updateLastAccessDate f value.length hkey).2
  rw [setCurrentSize, indexWeight_write_of_not f _ isOtherKey_sizeKey.not_isIndexKey] at hupd
  rw [h.setValue_eq]
  exact hupd

theorem CacheInv.mem_indexEntries {e : Bytes × Bytes} (hm : e ∈ indexEntries s.table) :
    ∃ sortingValue size, u (e.2.drop 4) = some (sortingValue, size) ∧
      e = (indexKey sortingValue (e.2.drop 4), indexValue size (e.2.drop 4)) := by
  obtain ⟨hentry, hidx⟩ := mem_filter.mp hm
  obtain ⟨key, sortingValue, size, hu, rfl⟩ := h.represents.of_mem e hentry hidx
  rw [drop_indexValue]
  exact ⟨sortingValue, size, hu, rfl⟩

theorem CacheInv.entryWeight_left :
    entryWeight sizeField (leftUsage s u value.length) key ≠ 0 ↔ Overwrites s value key := by
  constructor
  · intro hne
    unfold entryWeight leftUsage without at hne
    by_cases hgoes : key ∈ evictedKeys (evictedFor s value.length)
    · rw [if_pos hgoes] at hne
      exact absurd rfl hne
    · rw [if_neg hgoes] at hne
      cases hu : u key with
      | none =>
        rw [hu] at hne
        exact absurd rfl hne
      | some entry =>
        obtain ⟨sortingValue, size⟩ := entry
        rw [hu] at hne
        have hdrop := drop_indexValue size key
        refine ⟨(indexKey sortingValue key, indexValue size key), mem_filter.mpr
          ⟨s.table.lookup_eq_some.mp (h.represents.index_eq hu), isIndexKey_indexKey sortingValue key⟩,
          fun hm => hgoes (mem_map.mpr ⟨_, hm, hdrop⟩), hdrop, hne⟩
  · rintro ⟨e, hm, hstays, rfl, hne⟩
    obtain ⟨sortingValue, size, hu, heq⟩ := h.mem_indexEntries hm
    have hgoes : e.2.drop 4 ∉ evictedKeys (evictedFor s value.length) := by
      intro hin
      obtain ⟨e', hmem', hdrop⟩ := mem_map.mp hin
      obtain ⟨sortingValue', size', hu', heq'⟩ := h.mem_indexEntries (mem_of_mem_evictedFor hmem')
      rw [hdrop, hu] at hu'
      cases hu'
      rw [hdrop, ← heq] at heq'
      exact hstays (heq' ▸ hmem')
    have hleft : leftUsage s u value.length (e.2.drop 4) = some (sortingValue, size) := by
      rw [leftUsage, without, if_neg hgoes, hu]
    have hval : e.2 = indexValue size (e.2.drop 4) := (Prod.ext_iff.mp heq).2
    rw [entryWeight, hleft]
    dsimp only
    rwa [← hval]

theorem CacheInv.setValue [DecidableEq Path] (hinj : Function.Injective filePath)
    (hbound : s.storedTotal + value.length < 2 ^ 31) (hkey : key.length ≤ 506) (hnew : ¬Overwrites s value key) :
    ∃ u', CacheInv filePath (s.setValue filePath value key) u' := by
  have hold : entryWeight sizeField (leftUsage s u value.length) key = 0 := not_ne_iff.mp (h.entryWeight_left.not.mpr hnew)
  have htotal := h.setValue_total key hbound
  have hsize : sizeField (indexValue value.length key) = value.length := sizeField_indexValue (by omega) key
  have hsum : indexSum (s.setValue filePath value key).table = value.length + indexSum (leftTable s value.length) := by
    have hweight := h.setValue_weight sizeField value hkey
    rw [hold, hsize] at hweight
    exact hweight
  have hcnt : indexCount (s.setValue filePath value key).table ≤ 1 + indexCount (leftTable s value.length) := by
    have hweight := h.setValue_weight (fun _ => 1) value hkey
    unfold indexCount
    omega
  have hroom : indexSum (leftTable s value.length) + value.length ≤ max s.maxSize value.length ∧
    (s.maxSize < indexSum (leftTable s value.length) + value.length → indexCount (leftTable s value.length) = 0) :=
    h.room value.length
  have hleft := h.left_le value.length
  have hrepresents := ((h.represents_left value.length (indexSum (leftTable s value.length) +
    value.length)).updateLastAccessDate sizeField value.length hkey).1
  have hfiles := (h.files.evict hinj (evictedKeys (evictedFor s value.length))).write hinj key
  have hof : ∀ {key' entry}, leftUsage s u value.length key' = some entry → u key' = some entry := by
    intro key' entry hu
    unfold leftUsage without at hu
    split at hu
    · cases hu
    · exact hu
  rw [h.setValue_eq] at htotal hsum hcnt ⊢
  refine ⟨_, hrepresents, hfiles _ value, ?_, ?_, fun hlt => ?_, ?_, fun {key' _ _} hu => ?_, fun {key' _} hu => ?_, hbound⟩
  · rw [htotal, hsum, Nat.add_comm]
  · rw [hsum, Nat.add_comm]
    exact hroom.1
  · have hnone := hroom.2 (by rw [Nat.add_comm, ← hsum]; exact hlt)
    rwa [hnone] at hcnt
  · rw [hsum]
    change _ ≤ s.storedTotal + value.length
    omega
  · change _ ≤ s.storedTotal + value.length
    by_cases heq : key' = key
    · rw [heq, update_self] at hu
      cases hu
      exact Nat.le_add_left ..
    · rw [update_of_ne heq] at hu
      exact (h.size_le (hof hu)).trans (Nat.le_add_right ..)
  · by_cases heq : key' = key
    · exact heq ▸ hkey
    · rw [update_of_ne heq] at hu
      exact h.length_le (hof hu)

end

/-! ### Values whose storing breaks the books -/

theorem lookup_erase_of_eq_none (h : t.lookup key = none) (key' : Bytes) : (t.erase key').lookup key = none := by
  rw [SortedTable.lookup_eq_none] at h ⊢
  exact fun e hm => h e ((SortedTable.mem_erase _).mp hm).1

theorem lookup_updateLastAccessDate {sortingValue : Bytes} (hkey : ¬key.length ≤ 506)
    (h : t.lookup (indexKey sortingValue key) = none) (size : Nat) :
    (updateLastAccessDate t key size).lookup (indexKey sortingValue key) = none := by
  have hlong : ∀ (t : SortedTable Bytes Bytes) (next : Nat) (value : Bytes),
      writeValueForRawKey t (indexKey (beBytes 4 next) key) value = t := by
    intro t next value
    refine if_neg fun hle => ?_
    rw [indexKey, length_cons, length_append, length_beBytes] at hle
    omega
  have hdelete : ∀ t : SortedTable Bytes Bytes, t.lookup (indexKey sortingValue key) = none →
      (deleteLastAccess t key).lookup (indexKey sortingValue key) = none := by
    intro t hnone
    unfold deleteLastAccess
    split
    · exact lookup_erase_of_eq_none (lookup_erase_of_eq_none hnone _) _
    · exact hnone
  unfold updateLastAccessDate
  dsimp only
  rw [hlong, lookup_write_of_ne (recordKey_ne_indexKey key sortingValue key).symm]
  refine hdelete _ ?_
  rw [lookup_write_of_ne (isOtherKey_sortingValueKey.ne_indexKey sortingValue key)]
  exact h

theorem CacheInv.setValue_iff [DecidableEq Path] (h : CacheInv filePath s u) (hinj : Function.Injective filePath)
    {value : Bytes} (hbound : s.storedTotal + value.length < 2 ^ 31) :
    IsBooked filePath (s.setValue filePath value key) ↔ key.length ≤ 506 ∧ ¬Overwrites s value key := by
  refine ⟨fun hbooked => ?_, fun ⟨hkey, hnew⟩ => (h.setValue hinj hbound hkey hnew).elim fun _ h' => h'.isBooked⟩
  by_cases hkey : key.length ≤ 506
  · refine ⟨hkey, fun hover => h.entryWeight_left.mpr hover ?_⟩
    have htotal := hbooked.total_eq
    rw [h.setValue_total key hbound] at htotal
    have hweight : indexSum (s.setValue filePath value key).table +
        entryWeight sizeField (leftUsage s u value.length) key =
          sizeField (indexValue value.length key) + indexSum (leftTable s value.length) :=
      h.setValue_weight sizeField value hkey
    rw [sizeField_indexValue (by omega)] at hweight
    omega
  · -- The file of the key is there, but not its entry.
    have hfile : ((s.setValue filePath value key).files (filePath key)).isSome := by
      rw [h.setValue_eq]
      dsimp only
      rw [update_self, Option.isSome_some]
    obtain ⟨sortingValue, key', hpath, hlen, hsome⟩ := (hbooked.file_iff _).mp hfile
    obtain rfl := hinj hpath
    have hunused : leftUsage s u value.length key = none := by
      unfold leftUsage without
      cases hu : u key with
      | none => exact ite_self _
      | some entry => exact absurd (h.length_le hu) hkey
    have hnone := lookup_updateLastAccessDate hkey ((h.represents_left value.length (indexSum
      (leftTable s value.length) + value.length)).lookup_indexKey_eq_none hunused hlen) value.length
    rw [h.setValue_eq] at hsome
    dsimp only at hsome
    rw [hnone] at hsome
    cases hsome

end

/-! ## Runs -/

section
variable {Path : Type} {filePath : Bytes → Path}

theorem cacheInv_init (filePath : Bytes → Path) (maxSize : Nat) :
    CacheInv filePath (ModernCache.init maxSize) fun _ => none where
  represents := ⟨fun _ => rfl, (nomatch ·), fun _ hm => (nomatch hm), (nomatch ·)⟩
  files := ⟨(nomatch ·), (nomatch ·)⟩
  total_eq := rfl
  total_le := Nat.zero_le _
  single h := absurd h (Nat.not_lt_zero _)
  sum_le := Nat.zero_le _
  size_le h := nomatch h
  length_le h := nomatch h
  bound := Nat.two_pow_pos 31

def storedSize : CacheEvent → Nat
  | .setValue value _ => value.length
  | .getValue _ => 0
  | .getValuePath _ => 0

/-- A stored key is short enough for the table, and new unless what the index holds of it is empty or goes. -/
def KeepsBooks (s : ModernCache Path) : CacheEvent → Prop
  | .setValue value key => key.length ≤ 506 ∧ ¬Overwrites s value key
  | .getValue _ => True
  | .getValuePath _ => True

instance (s : ModernCache Path) (value key : Bytes) : Decidable (Overwrites s value key) :=
  inferInstanceAs (Decidable (∃ e ∈ indexEntries s.table, _ ∧ _ ∧ _))

instance (s : ModernCache Path) : (event : CacheEvent) → Decidable (KeepsBooks s event)
  | .setValue _ _ => inferInstanceAs (Decidable (_ ∧ ¬_))
  | .getValue _ | .getValuePath _ => inferInstanceAs (Decidable True)

theorem CacheInv.getValue {s : ModernCache Path} {u : Usage} (h : CacheInv filePath s u)
    (hinj : Function.Injective filePath) (key : Bytes) : ∃ u', CacheInv filePath (s.getValue filePath key).2 u' := by
  unfold ModernCache.getValue
  cases hfile : s.files (filePath key) with
  | none => exact ⟨u, h⟩
  | some data => exact h.noteUse hfile hinj

theorem getValuePath_state (filePath : Bytes → Path) (s : ModernCache Path) (key : Bytes) :
    (s.getValuePath filePath key).2 = (s.getValue filePath key).2 := by
  unfold ModernCache.getValuePath ModernCache.getValue
  split <;> rfl

variable (s : ModernCache Path)

theorem noteUse_storedTotal (key : Bytes) (size : Nat) : (s.noteUse key size).storedTotal = s.storedTotal := by
  unfold ModernCache.noteUse
  split <;> rfl

theorem getValue_storedTotal (key : Bytes) : (s.getValue filePath key).2.storedTotal = s.storedTotal := by
  unfold ModernCache.getValue
  split
  · exact noteUse_storedTotal s key _
  · rfl

variable [DecidableEq Path]

theorem makeRoom_storedTotal (length : Nat) :
    (ModernCache.makeRoom filePath s length).2.storedTotal = s.storedTotal := by
  unfold ModernCache.makeRoom
  dsimp only
  split <;> rfl

theorem stepCache_storedTotal (event : CacheEvent) :
    (stepCache filePath s event).storedTotal = s.storedTotal + storedSize event := by
  cases event with
  | setValue value key =>
    change (ModernCache.makeRoom filePath _ value.length).2.storedTotal + value.length = _
    rw [makeRoom_storedTotal, checkCurrentSize_eq]
    rfl
  | getValue key => exact getValue_storedTotal s key
  | getValuePath key => exact (congrArg _ (getValuePath_state filePath s key)).trans (getValue_storedTotal s key)

theorem allSteps_storedTotal {events : List CacheEvent} {s : ModernCache Path}
    (h : s.storedTotal + (events.map storedSize).sum < 2 ^ 31) :
    AllSteps (stepCache filePath) (fun s event => s.storedTotal + storedSize event < 2 ^ 31) s events := by
  induction events generalizing s with
  | nil => trivial
  | cons event events ih =>
    rw [map_cons, sum_cons] at h
    refine ⟨by omega, ih ?_⟩
    rw [stepCache_storedTotal]
    omega

/-- The books of the cache are right after every operation exactly when every operation keeps them. -/
theorem cache_booked_iff {filePath : Bytes → Path} (hinj : Function.Injective filePath) (maxSize : Nat)
    {events : List CacheEvent} (htotal : (events.map storedSize).sum < 2 ^ 31) :
    AllSteps (stepCache filePath) (fun s event => IsBooked filePath (stepCache filePath s event))
        (ModernCache.init maxSize) events ↔
      AllSteps (stepCache filePath) KeepsBooks (ModernCache.init maxSize) events := by
  have hpath : ∀ {s : ModernCache Path} {u : Usage} (key : Bytes), CacheInv filePath s u →
      ∃ u', CacheInv filePath (s.getValuePath filePath key).2 u' := fun key h =>
    getValuePath_state filePath _ key ▸ h.getValue hinj key
  have hsmall : AllSteps (stepCache filePath) (fun s event => s.storedTotal + storedSize event < 2 ^ 31)
      (ModernCache.init maxSize) events :=
    allSteps_storedTotal (by rw [ModernCache.init, Nat.zero_add]; exact htotal)
  have hstep : ∀ (s : ModernCache Path) event, s.storedTotal + storedSize event < 2 ^ 31 →
      (∃ u, CacheInv filePath s u) → KeepsBooks s event → ∃ u, CacheInv filePath (stepCache filePath s event) u := by
    rintro s event hsize ⟨u, h⟩ hkeeps
    cases event with
    | setValue value key => exact h.setValue hinj hsize hkeeps.1 hkeeps.2
    | getValue key => exact h.getValue hinj key
    | getValuePath key => exact hpath key h
  have hiff : ∀ (s : ModernCache Path) event, s.storedTotal + storedSize event < 2 ^ 31 →
      (∃ u, CacheInv filePath s u) → (IsBooked filePath (stepCache filePath s event) ↔ KeepsBooks s event) := by
    rintro s event hsize ⟨u, h⟩
    cases event with
    | setValue value key => exact h.setValue_iff hinj hsize
    | getValue key => exact iff_of_true ((h.getValue hinj key).elim fun _ h' => h'.isBooked) trivial
    | getValuePath key => exact iff_of_true ((hpath key h).elim fun _ h' => h'.isBooked) trivial
  exact allSteps_iff hstep hiff ⟨_, cacheInv_init filePath maxSize⟩ hsmall

/-- The first value goes to make room for the third. -/
theorem cache_booked_three : AllSteps (stepCache (id : Bytes → Bytes))
    (fun s event => IsBooked id (stepCache id s event)) (ModernCache.init 4)
    [.setValue [1, 2, 3] [1], .setValue [4] [2], .getValue [2], .setValue [5, 5] [3], .getValuePath [1]] :=
  (cache_booked_iff Function.injective_id 4 (by decide)).mpr (by decide +kernel)

/-- The same value is stored twice: its size is counted twice. -/
theorem cache_unbooked_twice : ¬AllSteps (stepCache (id : Bytes → Bytes))
    (fun s event => IsBooked id (stepCache id s event)) (ModernCache.init 100)
    [.setValue [1, 2, 3] [1], .setValue [1, 2, 3] [1]] :=
  fun h => absurd h.2.1.total_eq (by decide +kernel)

end

end TelegramClient.Storage
