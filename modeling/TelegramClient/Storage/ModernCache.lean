import TelegramClient.Lib.Runs
import TelegramClient.Storage.KeyValueReader

/-!
# The disk cache

`TGModernCache` keeps its values in files, and the order of their last use in a table.

* `recordKey`, `indexKey`, `sizeKey`, `sortingValueKey` : the four key spaces of the table;
* `IsBooked` : the table and the files agree.

The file of a key is at `filePath key`. Sizes are far below 2^31.
-/

namespace TelegramClient.Storage

/-! ## The table -/

/-- `mdb_put` takes keys of 1 to 511 bytes. What it returns is only logged. -/
def writeValueForRawKey (t : SortedTable Bytes Bytes) (key value : Bytes) : SortedTable Bytes Bytes :=
  if key ≠ [] ∧ key.length ≤ 511 then t.insert key value else t

/-- `TGModernCacheKeyspace`. -/
def globalProperties : UInt8 := 1
def lastUsageByPath : UInt8 := 2
def pathAndSizeByLastUsage : UInt8 := 3
def lastUsageSortingValue : UInt8 := 4

def sizeKey : Bytes := globalProperties :: leBytes 4 1
def sortingValueKey : Bytes := [lastUsageSortingValue]

def recordKey (key : Bytes) : Bytes := lastUsageByPath :: key

def indexKey (sortingValue key : Bytes) : Bytes := pathAndSizeByLastUsage :: (sortingValue ++ key)

def indexValue (size : Nat) (key : Bytes) : Bytes := leBytes 4 size ++ key

def sizeField (value : Bytes) : Nat := ofLe (value.take 4)

/-- The entries of the index, in the order of their sorting values, up to a call of the block that stops. -/
def enumerateIndex {σ : Type} (t : SortedTable Bytes Bytes) (block : Bytes × Bytes → σ → Bool × σ) (s : σ) : σ :=
  enumerateKeysAndValues t [pathAndSizeByLastUsage] [pathAndSizeByLastUsage + 1] ⟨false, false, true⟩ block s

/-- `_getCurrentSize:`. -/
def getCurrentSize (t : SortedTable Bytes Bytes) : Nat :=
  match t.lookup sizeKey with
  | some value => if value.length = 4 then ofLe value else 0
  | none => 0

/-- `setCurrentSize:size:`. -/
def setCurrentSize (t : SortedTable Bytes Bytes) (size : Nat) : SortedTable Bytes Bytes :=
  writeValueForRawKey t sizeKey (leBytes 4 size)

/-- `nextInvertedSortingValue`. -/
def nextInvertedSortingValue (t : SortedTable Bytes Bytes) : Nat :=
  match t.lookup sortingValueKey with
  | some value => if value.length = 4 then ofLe value else 1
  | none => 1

/-- The record of a key and its entry in the index are deleted. -/
def deleteLastAccess (t : SortedTable Bytes Bytes) (key : Bytes) : SortedTable Bytes Bytes :=
  match t.lookup (recordKey key) with
  | some value => (t.erase (recordKey key)).erase (indexKey (value.take 4) key)
  | none => t

/-- `_updateLastAccessDateForKey:size:`. -/
def updateLastAccessDate (t : SortedTable Bytes Bytes) (key : Bytes) (size : Nat) : SortedTable Bytes Bytes :=
  let next := nextInvertedSortingValue t
  let t := writeValueForRawKey t sortingValueKey (leBytes 4 (next + 1))
  let t := deleteLastAccess t key
  let t := writeValueForRawKey t (recordKey key) (beBytes 4 next)
  writeValueForRawKey t (indexKey (beBytes 4 next) key) (indexValue size key)

/-! ## The cache -/

variable {Path : Type} [DecidableEq Path]

structure ModernCache (Path : Type) where
  maxSize : Nat
  table : SortedTable Bytes Bytes
  files : Path → Option Bytes
  recalculatedCurrentSize : Bool
  /-- The size of the last value stored, and the sum of the sizes of all. -/
  lastStored : Nat
  storedTotal : Nat

namespace ModernCache

def init (maxSize : Nat) : ModernCache Path := ⟨maxSize, ⟨[], .nil⟩, fun _ => none, false, 0, 0⟩

/-- `_recalculateCurrentSizeIfNeeded:`. -/
def recalculateCurrentSizeIfNeeded (s : ModernCache Path) : ModernCache Path :=
  if s.recalculatedCurrentSize then s
  else
    { s with
      table := setCurrentSize s.table (enumerateIndex s.table (fun e currentSize => (false, currentSize + sizeField e.2)) 0)
      recalculatedCurrentSize := true }

/-- `_checkCurrentSize:`. -/
def checkCurrentSize (s : ModernCache Path) : ModernCache Path :=
  recalculateCurrentSizeIfNeeded { s with recalculatedCurrentSize := false }

structure Eviction (Path : Type) where
  remainingSize : Int
  removedSize : Nat
  keysToRemove : List Bytes
  filePathsToRemove : List Path

def evictBlock (filePath : Bytes → Path) (e : Bytes × Bytes) (eviction : Eviction Path) : Bool × Eviction Path :=
  let size := sizeField e.2
  let originalKey := e.2.drop 4
  let remainingSize := eviction.remainingSize - size
  (decide (remainingSize ≤ 0),
    ⟨remainingSize, eviction.removedSize + size, eviction.keysToRemove ++ [e.1, recordKey originalKey],
      eviction.filePathsToRemove ++ [filePath originalKey]⟩)

/-- `removeItemAtPath:` for all of the paths. -/
def removeItems (files : Path → Option Bytes) (paths : List Path) : Path → Option Bytes :=
  paths.foldl (fun files path => Function.update files path none) files

/-- `_evictValuesOfTotalSize:removedSize:`. -/
def evictValuesOfTotalSize (filePath : Bytes → Path) (s : ModernCache Path) (totalSize : Nat) :
    Nat × ModernCache Path :=
  let eviction := enumerateIndex s.table (evictBlock filePath) ⟨totalSize, 0, [], []⟩
  (eviction.removedSize,
    { s with
      files := removeItems s.files eviction.filePathsToRemove
      table := eviction.keysToRemove.foldl SortedTable.erase s.table })

/-- Room for a value: the total size of the others, when some have gone. -/
def makeRoom (filePath : Bytes → Path) (s : ModernCache Path) (length : Nat) : Nat × ModernCache Path :=
  let currentSize := getCurrentSize s.table
  if s.maxSize < currentSize + length then
    let (removedSize, s) := evictValuesOfTotalSize filePath s length
    (if removedSize < currentSize then currentSize - removedSize else 0, s)
  else (currentSize, s)

/-- `setValue:forKey:`. -/
def setValue (filePath : Bytes → Path) (s : ModernCache Path) (value key : Bytes) : ModernCache Path :=
  let s := (s.checkCurrentSize).recalculateCurrentSizeIfNeeded
  let (currentSize, s) := makeRoom filePath s value.length
  { s with
    files := Function.update s.files (filePath key) (some value)
    table := updateLastAccessDate (setCurrentSize s.table (currentSize + value.length)) key value.length
    lastStored := value.length
    storedTotal := s.storedTotal + value.length }

def noteUse (s : ModernCache Path) (key : Bytes) (size : Nat) : ModernCache Path :=
  if (s.table.lookup (recordKey key)).isSome then { s with table := updateLastAccessDate s.table key size } else s

/-- `getValueForKey:`. -/
def getValue (filePath : Bytes → Path) (s : ModernCache Path) (key : Bytes) : Option Bytes × ModernCache Path :=
  match s.files (filePath key) with
  | some data => (some data, s.noteUse key data.length)
  | none => (none, s)

/-- `getValuePathForKey:`, with the size from the attributes of the file. -/
def getValuePath (filePath : Bytes → Path) (s : ModernCache Path) (key : Bytes) : Option Path × ModernCache Path :=
  match s.files (filePath key) with
  | some data => (some (filePath key), s.noteUse key data.length)
  | none => (none, s)

end ModernCache

inductive CacheEvent where
  | setValue (value key : Bytes)
  | getValue (key : Bytes)
  | getValuePath (key : Bytes)
deriving DecidableEq

def stepCache (filePath : Bytes → Path) (s : ModernCache Path) : CacheEvent → ModernCache Path
  | .setValue value key => s.setValue filePath value key
  | .getValue key => (s.getValue filePath key).2
  | .getValuePath key => (s.getValuePath filePath key).2

/-! ## What should hold between two operations -/

def isIndexKey (key : Bytes) : Bool := key.head? = some pathAndSizeByLastUsage

def indexSum (t : SortedTable Bytes Bytes) : Nat := t.weight fun e => if isIndexKey e.1 then sizeField e.2 else 0

/-- The key has an entry in the index, under this sorting value. -/
def Indexed (t : SortedTable Bytes Bytes) (sortingValue key : Bytes) : Prop :=
  sortingValue.length = 4 ∧ (t.lookup (indexKey sortingValue key)).isSome

structure IsBooked (filePath : Bytes → Path) (s : ModernCache Path) : Prop where
  /-- The records and the index are inverse to each other. -/
  record_iff : ∀ sortingValue key, s.table.lookup (recordKey key) = some sortingValue ↔ Indexed s.table sortingValue key
  /-- Nothing else is in the index. -/
  indexed_of_mem : ∀ e ∈ s.table.entries, isIndexKey e.1 → ∃ sortingValue key, sortingValue.length = 4 ∧
    e.1 = indexKey sortingValue key
  size_eq : ∀ sortingValue key value, sortingValue.length = 4 → s.table.lookup (indexKey sortingValue key) = some value →
    ∃ data, s.files (filePath key) = some data ∧ value = indexValue data.length key
  /-- The files are those of the keys in the index. -/
  file_iff : ∀ path, (s.files path).isSome ↔ ∃ sortingValue key, path = filePath key ∧ Indexed s.table sortingValue key
  total_eq : getCurrentSize s.table = indexSum s.table
  total_le : getCurrentSize s.table ≤ max s.maxSize s.lastStored

end TelegramClient.Storage
