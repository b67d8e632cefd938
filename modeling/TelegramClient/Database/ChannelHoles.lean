import TelegramClient.Lib.Bytes
import Mathlib.Data.List.Sort

/-!
# The history holes of a channel

A hole is an interval of message ids of a channel that are not stored. The holes of all channels stand in one table,
with one row for each channel and each upper end of a hole; in a list of messages a hole is shown by a placeholder.

* `MessageHole.intersects`, `MessageHole.covers`, `MessageHole.exclude` : `TGMessageHole`;
* `intersectingHoles`, `addChannelHole`, `removeChannelHole` : what `TGDatabase` does with a hole that is found, and
  with one that is filled.
-/

namespace TelegramClient.Database

/-! ## Holes -/

/-- `TGMessageHole`. -/
structure MessageHole where
  minId : Int32
  minTimestamp : Int32
  maxId : Int32
  maxTimestamp : Int32
deriving DecidableEq

namespace MessageHole

def intersects (hole other : MessageHole) : Bool := hole.minId ≤ other.maxId && hole.maxId ≥ other.minId

def covers (hole other : MessageHole) : Bool := other.minId ≥ hole.minId && other.maxId ≤ hole.maxId

/-- What is left of `hole` below and above `other`. -/
def exclude (hole other : MessageHole) : List MessageHole :=
  if other.minId ≤ hole.minId then
    if other.maxId < hole.maxId then [⟨other.maxId + 1, other.maxTimestamp, hole.maxId, hole.maxTimestamp⟩] else []
  else
    ⟨hole.minId, hole.minTimestamp, other.minId - 1, other.minTimestamp⟩ ::
      (if other.maxId < hole.maxId then [⟨other.maxId + 1, other.maxTimestamp, hole.maxId, hole.maxTimestamp⟩] else [])

def ids (hole : MessageHole) : Set Int32 := {id | hole.minId ≤ id ∧ id ≤ hole.maxId}

end MessageHole

/-! ## Placeholders -/

/-- `TGMessageSpaceHole`. -/
def messageSpaceHole : UInt8 := 127

/-- `NSSwapInt` on a little-endian machine. -/
def swapInt (x : Int32) : Bytes := (leBits x.toBitVec).reverse

/-- `TGMessageSortKeyMake`. -/
def messageSortKeyMake (peerId : Int64) (space : UInt8) (timestamp mid : Int32) : Bytes :=
  leBits peerId.toBitVec ++ [space] ++ swapInt timestamp ++ swapInt mid

/-- `TGMessageTransparentSortKeyMake`. -/
def messageTransparentSortKeyMake (peerId : Int64) (timestamp mid : Int32) (space : UInt8) : Bytes :=
  leBits peerId.toBitVec ++ swapInt timestamp ++ swapInt mid ++ [space]

/-- The `TGMessage` that stands for a hole. -/
structure HoleMessage where
  cid : Int64
  mid : Int32
  date : Int32
  hole : MessageHole
  sortKey : Bytes
deriving DecidableEq

def messagesFromHoles (holes : List MessageHole) (peerId : Int64) : List HoleMessage :=
  holes.map fun hole =>
    { cid := peerId, mid := -hole.maxId, date := hole.maxTimestamp, hole := hole,
      sortKey := messageSortKeyMake peerId messageSpaceHole hole.maxTimestamp hole.maxId }

def messageIdsFromHoles (holes : List MessageHole) : List Int32 := holes.map fun hole => -hole.maxId

/-! ## The table -/

structure HoleRow where
  cid : Int64
  hole : MessageHole
  maxSortKey : Bytes
deriving DecidableEq

def HoleRow.key (row : HoleRow) : Int64 × Int32 := (row.cid, row.hole.maxId)

/-- The table that `_holesTableName:` names. -/
structure HoleTable where
  rows : List HoleRow
  primaryKey : (rows.map HoleRow.key).Nodup

def HoleTable.holes (table : HoleTable) (peerId : Int64) : List MessageHole :=
  (table.rows.filter (·.cid == peerId)).map (·.hole)

/-- `DELETE ... WHERE cid=? AND max_id=?`. -/
def HoleTable.delete (table : HoleTable) (peerId : Int64) (maxId : Int32) : HoleTable where
  rows := table.rows.filter fun row => row.key ≠ (peerId, maxId)
  primaryKey := table.primaryKey.sublist (List.filter_sublist.map _)

/-- `INSERT INTO ...`: without effect when the key is taken. -/
def HoleTable.insert (table : HoleTable) (row : HoleRow) : HoleTable :=
  if h : row.key ∈ table.rows.map HoleRow.key then table
  else
    { rows := table.rows ++ [row]
      primaryKey := by
        rw [List.map_append, List.map_singleton, List.nodup_append]
        refine ⟨table.primaryKey, List.nodup_singleton _, fun key hkey key' hkey' => ?_⟩
        rw [List.mem_singleton.mp hkey']
        exact fun heq => h (heq ▸ hkey) }

/-- A run of one of the two methods: the table, the arrays that the caller passed, and, as ghosts, the rows that were
deleted and inserted. -/
structure HoleUpdate where
  table : HoleTable
  addedMessages : List HoleMessage
  removedMessages : List Int32
  deletedRows : List HoleRow
  insertedRows : List HoleRow

namespace HoleUpdate

def start (table : HoleTable) : HoleUpdate := ⟨table, [], [], [], []⟩

def delete (update : HoleUpdate) (peerId : Int64) (maxId : Int32) : HoleUpdate :=
  { update with
    table := update.table.delete peerId maxId
    deletedRows := update.deletedRows ++ update.table.rows.filter fun row => row.key = (peerId, maxId) }

/-- The row of a hole, with the sort key of its upper end. -/
def rowOf (peerId : Int64) (hole : MessageHole) : HoleRow :=
  ⟨peerId, hole, messageTransparentSortKeyMake peerId hole.maxTimestamp hole.maxId messageSpaceHole⟩

def insert (update : HoleUpdate) (peerId : Int64) (hole : MessageHole) : HoleUpdate :=
  { update with
    table := update.table.insert (rowOf peerId hole)
    insertedRows := update.insertedRows ++
      if (rowOf peerId hole).key ∈ update.table.rows.map HoleRow.key then [] else [rowOf peerId hole] }

def addMessages (update : HoleUpdate) (messages : List HoleMessage) : HoleUpdate :=
  { update with addedMessages := update.addedMessages ++ messages }

def removeMessages (update : HoleUpdate) (ids : List Int32) : HoleUpdate :=
  { update with removedMessages := update.removedMessages ++ ids }

end HoleUpdate

/-! ## Finding and filling -/

/-- The order of the comparator, and of `ORDER BY max_id ASC`. -/
def sortByMaxId (holes : List MessageHole) : List MessageHole :=
  holes.insertionSort fun lhs rhs => lhs.maxId ≤ rhs.maxId

def intersectingHoles (table : HoleTable) (peerId : Int64) (hole : MessageHole) : List MessageHole :=
  let previousResults := (table.holes peerId).filter fun row => row.maxId ≥ hole.minId && row.maxId ≤ hole.maxId
  let nextResult := (sortByMaxId ((table.holes peerId).filter fun row => row.maxId > hole.maxId)).head?
  sortByMaxId (previousResults ++ (nextResult.filter fun resultHole => hole.intersects resultHole).toList)

/-- The bounds of the hole that replaces those it was found to intersect. -/
def mergeBounds (bounds currentHole : MessageHole) : MessageHole :=
  let bounds :=
    if currentHole.maxId > bounds.maxId then
      { bounds with maxId := currentHole.maxId, maxTimestamp := currentHole.maxTimestamp }
    else bounds
  if currentHole.minId < bounds.minId then
    { bounds with minId := currentHole.minId, minTimestamp := currentHole.minTimestamp }
  else bounds

/-- A round of the loop of `_addChannelHole`. What it deletes and reports is `hole`, and not the current hole. -/
def mergeStep (peerId : Int64) (hole : MessageHole) (run : MessageHole × HoleUpdate) (currentHole : MessageHole) :
    MessageHole × HoleUpdate :=
  (mergeBounds run.1 currentHole,
    (run.2.delete peerId hole.maxId).removeMessages (messageIdsFromHoles [hole]))

def addChannelHole (peerId : Int64) (hole : MessageHole) (update : HoleUpdate) : HoleUpdate :=
  let intersectedHoles := intersectingHoles update.table peerId hole
  if intersectedHoles.length = 0 then
    (update.insert peerId hole).addMessages (messagesFromHoles [hole] peerId)
  else
    let (updatedHole, update) := intersectedHoles.foldl (mergeStep peerId hole) (hole, update)
    (update.addMessages (messagesFromHoles [updatedHole] peerId)).insert peerId updatedHole

def removeChannelHole (peerId : Int64) (hole : MessageHole) (update : HoleUpdate) : HoleUpdate :=
  let intersectedHoles := intersectingHoles update.table peerId hole
  if intersectedHoles.length ≠ 0 then
    let addedHoles := intersectedHoles.flatMap fun currentHole =>
      if !hole.covers currentHole then currentHole.exclude hole else []
    let update := intersectedHoles.foldl (fun update currentHole => update.delete peerId currentHole.maxId) update
    let update := addedHoles.foldl (fun update addedHole => update.insert peerId addedHole) update
    (update.removeMessages (messageIdsFromHoles intersectedHoles)).addMessages (messagesFromHoles addedHoles peerId)
  else update

end TelegramClient.Database
