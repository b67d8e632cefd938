import Mathlib.Data.Finset.Sort
import TelegramClient.Database.PeerIds

/-!
# Recorded insertions

`TGMutableArrayWithIndices` records what is inserted into an array, so that a table can insert the same rows at once.

* `arrayInsert`, `insertObjectsAtIndexes` : an array of Foundation, with its exceptions;
* `insertAll_batch` : **the recorded indices increase, and one batch gives the same array**.
-/

namespace TelegramClient.Messages
open List
open Database
open Option (bind_eq_some_iff bind_some)

variable {α : Type}

/-! ## Arrays of Foundation -/

/-- `insertObject:atIndex:`, or its exception. There is no memory for an array whose count is not an `int`. -/
def arrayInsert (array : List α) (object : α) (index : Nat) : Option (List α) :=
  if index ≤ array.length ∧ (array.length : Int) < int32Max then some (array.insertIdx index object) else none

/-- The objects are inserted in turn, each at its index. -/
def insertInTurn (array : List α) (insertions : List (Nat × α)) : Option (List α) :=
  insertions.foldlM (fun array insertion => arrayInsert array insertion.2 insertion.1) array

/-- `insertObjects:atIndexes:`. -/
def insertObjectsAtIndexes (array objects : List α) (indexes : Finset Nat) : Option (List α) :=
  if objects.length = indexes.card then insertInTurn array (indexes.sort.zip objects) else none

/-! ## `TGIndexSet` -/

/-- `insertIndex:`. The indices from `index` on are raised, and `index` takes its place, which is returned. -/
def insertIndex (indices : List Int) (index : Int) : List Int × Int :=
  if index < 0 then (indices, -1)
  else
    let raised := indices.map fun i => if i ≥ index then toInt32 (i + 1) else i
    let indexLocation := raised.findIdx fun i => i ≥ index
    (raised.insertIdx indexLocation index, indexLocation)

def indexSet (indices : List Int) : Finset Nat := (indices.map Int.toNat).toFinset

/-! ## `TGMutableArrayWithIndices` -/

structure TGMutableArrayWithIndices (α : Type) where
  insertIndexSet : List Int
  insertArray : List α
  array : List α
deriving DecidableEq

namespace TGMutableArrayWithIndices

def initWithArray (array : List α) : TGMutableArrayWithIndices α := ⟨[], [], array⟩

/-- `insertObject:atIndex:`. -/
def insertObject (w : TGMutableArrayWithIndices α) (object : α) (index : Nat) : Option (TGMutableArrayWithIndices α) := do
  let array ← arrayInsert w.array object index
  let (insertIndexSet, insertIndex) := insertIndex w.insertIndexSet (toInt32 index)
  if insertIndex ≥ 0 then
    let insertArray ← arrayInsert w.insertArray object insertIndex.toNat
    return ⟨insertIndexSet, insertArray, array⟩
  else return ⟨insertIndexSet, w.insertArray, array⟩

def objectsForInsertOperations (w : TGMutableArrayWithIndices α) : List α × Finset Nat :=
  (w.insertArray, indexSet w.insertIndexSet)

/-- Calls of `insertObject:atIndex:`, or the exception of one of them. -/
def insertAll (w : TGMutableArrayWithIndices α) (calls : List (Nat × α)) : Option (TGMutableArrayWithIndices α) :=
  calls.foldlM (fun w call => w.insertObject call.2 call.1) w

end TGMutableArrayWithIndices

/-! ## Insertions in turn -/

variable {array array' : List α}

theorem arrayInsert_eq_some {object : α} {index : Nat} : arrayInsert array object index = some array' ↔
      index ≤ array.length ∧ (array.length : Int) < int32Max ∧ array' = array.insertIdx index object := by
  unfold arrayInsert
  split
  next h => simp [h.1, h.2, eq_comm]
  next h => simpa using fun hle hlt => absurd ⟨hle, hlt⟩ h

theorem insertInTurn_cons (array : List α) (index : Nat) (object : α) (insertions : List (Nat × α)) :
    insertInTurn array ((index, object) :: insertions) =
      (arrayInsert array object index).bind fun array => insertInTurn array insertions := by
  simp [insertInTurn, foldlM_cons]

theorem insertInTurn_append (array : List α) (before after : List (Nat × α)) :
    insertInTurn array (before ++ after) = (insertInTurn array before).bind fun array => insertInTurn array after := by
  simp [insertInTurn, foldlM_append]

variable {insertions : List (Nat × α)}

theorem length_insertInTurn (h : insertInTurn array insertions = some array') :
    array'.length = array.length + insertions.length := by
  induction insertions generalizing array with
  | nil =>
    obtain rfl : array = array' := by simpa [insertInTurn] using h
    simp
  | cons insertion insertions ih =>
    obtain ⟨index, object⟩ := insertion
    rw [insertInTurn_cons, bind_eq_some_iff] at h
    obtain ⟨array₁, hins, hrest⟩ := h
    obtain ⟨hle, -, rfl⟩ := arrayInsert_eq_some.mp hins
    rw [ih hrest, length_insertIdx_of_le_length hle, length_cons]
    omega

variable {x : Nat}

section
variable (h : insertInTurn array insertions = some array')
include h

/-- **An insertion before the others.** They are made at the next indices then. -/
theorem insertInTurn_raise {object : α} (hx : ∀ insertion ∈ insertions, x ≤ insertion.1)
    (hroom : (array'.length : Int) < int32Max) :
    insertInTurn (array.insertIdx x object) (insertions.map fun insertion => (insertion.1 + 1, insertion.2)) =
      some (array'.insertIdx x object) := by
  induction insertions generalizing array with
  | nil =>
    obtain rfl : array = array' := by simpa [insertInTurn] using h
    rfl
  | cons insertion insertions ih =>
    obtain ⟨index, other⟩ := insertion
    have hlen := length_insertInTurn h
    rw [insertInTurn_cons, bind_eq_some_iff] at h
    obtain ⟨array₁, hins, hrest⟩ := h
    obtain ⟨hle, hlt, rfl⟩ := arrayInsert_eq_some.mp hins
    have hxi : x ≤ index := hx (index, other) mem_cons_self
    have hraised : arrayInsert (array.insertIdx x object) other (index + 1) =
        some ((array.insertIdx index other).insertIdx x object) := by
      rw [arrayInsert_eq_some, length_insertIdx_of_le_length (hxi.trans hle)]
      refine ⟨by omega, ?_, (insertIdx_comm object other hxi hle).symm⟩
      rw [length_cons] at hlen
      omega
    rw [map_cons, insertInTurn_cons, hraised, bind_some]
    exact ih hrest fun insertion hm => hx insertion (mem_cons_of_mem _ hm)

theorem lt_length_of_mem {insertion : Nat × α} (hm : insertion ∈ insertions) : insertion.1 < array'.length := by
  obtain ⟨before, after, rfl⟩ := append_of_mem hm
  rw [insertInTurn_append, bind_eq_some_iff] at h
  obtain ⟨array₁, -, hrest⟩ := h
  have hlen := length_insertInTurn hrest
  rw [insertInTurn_cons, bind_eq_some_iff] at hrest
  obtain ⟨array₂, hins, -⟩ := hrest
  obtain ⟨hle, -, -⟩ := arrayInsert_eq_some.mp hins
  rw [length_cons] at hlen
  omega

theorem le_length_first (hx : ∀ insertion ∈ insertions, x ≤ insertion.1) (hle : x ≤ array'.length) :
    x ≤ array.length := by
  cases insertions with
  | nil =>
    obtain rfl : array = array' := by simpa [insertInTurn] using h
    exact hle
  | cons insertion insertions =>
    rw [insertInTurn_cons, bind_eq_some_iff] at h
    obtain ⟨array₁, hins, -⟩ := h
    obtain ⟨hidx, -, -⟩ := arrayInsert_eq_some.mp hins
    exact (hx insertion mem_cons_self).trans hidx

end

/-! ## The index set -/

theorem insertIdx_append (as bs : List α) (a : α) : (as ++ bs).insertIdx as.length a = as ++ a :: bs := by
  induction as with
  | nil => rfl
  | cons a' as ih => rw [cons_append, length_cons, insertIdx_succ_cons, ih, cons_append]

theorem insertIndex_eq {below above : List Nat} (hbelow : ∀ i ∈ below, i < x) (habove : ∀ i ∈ above, x ≤ i)
    (hint : ∀ i ∈ above, (i : Int) < int32Max) : insertIndex ((below ++ above).map Nat.cast) x =
      ((below ++ x :: above.map (· + 1)).map Nat.cast, (below.length : Int)) := by
  have hlow : (below.map Nat.cast).map (fun i : Int => if i ≥ x then toInt32 (i + 1) else i) = below.map Nat.cast := by
    rw [map_map]
    apply map_congr_left
    intro i hi
    have := hbelow i hi
    simp only [Function.comp_apply]
    rw [if_neg (by omega)]
  have hhigh : (above.map Nat.cast).map (fun i : Int => if i ≥ x then toInt32 (i + 1) else i) =
      (above.map (· + 1)).map Nat.cast := by
    rw [map_map, map_map]
    apply map_congr_left
    intro i hi
    have hle := habove i hi
    have hlt := hint i hi
    simp only [Function.comp_apply]
    unfold int32Max at hlt
    rw [if_pos (by omega), toInt32_of_isInt32 ⟨by unfold int32Min; omega, by unfold int32Max; omega⟩]
    push_cast
    rfl
  have hfind : ((below ++ above.map (· + 1)).map (Nat.cast : Nat → Int)).findIdx (fun i => decide (i ≥ (x : Int))) =
      below.length := by
    rw [map_append, findIdx_append, @findIdx_eq_length_of_false Int _ (below.map Nat.cast)]
    · rw [if_neg (lt_irrefl _), length_map]
      cases above with
      | nil => simp
      | cons i above =>
        have hle := habove i mem_cons_self
        rw [map_cons, map_cons, findIdx_cons, decide_eq_true (by push_cast; omega)]
        simp
    · intro i hi
      obtain ⟨j, hj, rfl⟩ := mem_map.mp hi
      have := hbelow j hj
      simpa using this
  unfold insertIndex
  rw [if_neg (by omega), map_append, map_append, hlow, hhigh, ← map_append]
  dsimp only
  rw [hfind, ← length_map (f := (Nat.cast : Nat → Int)), map_append, insertIdx_append]
  simp

theorem exists_split {indices : List Nat} (h : indices.Pairwise (· < ·)) (x : Nat) :
    ∃ below above, indices = below ++ above ∧ (∀ i ∈ below, i < x) ∧ ∀ i ∈ above, x ≤ i := by
  induction h with
  | nil => exact ⟨[], [], rfl, by simp, by simp⟩
  | @cons i indices hhead _ ih =>
    by_cases hi : i < x
    · obtain ⟨below, above, rfl, hbelow, habove⟩ := ih
      exact ⟨i :: below, above, rfl, forall_mem_cons.mpr ⟨hi, hbelow⟩, habove⟩
    · refine ⟨[], i :: indices, rfl, by simp, forall_mem_cons.mpr ⟨by omega, fun j hj => ?_⟩⟩
      have := hhead j hj
      omega

/-! ## What is recorded -/

/-- The recorded indices increase, and the recorded objects make the array if they are inserted at them in turn. -/
structure Records (initial : List α) (w : TGMutableArrayWithIndices α) (indices : List Nat) : Prop where
  indexSet : w.insertIndexSet = indices.map Nat.cast
  increasing : indices.Pairwise (· < ·)
  length : indices.length = w.insertArray.length
  array : insertInTurn initial (indices.zip w.insertArray) = some w.array

namespace Records

variable {initial : List α} {w : TGMutableArrayWithIndices α} {indices : List Nat}

theorem initWithArray (initial : List α) : Records initial (.initWithArray initial) [] :=
  ⟨rfl, .nil, rfl, rfl⟩

section
variable (h : Records initial w indices)
include h

theorem lt_length {i : Nat} (hi : i ∈ indices) : i < w.array.length := by
  obtain ⟨k, hk, rfl⟩ := mem_iff_getElem.mp hi
  have hobject : k < w.insertArray.length := h.length ▸ hk
  have hm : (indices[k], w.insertArray[k]) ∈ indices.zip w.insertArray :=
    mem_iff_getElem.mpr ⟨k, by simpa using ⟨hk, hobject⟩, by simp⟩
  exact lt_length_of_mem h.array hm

/-- **One more insertion** into the array is recorded. -/
theorem insertObject {object : α} (harray : arrayInsert w.array object x = some array) :
    ∃ w' indices', w.insertObject object x = some w' ∧ w'.array = array ∧ Records initial w' indices' := by
  have hins := harray
  obtain ⟨hx, hroom, rfl⟩ := arrayInsert_eq_some.mp harray
  obtain ⟨below, above, rfl, hbelow, habove⟩ := exists_split h.increasing x
  have hint (i : Nat) (hi : i ∈ above) : (i : Int) < int32Max := by
    have := h.lt_length (mem_append_right below hi)
    omega
  have hidx : toInt32 x = x := toInt32_of_isInt32 ⟨by unfold int32Min; omega, by omega⟩
  have htotal := h.length
  have hcnt := length_insertInTurn h.array
  rw [length_zip, htotal, Nat.min_self] at hcnt
  rw [length_append] at htotal
  have hobjects : arrayInsert w.insertArray object below.length = some (w.insertArray.insertIdx below.length object) :=
    arrayInsert_eq_some.mpr ⟨by omega, by omega, rfl⟩
  have hw' : w.insertObject object x = some ⟨(below ++ x :: above.map (· + 1)).map Nat.cast,
      w.insertArray.insertIdx below.length object, w.array.insertIdx x object⟩ := by
    unfold TGMutableArrayWithIndices.insertObject
    rw [hins, hidx, h.indexSet, insertIndex_eq hbelow habove hint]
    simp [hobjects]
  refine ⟨_, below ++ x :: above.map (· + 1), hw', rfl, rfl, ?_, ?_, ?_⟩
  · obtain ⟨hincreasing, hincreasing', -⟩ := pairwise_append.mp h.increasing
    refine pairwise_append.mpr ⟨hincreasing, pairwise_cons.mpr ⟨?_, ?_⟩, ?_⟩
    · intro i hi
      obtain ⟨j, hj, rfl⟩ := mem_map.mp hi
      have := habove j hj
      omega
    · exact pairwise_map.mpr (hincreasing'.imp fun hlt => by omega)
    · intro i hi j hj
      have hix := hbelow i hi
      rcases mem_cons.mp hj with rfl | hj
      · exact hix
      · obtain ⟨k, hk, rfl⟩ := mem_map.mp hj
        have := habove k hk
        omega
  · show (below ++ x :: above.map (· + 1)).length = (w.insertArray.insertIdx below.length object).length
    rw [length_insertIdx_of_le_length (by omega), length_append, length_cons, length_map]
    omega
  · show insertInTurn initial ((below ++ x :: above.map (· + 1)).zip (w.insertArray.insertIdx below.length object)) =
      some (w.array.insertIdx x object)
    -- the recorded objects are cut where the indices are
    obtain ⟨objects, objects', hsplit, hlen⟩ : ∃ objects objects', w.insertArray = objects ++ objects' ∧
        objects.length = below.length :=
      ⟨_, _, (take_append_drop below.length w.insertArray).symm, by rw [length_take]; omega⟩
    have hturn := h.array
    rw [hsplit, zip_append hlen.symm, insertInTurn_append, bind_eq_some_iff] at hturn
    obtain ⟨middle, hmiddle, hturn⟩ := hturn
    have hlater (insertion : Nat × α) (hm : insertion ∈ above.zip objects') : x ≤ insertion.1 :=
      habove _ (of_mem_zip hm).1
    have hxmiddle : x ≤ middle.length := le_length_first hturn hlater hx
    have hmiddleRoom := length_insertInTurn hturn
    have hinsertx : arrayInsert middle object x = some (middle.insertIdx x object) :=
      arrayInsert_eq_some.mpr ⟨hxmiddle, by omega, rfl⟩
    have hraised : (above.map (· + 1)).zip objects' =
        (above.zip objects').map fun insertion => (insertion.1 + 1, insertion.2) := by
      rw [zip_map_left]
      rfl
    rw [hsplit, ← hlen, insertIdx_append, zip_append hlen.symm, insertInTurn_append, hmiddle, bind_some,
      zip_cons_cons, insertInTurn_cons, hinsertx, bind_some, hraised]
    exact insertInTurn_raise hturn hlater hroom

/-- All insertions are, by induction on the calls. -/
theorem insertAll {calls : List (Nat × α)} (hcalls : insertInTurn w.array calls = some array) :
    ∃ w' indices', w.insertAll calls = some w' ∧ w'.array = array ∧ Records initial w' indices' := by
  induction calls generalizing w indices with
  | nil => exact ⟨w, indices, rfl, by simpa [insertInTurn] using hcalls, h⟩
  | cons call calls ih =>
    obtain ⟨x, object⟩ := call
    rw [insertInTurn_cons, bind_eq_some_iff] at hcalls
    obtain ⟨array₁, hins, hrest⟩ := hcalls
    obtain ⟨w₁, indices₁, hw₁, rfl, h₁⟩ := h.insertObject hins
    obtain ⟨w', indices', hw', harray, h'⟩ := ih h₁ hrest
    refine ⟨w', indices', ?_, harray, h'⟩
    rw [TGMutableArrayWithIndices.insertAll, foldlM_cons, hw₁]
    exact hw'

theorem sort_indexSet : (Messages.indexSet w.insertIndexSet).sort = indices := by
  have hnat : w.insertIndexSet.map Int.toNat = indices := by
    rw [h.indexSet, map_map]
    exact map_id' indices
  rw [Messages.indexSet, hnat, toFinset_sort _ (h.increasing.imp fun hlt => ne_of_lt hlt)]
  exact h.increasing.imp fun hlt => le_of_lt hlt

end

end Records

/-- **One batch gives the same array** as the insertions one after another, where the array takes them all; and the recorded
indices increase. -/
theorem insertAll_batch {array array' : List α} {calls : List (Nat × α)} (h : insertInTurn array calls = some array') :
    ∃ w, (TGMutableArrayWithIndices.initWithArray array).insertAll calls = some w ∧ w.array = array' ∧
      w.insertIndexSet.Pairwise (· < ·) ∧
      insertObjectsAtIndexes array w.objectsForInsertOperations.1 w.objectsForInsertOperations.2 = some array' := by
  obtain ⟨w, indices, hw, rfl, hrecords⟩ := (Records.initWithArray array).insertAll h
  refine ⟨w, hw, rfl, ?_, ?_⟩
  · rw [hrecords.indexSet]
    exact pairwise_map.mpr (hrecords.increasing.imp fun hlt => by omega)
  · have hsort := hrecords.sort_indexSet
    have hcard : (indexSet w.insertIndexSet).card = indices.length := by
      rw [← Finset.length_sort (· ≤ ·), hsort]
    show insertObjectsAtIndexes array w.insertArray (indexSet w.insertIndexSet) = some w.array
    rw [insertObjectsAtIndexes, if_pos (by rw [hcard, hrecords.length]), hsort, hrecords.array]

/-- Three insertions, the last of them between the others. -/
theorem insertAll_batch_three :
    ∃ w, (TGMutableArrayWithIndices.initWithArray ['a', 'b']).insertAll [(1, 'x'), (0, 'z'), (1, 'y')] = some w ∧
      w.array = ['z', 'y', 'a', 'x', 'b'] ∧ w.insertIndexSet.Pairwise (· < ·) ∧
      insertObjectsAtIndexes ['a', 'b'] w.objectsForInsertOperations.1 w.objectsForInsertOperations.2 =
        some ['z', 'y', 'a', 'x', 'b'] :=
  insertAll_batch (by decide)

end TelegramClient.Messages
