import Mathlib.Algebra.Order.BigOperators.Group.Finset
import TelegramClient.Lib.SortedTable
import TelegramClient.MtProto.Buffer

/-!
# The custom properties of a conversation

A column of the table of peers has the properties of a conversation, as numbers with byte strings: a version, the count, and
for every property its name, the length of its value and the value.

* `readEntry`, `findProperty` : the loops that read them;
* `customProperties_map` : **after all calls each name has the value it was given last**.
-/

namespace TelegramClient.Database
open List
open MtProto

/-! ## Reading -/

/-- `getBytes:range:` at `ptr`, which is advanced. -/
def getBytes (length : Nat) : ReadM Bytes := fun c =>
  if c.offset + length ≤ c.data.length then .ok (slice c.data c.offset length, { c with offset := c.offset + length })
  else .error .raised

/-- `ptr += length`. -/
def advance (length : Int) : ReadM Unit := fun c => .ok ((), { c with offset := nsUInteger (c.offset + length) })

def getInt : ReadM (BitVec 32) := do
  let value ← getBytes 4
  return ofLeBits 32 value

/-- The version, which is not looked at, and the count. A loop up to a negative count has no rounds. -/
def readCount : ReadM Nat := do
  let _version ← getInt
  let count ← getInt
  return count.toInt.toNat

def readEntry : ReadM (BitVec 32 × Bytes) := do
  let key ← getInt
  let valueLength ← getInt
  let value ← getBytes (nsUInteger valueLength.toInt)
  return (key, value)

def findProperty (name : BitVec 32) : Nat → ReadM (Option Bytes)
  | 0 => return none
  | count + 1 => do
    let key ← getInt
    let valueLength ← getInt
    if key = name then do
      let value ← getBytes (nsUInteger valueLength.toInt)
      return some value
    else do
      advance valueLength.toInt
      findProperty name count

/-! ## The map -/

/-- `tmpDict.insert`, which keeps the value that a key has. -/
def insertNew (t : SortedTable Int Bytes) (entry : BitVec 32 × Bytes) : SortedTable Int Bytes :=
  if (t.lookup entry.1.toInt).isSome then t else t.insert entry.1.toInt entry.2

def readProperties : ReadM (SortedTable Int Bytes) := do
  let count ← readCount
  let entries ← repeatM count readEntry
  return entries.foldl insertNew .empty

def writeEntry (entry : Int × Bytes) : Bytes :=
  leBits (BitVec.ofInt 32 entry.1) ++ leBits (BitVec.ofNat 32 entry.2.length) ++ entry.2

def writeProperties (t : SortedTable Int Bytes) : Bytes :=
  leBits (0 : BitVec 32) ++ leBits (BitVec.ofNat 32 t.entries.length) ++ t.entries.flatMap writeEntry

/-! ## The methods -/

/-- The row of a peer with its column `custom_properties`, which may be `NULL`. -/
abbrev PropertiesRow := Option (Option Bytes)

/-- `setConversationCustomProperty:name:value:`. Nothing is read from a column that is `NULL`. -/
def setConversationCustomProperty (row : PropertiesRow) (name : BitVec 32) (value : Option Bytes) :
    Except Fault PropertiesRow := do
  let tmpDict ←
    match row with
    | some (some serializedProperties) => (readProperties.run ⟨serializedProperties, 0⟩).map Prod.fst
    | _ => pure .empty
  let tmpDict :=
    match value with
    | some value => tmpDict.insert name.toInt value
    | none => tmpDict.erase name.toInt
  return some (some (writeProperties tmpDict))

def propertyOf (row : PropertiesRow) (name : BitVec 32) : Except Fault (Option Bytes) :=
  match row with
  | some (some serializedProperties) =>
    ((do let count ← readCount; findProperty name count).run ⟨serializedProperties, 0⟩).map Prod.fst
  | _ => pure none

def conversationCustomProperty (row : PropertiesRow) (name : BitVec 32) : Except Fault (Option Bytes) := propertyOf row name

def conversationCustomPropertySync (row : PropertiesRow) (name : BitVec 32) : Except Fault (Option Bytes) :=
  propertyOf row name

/-- Calls of `setConversationCustomProperty`. -/
def setProperties (row : PropertiesRow) (sets : List (BitVec 32 × Option Bytes)) : Except Fault PropertiesRow :=
  sets.foldlM (fun row set => setConversationCustomProperty row set.1 set.2) row

/-! ## What is to be found -/

def lastSet (sets : List (BitVec 32 × Option Bytes)) : BitVec 32 → Option Bytes :=
  sets.foldl (fun values set => Function.update values set.1 set.2) fun _ => none

/-- The bytes of a property with its name and its length. -/
def propertySize : Option Bytes → Nat
  | none => 0
  | some value => 4 + 4 + value.length

/-- The bytes of all properties after some calls. -/
def totalSize (sets : List (BitVec 32 × Option Bytes)) : Nat :=
  4 + 4 + ∑ name ∈ (sets.map Prod.fst).toFinset, propertySize (lastSet sets name)

/-! ## What is written is read -/

theorem reads_getBytes (x : Bytes) : Reads (getBytes x.length) x x := by
  intro pre rest _
  have hslice : slice (pre ++ (x ++ rest)) pre.length x.length = x := by
    rw [← append_assoc, slice_append_middle]
  have hle : pre.length + x.length ≤ (pre ++ (x ++ rest)).length := by
    rw [length_append, length_append]
    omega
  show getBytes x.length ⟨pre ++ (x ++ rest), pre.length⟩ = _
  rw [getBytes, if_pos hle, hslice]

theorem reads_getInt (value : BitVec 32) : Reads getInt (leBits value) value := by
  have h := reads_getBytes (leBits value)
  rw [length_leBits] at h
  have hbind := h.bind_pure (ofLeBits 32)
  rwa [ofLeBits_leBits (by decide)] at hbind

theorem reads_advance (x : Bytes) : Reads (advance x.length) x () := by
  intro pre rest hlen
  show (Except.ok ((), ⟨pre ++ (x ++ rest), nsUInteger (pre.length + x.length)⟩) : Except Fault (Unit × Cursor)) = _
  have hoff : nsUInteger ((pre.length : Int) + x.length) = pre.length + x.length := by
    unfold nsUInteger addressSpace at *
    omega
  rw [hoff]

variable {n : Nat}

/-- A length that is written as an `int` and used as one. -/
theorem toInt_ofNat_of_lt (h : n < 2 ^ 31) : (BitVec.ofNat 32 n).toInt = n := by
  rw [BitVec.toInt_ofNat', Int.bmod_eq_of_le] <;> omega

theorem nsUInteger_toInt (h : n < 2 ^ 31) : nsUInteger (BitVec.ofNat 32 n).toInt = n := by
  rw [toInt_ofNat_of_lt h, nsUInteger]
  omega

theorem reads_readCount (h : n < 2 ^ 31) :
    Reads readCount (leBits (0 : BitVec 32) ++ leBits (BitVec.ofNat 32 n)) n := by
  have hcnt := (reads_getInt (BitVec.ofNat 32 n)).bind_pure fun count => count.toInt.toNat
  rw [toInt_ofNat_of_lt h, Int.toNat_natCast] at hcnt
  exact (reads_getInt 0).bind hcnt

def nameOf (entry : Int × Bytes) : BitVec 32 × Bytes := (BitVec.ofInt 32 entry.1, entry.2)

variable {entry : Int × Bytes} {x : Bytes}

theorem reads_entry {β : Type} {q : BitVec 32 → BitVec 32 → ReadM β} {b : β}
    (h : Reads (q (nameOf entry).1 (BitVec.ofNat 32 entry.2.length)) (entry.2 ++ x) b) :
    Reads (do let key ← getInt; let valueLength ← getInt; q key valueLength) (writeEntry entry ++ x) b := by
  unfold writeEntry
  rw [append_assoc, append_assoc]
  exact (reads_getInt _).bind ((reads_getInt _).bind h)

theorem reads_readEntry (h : entry.2.length < 2 ^ 31) : Reads readEntry (writeEntry entry) (nameOf entry) := by
  have hval := (reads_getBytes entry.2).bind_pure fun value => ((nameOf entry).1, value)
  rw [← nsUInteger_toInt h] at hval
  have hentry : Reads readEntry (writeEntry entry ++ []) (nameOf entry) := by
    refine reads_entry ?_
    rwa [append_nil]
  rwa [append_nil] at hentry

variable {name : BitVec 32}

variable {found : Option Bytes}

theorem reads_findProperty_of_ne {count : Nat} (hlen : entry.2.length < 2 ^ 31) (hne : (nameOf entry).1 ≠ name)
    (h : Reads (findProperty name count) x found) :
    Reads (findProperty name (count + 1)) (writeEntry entry ++ x) found := by
  refine reads_entry ?_
  rw [if_neg hne, toInt_ofNat_of_lt hlen]
  exact (reads_advance entry.2).bind h

/-- **A name is found** where it is first. -/
theorem reads_findProperty {before : List (Int × Bytes)} (after : List (Int × Bytes))
    (hbefore : ∀ e ∈ before, e.2.length < 2 ^ 31 ∧ (nameOf e).1 ≠ (nameOf entry).1) (hentry : entry.2.length < 2 ^ 31) :
    Reads (findProperty (nameOf entry).1 (before ++ entry :: after).length)
      (before.flatMap writeEntry ++ writeEntry entry) (some entry.2) := by
  induction before with
  | nil =>
    have hval := (reads_getBytes entry.2).bind_pure some
    rw [← nsUInteger_toInt hentry] at hval
    have hfound : Reads (findProperty (nameOf entry).1 (after.length + 1)) (writeEntry entry ++ []) (some entry.2) := by
      refine reads_entry ?_
      rwa [if_pos rfl, append_nil]
    rwa [append_nil] at hfound
  | cons e before ih =>
    obtain ⟨⟨hlen, hne⟩, hrest⟩ := forall_mem_cons.mp hbefore
    rw [flatMap_cons, append_assoc]
    exact reads_findProperty_of_ne hlen hne (ih hrest)

variable {entries : List (Int × Bytes)}

theorem reads_findProperty_none (h : ∀ e ∈ entries, e.2.length < 2 ^ 31 ∧ (nameOf e).1 ≠ name) :
    Reads (findProperty name entries.length) (entries.flatMap writeEntry) none := by
  induction entries with
  | nil => exact Reads.pure none
  | cons e entries ih =>
    obtain ⟨⟨hlen, hne⟩, hrest⟩ := forall_mem_cons.mp h
    rw [flatMap_cons]
    exact reads_findProperty_of_ne hlen hne (ih hrest)

/-! ## The map that is stored -/

/-- The entries are those of names that have a value. -/
structure StoresLast (sets : List (BitVec 32 × Option Bytes)) (t : SortedTable Int Bytes) : Prop where
  lookup : ∀ name : BitVec 32, t.lookup name.toInt = lastSet sets name
  names : ∀ e ∈ t.entries, e.1 = (nameOf e).1.toInt

theorem lastSet_concat (sets : List (BitVec 32 × Option Bytes)) (name : BitVec 32) (value : Option Bytes) :
    lastSet (sets ++ [(name, value)]) = Function.update (lastSet sets) name value := by
  rw [lastSet, foldl_append]
  rfl

variable {sets : List (BitVec 32 × Option Bytes)}

theorem mem_of_lastSet {value : Bytes} (h : lastSet sets name = some value) : name ∈ sets.map Prod.fst := by
  induction sets using reverseRecOn with
  | nil => cases h
  | append_singleton sets set ih =>
    obtain ⟨other, otherValue⟩ := set
    rw [lastSet_concat] at h
    by_cases hname : name = other
    · simp [hname]
    · rw [Function.update_of_ne hname] at h
      rw [map_append]
      exact mem_append_left _ (ih h)

namespace StoresLast

variable {sets : List (BitVec 32 × Option Bytes)} {t : SortedTable Int Bytes}

section
variable (h : StoresLast sets t)
include h

theorem set (name : BitVec 32) (value : Option Bytes) : StoresLast (sets ++ [(name, value)])
      (match value with | some value => t.insert name.toInt value | none => t.erase name.toInt) := by
  cases value with
  | none =>
    refine ⟨fun other => ?_, fun e he => h.names e (t.mem_erase.mp he).1⟩
    rw [lastSet_concat]
    by_cases hother : other = name
    · rw [hother, Function.update_self, t.lookup_erase_self]
    · rw [Function.update_of_ne hother, t.lookup_erase_of_ne (fun heq => hother (BitVec.eq_of_toInt_eq heq)), h.lookup]
  | some value =>
    refine ⟨fun other => ?_, fun e he => ?_⟩
    · rw [lastSet_concat]
      by_cases hother : other = name
      · rw [hother, Function.update_self, t.lookup_insert_self]
      · rw [Function.update_of_ne hother, t.lookup_insert_of_ne (fun heq => hother (BitVec.eq_of_toInt_eq heq)), h.lookup]
    · rcases t.mem_insert.mp he with rfl | ⟨hm, -⟩
      · rw [nameOf, BitVec.ofInt_toInt]
      · exact h.names e hm

theorem mem_entries {value : Bytes} (hval : lastSet sets name = some value) :
    ∃ e ∈ t.entries, nameOf e = (name, value) := by
  refine ⟨(name.toInt, value), t.lookup_eq_some.mp ((h.lookup name).trans hval), ?_⟩
  rw [nameOf, BitVec.ofInt_toInt]

theorem lastSet_nameOf {e : Int × Bytes} (he : e ∈ t.entries) : lastSet sets (nameOf e).1 = some e.2 := by
  rw [← h.lookup, ← h.names e he]
  exact t.lookup_eq_some.mpr he

theorem pairwise_names : t.entries.Pairwise fun a b => (nameOf a).1 ≠ (nameOf b).1 := by
  refine t.sorted.imp_of_mem fun {a b} ha hb hlt heq => ?_
  rw [h.names a ha, h.names b hb, heq] at hlt
  exact lt_irrefl _ hlt

theorem length_writeProperties_le : (writeProperties t).length ≤ totalSize sets := by
  set names := t.entries.map fun e => (nameOf e).1 with hnames
  have hnd : names.Nodup := pairwise_map.mpr h.pairwise_names
  have hbs : (t.entries.flatMap writeEntry).length = ∑ name ∈ names.toFinset, propertySize (lastSet sets name) := by
    rw [sum_toFinset _ hnd, hnames, map_map, length_flatMap]
    congr 1
    apply map_congr_left
    intro e he
    rw [Function.comp_apply, h.lastSet_nameOf he]
    simp only [writeEntry, propertySize, length_append, length_leBits]
  have hsubset : names.toFinset ⊆ (sets.map Prod.fst).toFinset := by
    intro name hname
    obtain ⟨e, he, rfl⟩ := mem_map.mp (mem_toFinset.mp hname)
    exact mem_toFinset.mpr (mem_of_lastSet (h.lastSet_nameOf he))
  have hsum := Finset.sum_le_sum_of_subset (f := fun name => propertySize (lastSet sets name)) hsubset
  unfold writeProperties totalSize
  rw [length_append, hbs]
  simp only [length_append, length_leBits]
  omega

end

end StoresLast

theorem entries_lt (t : SortedTable Int Bytes) :
    t.entries.length ≤ (writeProperties t).length ∧ ∀ e ∈ t.entries, e.2.length ≤ (writeProperties t).length := by
  have htotal : (writeProperties t).length = 8 + (t.entries.map fun e => (writeEntry e).length).sum := by
    simp only [writeProperties, length_append, length_leBits, length_flatMap]
  rw [htotal]
  constructor
  · have hone := length_le_sum_of_one_le (t.entries.map fun e => (writeEntry e).length) (by
      intro n hn
      obtain ⟨e, -, rfl⟩ := mem_map.mp hn
      simp only [writeEntry, length_append, length_leBits]
      omega)
    rw [length_map] at hone
    omega
  · intro e he
    have hle := le_sum_of_mem (mem_map_of_mem (f := fun e => (writeEntry e).length) he)
    have hval : e.2.length ≤ (writeEntry e).length := by
      simp only [writeEntry, length_append]
      omega
    omega

theorem insertNew_concat {e : Int × Bytes} (hkey : e.1 = (nameOf e).1.toInt)
    (hsorted : (entries ++ [e]).Pairwise fun a b => a.1 < b.1) :
    insertNew ⟨entries, (pairwise_append.mp hsorted).1⟩ (nameOf e) = ⟨entries ++ [e], hsorted⟩ := by
  have hbelow (a : Int × Bytes) (ha : a ∈ entries) : a.1 < e.1 :=
    (pairwise_append.mp hsorted).2.2 a ha e (mem_singleton_self e)
  have hnone : SortedTable.lookup ⟨entries, (pairwise_append.mp hsorted).1⟩ (nameOf e).1.toInt = none := by
    rw [SortedTable.lookup_eq_none, ← hkey]
    exact fun a ha => ne_of_lt (hbelow a ha)
  unfold insertNew
  rw [hnone, if_neg (by simp), ← hkey]
  unfold SortedTable.insert
  congr 1
  rw [filter_eq_self.mpr fun a ha => decide_eq_true (hbelow a ha),
    filter_eq_nil_iff.mpr fun a ha => by simpa using (hbelow a ha).le]
  rfl

theorem foldl_insertNew (hkeys : ∀ e ∈ entries, e.1 = (nameOf e).1.toInt)
    (hsorted : entries.Pairwise fun a b => a.1 < b.1) :
    (entries.map nameOf).foldl insertNew .empty = ⟨entries, hsorted⟩ := by
  induction entries using reverseRecOn with
  | nil => rfl
  | append_singleton entries e ih =>
    have hbefore := ih (fun a ha => hkeys a (mem_append_left _ ha)) (pairwise_append.mp hsorted).1
    rw [map_append, foldl_append, hbefore]
    exact insertNew_concat (hkeys e (mem_append_right _ (mem_singleton_self e))) hsorted

/-! ## All calls -/

theorem propertyOf_of_reads (h : Reads (do let count ← readCount; findProperty name count) x found) (rest : Bytes)
    (hsize : x.length < 2 ^ 31) : propertyOf (some (some (x ++ rest))) name = .ok found := by
  have hrun := h.run rest (lt_trans hsize (by decide))
  unfold propertyOf
  dsimp only
  rw [hrun]
  rfl

namespace StoresLast

variable {sets : List (BitVec 32 × Option Bytes)} {t : SortedTable Int Bytes}

/-- **The map is read back.** -/
theorem reads_readProperties (h : StoresLast sets t) (hsize : (writeProperties t).length < 2 ^ 31) :
    Reads readProperties (writeProperties t) t := by
  obtain ⟨hcnt, hvalues⟩ := entries_lt t
  have hsame (e : Int × Bytes) (he : e ∈ t.entries) : ((nameOf e).1.toInt, (nameOf e).2) = e :=
    Prod.ext (h.names e he).symm rfl
  have hentries := Reads.repeatM (p := readEntry) (e := fun e => writeEntry (e.1.toInt, e.2)) (t.entries.map nameOf) (by
    intro named hnamed
    obtain ⟨e, he, rfl⟩ := mem_map.mp hnamed
    have hread : Reads readEntry (writeEntry e) (nameOf e) := reads_readEntry (lt_of_le_of_lt (hvalues e he) hsize)
    rwa [hsame e he])
  have hbs : (t.entries.map nameOf).flatMap (fun e => writeEntry (e.1.toInt, e.2)) = t.entries.flatMap writeEntry := by
    rw [flatMap_map]
    exact flatMap_congr fun e he => congrArg writeEntry (hsame e he)
  rw [hbs, length_map] at hentries
  have hmap := hentries.bind_pure fun entries => entries.foldl insertNew .empty
  rw [foldl_insertNew h.names t.sorted] at hmap
  exact (reads_readCount (lt_of_le_of_lt hcnt hsize)).bind hmap

/-- **What is found** is the value that was set last. -/
theorem propertyOf_writeProperties (h : StoresLast sets t) (hsize : (writeProperties t).length < 2 ^ 31) (name : BitVec 32) :
    propertyOf (some (some (writeProperties t))) name = .ok (lastSet sets name) := by
  obtain ⟨hcnt, hvalues⟩ := entries_lt t
  have hread := reads_readCount (lt_of_le_of_lt hcnt hsize)
  have hlen (e : Int × Bytes) (he : e ∈ t.entries) : e.2.length < 2 ^ 31 := lt_of_le_of_lt (hvalues e he) hsize
  cases hval : lastSet sets name with
  | none =>
    have hother (e : Int × Bytes) (he : e ∈ t.entries) : (nameOf e).1 ≠ name := by
      intro hname
      have hlast := h.lastSet_nameOf he
      rw [hname, hval] at hlast
      cases hlast
    have hnone := hread.bind (reads_findProperty_none fun e he => ⟨hlen e he, hother e he⟩)
    have hfound := propertyOf_of_reads hnone [] (lt_of_eq_of_lt rfl hsize)
    rwa [append_nil] at hfound
  | some value =>
    obtain ⟨e, he, hname⟩ := h.mem_entries hval
    obtain ⟨before, after, hsplit⟩ := append_of_mem he
    have hnames := h.pairwise_names
    rw [hsplit, pairwise_append] at hnames
    have hbefore (e' : Int × Bytes) (he' : e' ∈ before) : e'.2.length < 2 ^ 31 ∧ (nameOf e').1 ≠ (nameOf e).1 :=
      ⟨hlen e' (hsplit ▸ mem_append_left _ he'), hnames.2.2 e' he' e mem_cons_self⟩
    have hfind := reads_findProperty after hbefore (hlen e he)
    have hbs : writeProperties t = (leBits (0 : BitVec 32) ++ leBits (BitVec.ofNat 32 t.entries.length) ++
        (before.flatMap writeEntry ++ writeEntry e)) ++ after.flatMap writeEntry := by
      unfold writeProperties
      rw [hsplit, flatMap_append, flatMap_cons]
      simp only [append_assoc]
    have hle := congrArg List.length hbs
    rw [length_append] at hle
    obtain ⟨rfl, rfl⟩ := Prod.mk.inj hname
    rw [← hsplit] at hfind
    rw [hbs]
    exact propertyOf_of_reads (hread.bind hfind) _ (by omega)

end StoresLast

def Stored (sets : List (BitVec 32 × Option Bytes)) (row : PropertiesRow) : Prop :=
  (sets = [] ∧ (row = none ∨ row = some none)) ∨ ∃ t, StoresLast sets t ∧ row = some (some (writeProperties t))

theorem storesLast_nil : StoresLast [] .empty := ⟨fun _ => rfl, fun _ h => absurd h not_mem_nil⟩

variable {row : PropertiesRow}

/-- **One call.** -/
theorem stored_set (h : Stored sets row) (hsize : totalSize sets < 2 ^ 31) (name : BitVec 32) (value : Option Bytes) :
    ∃ row', setConversationCustomProperty row name value = .ok row' ∧ Stored (sets ++ [(name, value)]) row' := by
  unfold setConversationCustomProperty
  rcases h with ⟨rfl, rfl | rfl⟩ | ⟨t, ht, rfl⟩
  · exact ⟨_, rfl, .inr ⟨_, storesLast_nil.set name value, rfl⟩⟩
  · exact ⟨_, rfl, .inr ⟨_, storesLast_nil.set name value, rfl⟩⟩
  · have hlen := lt_of_le_of_lt ht.length_writeProperties_le hsize
    have hrun := (ht.reads_readProperties hlen).run [] (lt_trans hlen (by decide))
    rw [append_nil] at hrun
    dsimp only
    rw [hrun]
    exact ⟨_, rfl, .inr ⟨_, ht.set name value, rfl⟩⟩

/-- **All calls.** -/
theorem stored_setProperties (hrow : row = none ∨ row = some none) (sets : List (BitVec 32 × Option Bytes))
    (hsize : ∀ before after, sets = before ++ after → totalSize before < 2 ^ 31) :
    ∃ row', setProperties row sets = .ok row' ∧ Stored sets row' := by
  induction sets using reverseRecOn with
  | nil => exact ⟨row, rfl, .inl ⟨rfl, hrow⟩⟩
  | append_singleton sets set ih =>
    obtain ⟨row', hrun, hstor⟩ := ih fun before after h => hsize before (after ++ [set]) (by rw [h, append_assoc])
    obtain ⟨row'', hset, hstored'⟩ := stored_set hstor (hsize sets [set] rfl) set.1 set.2
    refine ⟨row'', ?_, hstored'⟩
    rw [setProperties, foldlM_append, ← setProperties, hrun]
    show (setConversationCustomProperty row' set.1 set.2 >>= fun row => List.foldlM _ row []) = _
    rw [hset]
    rfl

/-- **The custom properties are a map**: after any calls each name has the value that it was given last, if it was given
one, whatever the other names were given. -/
theorem customProperties_map {row : PropertiesRow} (hrow : row = none ∨ row = some none)
    (sets : List (BitVec 32 × Option Bytes)) (hsize : ∀ before after, sets = before ++ after → totalSize before < 2 ^ 31) :
    ∃ row', setProperties row sets = .ok row' ∧
      ∀ name, conversationCustomPropertySync row' name = .ok (lastSet sets name) ∧
        conversationCustomProperty row' name = .ok (lastSet sets name) := by
  obtain ⟨row', hrun, hstored⟩ := stored_setProperties hrow sets hsize
  have hvalue (name : BitVec 32) : propertyOf row' name = .ok (lastSet sets name) := by
    rcases hstored with ⟨rfl, rfl | rfl⟩ | ⟨t, ht, rfl⟩
    · rfl
    · rfl
    · exact ht.propertyOf_writeProperties
        (lt_of_le_of_lt ht.length_writeProperties_le (hsize sets [] (append_nil sets).symm)) name
  exact ⟨row', hrun, fun name => ⟨hvalue name, hvalue name⟩⟩

/-- Two names, one of which is given another value and the other none. -/
theorem customProperties_map_two :
    ∃ row', setProperties none [(1, some [7]), (2, some []), (1, some [8, 9]), (2, none)] = .ok row' ∧
      ∀ name, conversationCustomPropertySync row' name =
          .ok (lastSet [(1, some [7]), (2, some []), (1, some [8, 9]), (2, none)] name) ∧
        conversationCustomProperty row' name =
          .ok (lastSet [(1, some [7]), (2, some []), (1, some [8, 9]), (2, none)] name) :=
  customProperties_map (Or.inl rfl) _ fun before after h => by
    have hsizes : ∀ sets ∈ List.inits [((1 : BitVec 32), some ([7] : Bytes)), (2, some []), (1, some [8, 9]), (2, none)],
        totalSize sets < 2 ^ 31 := by decide
    exact hsizes before ((mem_inits _ _).mpr ⟨after, h.symm⟩)

end TelegramClient.Database
