import Mathlib.Data.List.Find
import TelegramClient.Contacts.PhonebookSync

/-!
# The entries that a run keeps

* `phonebook`, `InPhonebook`, `entryOf` : the entries that a run keeps, the numbers and their entries.
-/

namespace TelegramClient.Contacts
open List
open PhonebookEntry (bindingHash exportId)

/-! ## The phone book -/

def phonebook (people : List ABRecord) : KeyedTable PhonebookEntry.phoneId := KeyedTable.insertAll .empty (entries people)

def InPhonebook (people : List ABRecord) (number : String) : Prop := ∃ entry ∈ entries people, entry.phoneNumber = number

instance (people : List ABRecord) (number : String) : Decidable (InPhonebook people number) :=
  inferInstanceAs (Decidable (∃ entry ∈ entries people, entry.phoneNumber = number))

def entryOf (people : List ABRecord) (number : String) : Option PhonebookEntry :=
  (entries people).find? fun entry => entry.phoneNumber = number

namespace TGUser

def number (user : TGUser) : String := cleanPhone (user.phone.getD "")

/-- The number was in the previous phone book and is not in the new one. -/
def HasLeft (previous people : List ABRecord) (user : TGUser) : Prop :=
  InPhonebook previous user.number ∧ ¬InPhonebook people user.number

end TGUser

/-! ## What is hashed -/

def occurringNumbers (previous people : List ABRecord) (known : KnownUsers) : List String :=
  (entries previous ++ entries people).map PhonebookEntry.phoneNumber ++
    (known.userByUid.rows.filter fun user => user.phone.isSome).map TGUser.number

def occurringTexts (previous people : List ABRecord) (known : KnownUsers) : List String :=
  (entries previous ++ entries people).flatMap (fun entry => [entry.phoneNumber, entry.exportString]) ++
    (known.userByUid.rows.filter fun user => user.phone.isSome).map fun user => matchText user.number

structure HashesDistinguish (previous people : List ABRecord) (known : KnownUsers) : Prop where
  numbers : ∀ a ∈ occurringNumbers previous people known, ∀ b ∈ occurringNumbers previous people known,
    phoneMatchHash a = phoneMatchHash b → a = b
  texts : ∀ a ∈ occurringTexts previous people known, ∀ b ∈ occurringTexts previous people known,
    murMurHash32 a = murMurHash32 b → a = b
  numbers_ne_zero : ∀ a ∈ occurringNumbers previous people known, phoneMatchHash a ≠ 0
  texts_ne_zero : ∀ a ∈ occurringTexts previous people known, murMurHash32 a ≠ 0

/-! ## Entries -/

variable {people : List ABRecord} {entry : PhonebookEntry}

theorem mem_entries (h : entry ∈ entries people) :
    cleanPhone entry.phoneNumber = entry.phoneNumber ∧ entry.phoneNumber ≠ "" := by
  obtain ⟨person, -, hentry⟩ := mem_flatMap.mp h
  obtain ⟨number, hnum, rfl⟩ := mem_map.mp hentry
  obtain ⟨hphone, hne⟩ := mem_filter.mp hnum
  obtain ⟨phone, -, hclean⟩ := mem_filterMap.mp hphone
  obtain ⟨raw, rfl, rfl⟩ := Option.map_eq_some_iff.mp hclean
  exact ⟨cleanPhone_cleanPhone raw, by simpa using hne⟩

theorem mem_phonebook :
    entry ∈ (phonebook people).rows ↔ (entries people).find? (fun other => other.phoneId = entry.phoneId) = some entry :=
  KeyedTable.mem_insertAll_empty

theorem mem_entries_of_phonebook (h : entry ∈ (phonebook people).rows) : entry ∈ entries people :=
  mem_of_find?_eq_some (mem_phonebook.mp h)

/-! ## The pass over the entries -/

section
variable (currentBindings : StdMap Int32 TGContactBinding) (isContact : Int32 → Bool)

def keepEntries (s : Scan) (kept : List PhonebookEntry) : Scan := kept.foldl (keepEntry currentBindings isContact) s

variable (s : Scan) (kept : List PhonebookEntry)

variable (phoneId : Int32)

@[simp] theorem mem_phoneIdSet_keepEntries :
    phoneId ∈ (keepEntries currentBindings isContact s kept).newPhonebookPhoneIdSet ↔
      phoneId ∈ s.newPhonebookPhoneIdSet ∨ ∃ entry ∈ kept, entry.phoneId = phoneId := by
  induction kept generalizing s with
  | nil => simp [keepEntries]
  | cons entry kept ih =>
    change phoneId ∈ (keepEntries currentBindings isContact (keepEntry currentBindings isContact s entry) kept).newPhonebookPhoneIdSet ↔ _
    rw [ih]
    simp only [keepEntry, mem_insert_iff, exists_mem_cons_iff]
    grind

theorem foldl_scanEntry (t : KeyedTable PhonebookEntry.phoneId) (rest : List PhonebookEntry) :
    rest.foldl (scanEntry currentBindings isContact) (keepEntries currentBindings isContact initScan t.rows) =
      keepEntries currentBindings isContact initScan (t.insertAll rest).rows := by
  induction rest generalizing t with
  | nil => rfl
  | cons entry rest ih =>
    have hstep : scanEntry currentBindings isContact (keepEntries currentBindings isContact initScan t.rows) entry =
        keepEntries currentBindings isContact initScan (t.insertOrIgnore entry).rows := by
      have hset : entry.phoneId ∈ (keepEntries currentBindings isContact initScan t.rows).newPhonebookPhoneIdSet ↔
          t.Has entry.phoneId := by simp [initScan, KeyedTable.Has]
      by_cases hold : t.Has entry.phoneId
      · have hfound : t.find entry.phoneId ≠ none := by simpa [KeyedTable.find_eq_none_iff_not_has] using hold
        rw [scanEntry, if_pos (hset.mpr hold), KeyedTable.insertOrIgnore, dif_neg hfound]
      · have hnew : t.find entry.phoneId = none := KeyedTable.find_eq_none_iff_not_has.mpr hold
        rw [scanEntry, if_neg (fun hm => hold (hset.mp hm)), KeyedTable.insertOrIgnore, dif_pos hnew]
        simp [keepEntries]
    rw [foldl_cons, hstep]
    exact ih (t.insertOrIgnore entry)

theorem scan_eq (people : List ABRecord) :
    scan currentBindings isContact people = keepEntries currentBindings isContact initScan (phonebook people).rows :=
  foldl_scanEntry currentBindings isContact .empty (entries people)

/-! The collections after the entries `kept`. -/

theorem phonebookState_keepEntries :
    (keepEntries currentBindings isContact s kept).newPhonebookState = s.newPhonebookState ++ kept.map PhonebookEntry.phoneId := by
  induction kept generalizing s with
  | nil => simp [keepEntries]
  | cons entry kept ih =>
    refine (ih (keepEntry currentBindings isContact s entry)).trans ?_
    simp [keepEntry]

theorem exportState_keepEntries :
    (keepEntries currentBindings isContact s kept).newExportState = s.newExportState ++ kept.map exportId := by
  induction kept generalizing s with
  | nil => simp [keepEntries]
  | cons entry kept ih =>
    refine (ih (keepEntry currentBindings isContact s entry)).trans ?_
    simp [keepEntry]

theorem bindings_keepEntries :
    (keepEntries currentBindings isContact s kept).newBindings = s.newBindings ++ kept.map PhonebookEntry.binding := by
  induction kept generalizing s with
  | nil => simp [keepEntries]
  | cons entry kept ih =>
    refine (ih (keepEntry currentBindings isContact s entry)).trans ?_
    simp [keepEntry]

theorem exportIds_keepEntries : (keepEntries currentBindings isContact s kept).newExportIdToPhoneId =
      s.newExportIdToPhoneId.insertAll (kept.map fun entry => (entry.exportId, entry.phoneId)) := by
  induction kept generalizing s with
  | nil => rfl
  | cons entry kept ih => exact ih (keepEntry currentBindings isContact s entry)

theorem mem_explicitExport_keepEntries : phoneId ∈ (keepEntries currentBindings isContact s kept).explicitExport ↔
      phoneId ∈ s.explicitExport ∨ (∃ entry ∈ kept, entry.phoneId = phoneId) ∧ isContact phoneId = false := by
  induction kept generalizing s with
  | nil => simp [keepEntries]
  | cons entry kept ih =>
    refine (ih (keepEntry currentBindings isContact s entry)).trans ?_
    simp only [keepEntry, exists_mem_cons_iff]
    split
    · grind
    · simp only [mem_insert_iff]
      grind

/-- Two bindings with first names are never found equal. -/
theorem equalsToContactBinding_of_isSome {binding another : TGContactBinding} (h : binding.firstName.isSome)
    (h' : another.firstName.isSome) : binding.equalsToContactBinding another = false := by
  obtain ⟨name, hname⟩ := Option.isSome_iff_exists.mp h
  obtain ⟨other, hother⟩ := Option.isSome_iff_exists.mp h'
  simp [TGContactBinding.equalsToContactBinding, differsFrom, hname, hother]

theorem changedBindings_keepEntries (h : ∀ row ∈ currentBindings.rows, row.2.firstName.isSome) (s : Scan)
    (kept : List PhonebookEntry) : (keepEntries currentBindings isContact s kept).changedBindings =
      s.changedBindings.insertAll (kept.map fun entry => (entry.bindingHash, some entry.binding)) := by
  induction kept generalizing s with
  | nil => rfl
  | cons entry kept ih =>
    have hchanged : (currentBindings.lookup entry.bindingHash).any (fun old => old.equalsToContactBinding entry.binding) = false := by
      cases hold : currentBindings.lookup entry.bindingHash with
      | none => rfl
      | some old =>
        obtain ⟨row, hrow, rfl⟩ := Option.map_eq_some_iff.mp hold
        exact equalsToContactBinding_of_isSome (h row (KeyedTable.find_eq_some.mp hrow).1) rfl
    refine (ih (keepEntry currentBindings isContact s entry)).trans ?_
    simp only [keepEntry, hchanged]
    rfl

end

/-! ## Different hashes -/

namespace HashesDistinguish

variable {previous people : List ABRecord} {known : KnownUsers}

variable {entry other : PhonebookEntry}

theorem phoneId_inj (h : HashesDistinguish previous people known)
    (hentry : entry ∈ entries previous ++ entries people) (hother : other ∈ entries previous ++ entries people) :
    entry.phoneId = other.phoneId ↔ entry.phoneNumber = other.phoneNumber := by
  constructor
  · exact h.numbers _ (mem_append_left _ (mem_map_of_mem hentry)) _ (mem_append_left _ (mem_map_of_mem hother))
  · intro hsame
    rw [PhonebookEntry.phoneId, hsame, PhonebookEntry.phoneId]

theorem phoneId_ne_zero (h : HashesDistinguish previous people known)
    (hentry : entry ∈ entries previous ++ entries people) : entry.phoneId ≠ 0 :=
  h.numbers_ne_zero _ (mem_append_left _ (mem_map_of_mem hentry))

theorem mem_texts (hentry : entry ∈ entries previous ++ entries people) :
    entry.phoneNumber ∈ occurringTexts previous people known ∧ entry.exportString ∈ occurringTexts previous people known :=
  ⟨mem_append_left _ (mem_flatMap.mpr ⟨entry, hentry, by simp⟩),
    mem_append_left _ (mem_flatMap.mpr ⟨entry, hentry, by simp⟩)⟩

section
variable (h : HashesDistinguish previous people known) (hentry : entry ∈ entries previous ++ entries people)
include h hentry

theorem bindingHash_inj (hother : other ∈ entries previous ++ entries people) :
    entry.bindingHash = other.bindingHash ↔ entry.phoneNumber = other.phoneNumber := by
  constructor
  · exact h.texts _ (mem_texts hentry).1 _ (mem_texts hother).1
  · intro hsame
    rw [bindingHash, hsame, bindingHash]

theorem exportId_inj (hother : other ∈ entries previous ++ entries people) :
    entry.exportId = other.exportId ↔ entry.exportString = other.exportString := by
  constructor
  · exact h.texts _ (mem_texts hentry).2 _ (mem_texts hother).2
  · intro hsame
    rw [exportId, hsame, exportId]

theorem exportId_ne_zero : entry.exportId ≠ 0 :=
  h.texts_ne_zero _ (mem_texts hentry).2

end

end HashesDistinguish

theorem contactId_eq {user : TGUser} (hphone : user.phone.isSome) : user.contactId = phoneMatchHash user.number := by
  obtain ⟨phone, hphone⟩ := Option.isSome_iff_exists.mp hphone
  simp [TGUser.contactId, TGUser.number, hphone]

namespace HashesDistinguish

variable {previous people : List ABRecord} {known : KnownUsers} {user : TGUser}

theorem mem_numbers (huser : user ∈ known.userByUid.rows) (hphone : user.phone.isSome) :
    user.number ∈ occurringNumbers previous people known :=
  mem_append_right _ (mem_map_of_mem (mem_filter.mpr ⟨huser, hphone⟩))

section
variable (h : HashesDistinguish previous people known) (huser : user ∈ known.userByUid.rows)
include h huser

section
variable (hphone : user.phone.isSome)
include hphone

theorem contactId_ne_zero : user.contactId ≠ 0 := by
  rw [contactId_eq hphone]
  exact h.numbers_ne_zero _ (mem_numbers huser hphone)

theorem contactId_inj {other : TGUser} (hother : other ∈ known.userByUid.rows) (hotherPhone : other.phone.isSome) :
    user.contactId = other.contactId ↔ user.number = other.number := by
  rw [contactId_eq hphone, contactId_eq hotherPhone]
  exact ⟨h.numbers _ (mem_numbers huser hphone) _ (mem_numbers hother hotherPhone), congrArg phoneMatchHash⟩

theorem contactId_eq_phoneId (hentry : entry ∈ entries previous ++ entries people) :
    user.contactId = entry.phoneId ↔ user.number = entry.phoneNumber := by
  rw [contactId_eq hphone]
  exact ⟨h.numbers _ (mem_numbers huser hphone) _ (mem_append_left _ (mem_map_of_mem hentry)), congrArg phoneMatchHash⟩

theorem contactId_eq_bindingHash (hentry : entry ∈ entries previous ++ entries people) :
    user.contactId = entry.bindingHash ↔ user.number = entry.phoneNumber ∧ user.number.length ≤ 8 := by
  have hclean : cleanPhone user.number = user.number := cleanPhone_cleanPhone _
  have hshort := matchText_eq_cleanPhone_iff user.number
  rw [hclean] at hshort
  rw [contactId_eq hphone, phoneMatchHash_eq]
  constructor
  · intro heq
    have htext : matchText user.number = entry.phoneNumber :=
      h.texts _ (mem_append_right _ (mem_map.mpr ⟨user, mem_filter.mpr ⟨huser, hphone⟩, rfl⟩)) _
        (mem_texts hentry).1 heq
    have hlen : entry.phoneNumber.length ≤ 8 := by
      rw [← htext, matchText, String.length_ofList]
      exact length_matchDigits_le user.number
    have hentryShort : matchText entry.phoneNumber = entry.phoneNumber := by
      have hentryClean : cleanPhone entry.phoneNumber = entry.phoneNumber := by
        rcases mem_append.mp hentry with hm | hm
        · exact (mem_entries hm).1
        · exact (mem_entries hm).1
      have := (matchText_eq_cleanPhone_iff entry.phoneNumber).mpr (by rwa [hentryClean])
      rwa [hentryClean] at this
    have hsame : user.number = entry.phoneNumber := by
      refine (h.contactId_eq_phoneId huser hphone hentry).mp ?_
      rw [contactId_eq hphone, phoneMatchHash_eq, htext, PhonebookEntry.phoneId, phoneMatchHash_eq, hentryShort]
    exact ⟨hsame, by rwa [hsame]⟩
  · rintro ⟨hsame, hlen⟩
    rw [hshort.mpr hlen, hsame]
    rfl

end

end

end HashesDistinguish

/-! ## The kept entries by their numbers -/

namespace HashesDistinguish

variable {previous people book : List ABRecord} {known : KnownUsers}

section
variable (h : HashesDistinguish previous people known) (hbook : entries book ⊆ entries previous ++ entries people)
include h hbook

theorem mem_phonebook_iff (hentry : entry ∈ entries book) :
    entry ∈ (phonebook book).rows ↔ entryOf book entry.phoneNumber = some entry := by
  rw [mem_phonebook, entryOf]
  refine iff_of_eq (congrArg (· = some entry) (find?_congr fun other hother => ?_))
  rw [decide_eq_decide]
  exact h.phoneId_inj (hbook hother) (hbook hentry)

variable {number : String}

theorem entryOf_eq_some :
    entryOf book number = some entry ↔ entry ∈ (phonebook book).rows ∧ entry.phoneNumber = number := by
  constructor
  · intro hfind
    have hnum : entry.phoneNumber = number := by simpa using find?_some hfind
    subst hnum
    exact ⟨(h.mem_phonebook_iff hbook (mem_of_find?_eq_some hfind)).mpr hfind, rfl⟩
  · rintro ⟨hm, rfl⟩
    exact (h.mem_phonebook_iff hbook (mem_entries_of_phonebook hm)).mp hm

theorem inPhonebook_iff : InPhonebook book number ↔ ∃ entry ∈ (phonebook book).rows, entry.phoneNumber = number := by
  constructor
  · rintro ⟨entry, hentry, hnum⟩
    obtain ⟨first, hfirst⟩ : ∃ first, entryOf book number = some first :=
      Option.isSome_iff_exists.mp (find?_isSome.mpr ⟨entry, hentry, decide_eq_true hnum⟩)
    exact ⟨first, (h.entryOf_eq_some hbook).mp hfirst⟩
  · rintro ⟨entry, hentry, hnum⟩
    exact ⟨entry, mem_entries_of_phonebook hentry, hnum⟩

theorem nodup_bindingHash : ((phonebook book).rows.map bindingHash).Nodup := by
  refine List.Nodup.map_on (fun entry hentry other hother hsame => ?_) (List.Nodup.of_map _ (phonebook book).nodup)
  have hnum := (h.bindingHash_inj (hbook (mem_entries_of_phonebook hentry)) (hbook (mem_entries_of_phonebook hother))).mp hsame
  exact (phonebook book).eq_of_key hentry hother (congrArg phoneMatchHash hnum)

end

end HashesDistinguish

theorem entryOf_eq_none {number : String} : entryOf people number = none ↔ ¬InPhonebook people number := by
  simp [entryOf, InPhonebook]

/-! ## What a run leaves -/

section
variable (inhibit : Bool) (known : KnownUsers) (people : List ABRecord) (db : PhonebookState)

theorem contactBindings_synchronize :
    (synchronize inhibit known people db).state.contactBindings.rows = (phonebook people).rows.map PhonebookEntry.binding := by
  have hids : (((phonebook people).rows.map PhonebookEntry.binding).map TGContactBinding.phoneId).Nodup := by
    rw [map_map]
    exact (phonebook people).nodup
  simp only [synchronize, scanPeople, scan_eq, bindings_keepEntries]
  exact KeyedTable.rows_insertAll hids

theorem phonebookState_synchronize :
    (synchronize inhibit known people db).state.phonebookState = (phonebook people).rows.map PhonebookEntry.phoneId := by
  simp only [synchronize, scanPeople, scan_eq, phonebookState_keepEntries]
  rfl

theorem exportState_synchronize : (synchronize inhibit known people db).state.exportState =
      if inhibit then db.exportState else (phonebook people).rows.map exportId := by
  simp only [synchronize, scanPeople, scan_eq, exportState_keepEntries]
  rfl

end

/-- The bindings and the phone ids that a run over `previous` leaves. -/
structure LeftBy (previous : List ABRecord) (db : PhonebookState) : Prop where
  bindings : db.contactBindings.rows = (phonebook previous).rows.map PhonebookEntry.binding
  phoneIds : db.phonebookState = (phonebook previous).rows.map PhonebookEntry.phoneId

theorem leftBy_synchronize (inhibit : Bool) (known : KnownUsers) (people : List ABRecord) (db : PhonebookState) :
    LeftBy people (synchronize inhibit known people db).state :=
  ⟨contactBindings_synchronize inhibit known people db, phonebookState_synchronize inhibit known people db⟩

/-! ## The changed bindings -/

section
variable {previous people : List ABRecord} {known : KnownUsers} {db : PhonebookState}

section
variable (h : HashesDistinguish previous people known)
include h

theorem currentBindings_rows (hdb : LeftBy previous db) :
    (loadCurrentBindings db).rows = (phonebook previous).rows.map fun entry => (entry.bindingHash, entry.binding) := by
  have hrows : (db.contactBindings.rows.filterMap fun binding =>
      (binding.phoneNumber.filter fun number => number ≠ "").map fun number => (murMurHash32 number, binding)) =
      (phonebook previous).rows.map fun entry => (entry.bindingHash, entry.binding) := by
    rw [hdb.bindings, filterMap_map, ← filterMap_eq_map]
    refine filterMap_congr fun entry hentry => ?_
    have hne : entry.phoneNumber ≠ "" := (mem_entries (mem_entries_of_phonebook hentry)).2
    simp [PhonebookEntry.binding, bindingHash, hne]
  have hkeys : (((phonebook previous).rows.map fun entry => (entry.bindingHash, entry.binding)).map Prod.fst).Nodup := by
    rw [map_map]
    exact h.nodup_bindingHash (subset_append_left _ _)
  rw [loadCurrentBindings, hrows]
  exact KeyedTable.rows_insertAll hkeys

theorem mem_newPhoneIds (hentry : entry ∈ entries previous ++ entries people) :
    entry.phoneId ∈ (scanPeople known people db).newPhonebookPhoneIdSet ↔ InPhonebook people entry.phoneNumber := by
  rw [scanPeople, scan_eq, mem_phoneIdSet_keepEntries, h.inPhonebook_iff (subset_append_right _ _)]
  constructor
  · rintro (hinit | ⟨other, hother, hsame⟩)
    · exact absurd hinit not_mem_nil
    · exact ⟨other, hother, (h.phoneId_inj (mem_append_right _ (mem_entries_of_phonebook hother)) hentry).mp hsame⟩
  · rintro ⟨other, hother, hsame⟩
    exact .inr ⟨other, hother, congrArg phoneMatchHash hsame⟩

theorem mem_changedBindings (hdb : LeftBy previous db) {k : Int32} {v : Option TGContactBinding} :
    (k, v) ∈ (changedBindings known people db).rows ↔
      (∃ entry ∈ (phonebook people).rows, entry.bindingHash = k ∧ some entry.binding = v) ∨
      ∃ entry ∈ (phonebook previous).rows, ¬InPhonebook people entry.phoneNumber ∧ entry.bindingHash = k ∧ none = v := by
  have hcur := currentBindings_rows h hdb
  have hnames : ∀ row ∈ (loadCurrentBindings db).rows, row.2.firstName.isSome := by
    intro row hrow
    rw [hcur] at hrow
    obtain ⟨entry, -, rfl⟩ := mem_map.mp hrow
    rfl
  let new := (phonebook people).rows.map fun entry => (entry.bindingHash, some entry.binding)
  let gone := ((phonebook previous).rows.filter fun entry => ¬InPhonebook people entry.phoneNumber).map fun entry =>
    (entry.bindingHash, (none : Option TGContactBinding))
  have hgone : ((loadCurrentBindings db).rows.filter fun row =>
      row.2.phoneId ∉ (scanPeople known people db).newPhonebookPhoneIdSet).map (fun row => (row.1, none)) = gone := by
    rw [hcur, filter_map, map_map]
    refine congrArg (List.map _) (filter_congr fun entry hentry => ?_)
    simp only [Function.comp_apply, decide_eq_decide]
    exact not_congr (mem_newPhoneIds h (mem_append_left _ (mem_entries_of_phonebook hentry)))
  have hkeys : ((new ++ gone).map Prod.fst).Nodup := by
    rw [map_append]
    refine nodup_append.mpr ⟨?_, ?_, ?_⟩
    · rw [map_map]
      exact h.nodup_bindingHash (subset_append_right _ _)
    · rw [map_map]
      exact (h.nodup_bindingHash (subset_append_left _ _)).sublist (filter_sublist.map _)
    · rintro _ hnew _ hold rfl
      obtain ⟨_, hrow, hkey⟩ := mem_map.mp hnew
      obtain ⟨entry, hentry, rfl⟩ := mem_map.mp hrow
      obtain ⟨_, hrow', hkey'⟩ := mem_map.mp hold
      obtain ⟨other, hother, rfl⟩ := mem_map.mp hrow'
      obtain ⟨hm, hout⟩ := mem_filter.mp hother
      have hsame := (h.bindingHash_inj (mem_append_right _ (mem_entries_of_phonebook hentry))
        (mem_append_left _ (mem_entries_of_phonebook hm))).mp (hkey.trans hkey'.symm)
      exact of_decide_eq_true hout ⟨entry, mem_entries_of_phonebook hentry, hsame⟩
  have hrows : (changedBindings known people db).rows = new ++ gone := by
    have hnew : (scanPeople known people db).changedBindings.rows = new := by
      rw [scanPeople, scan_eq, changedBindings_keepEntries _ _ hnames]
      exact KeyedTable.rows_insertAll (List.Nodup.of_append_left (by rwa [map_append] at hkeys))
    rw [changedBindings, addRemovedBindings, hgone, KeyedTable.rows_insertAll (by rwa [hnew]), hnew]
  rw [hrows, mem_append]
  simp only [new, gone, mem_map, mem_filter, decide_eq_true_eq, Prod.mk.injEq, and_assoc]

theorem lookup_changedBindings (hdb : LeftBy previous db) {user : TGUser} (huser : user ∈ known.userByUid.rows)
    (hphone : user.phone.isSome) {binding : Option TGContactBinding} :
    (changedBindings known people db).lookup user.contactId = some binding ↔
      user.number.length ≤ 8 ∧ ((∃ entry, entryOf people user.number = some entry ∧ some entry.binding = binding) ∨
        user.HasLeft previous people ∧ none = binding) := by
  have hkey : ∀ {book entry}, entries book ⊆ entries previous ++ entries people → entry ∈ (phonebook book).rows →
      (entry.bindingHash = user.contactId ↔ user.number = entry.phoneNumber ∧ user.number.length ≤ 8) := by
    intro book entry hbook hentry
    rw [eq_comm]
    exact h.contactId_eq_bindingHash huser hphone (hbook (mem_entries_of_phonebook hentry))
  rw [StdMap.lookup_eq_some, mem_changedBindings h hdb]
  constructor
  · rintro (⟨entry, hentry, hhash, hbinding⟩ | ⟨entry, hentry, hout, hhash, hbinding⟩)
    · obtain ⟨hnum, hshort⟩ := (hkey (subset_append_right _ _) hentry).mp hhash
      exact ⟨hshort, .inl ⟨entry, (h.entryOf_eq_some (subset_append_right _ _)).mpr ⟨hentry, hnum.symm⟩, hbinding⟩⟩
    · obtain ⟨hnum, hshort⟩ := (hkey (subset_append_left _ _) hentry).mp hhash
      refine ⟨hshort, .inr ⟨⟨⟨entry, mem_entries_of_phonebook hentry, hnum.symm⟩, ?_⟩, hbinding⟩⟩
      rwa [hnum]
  · rintro ⟨hshort, ⟨entry, hentry, hbinding⟩ | ⟨⟨hin, hout⟩, hbinding⟩⟩
    · obtain ⟨hm, hnum⟩ := (h.entryOf_eq_some (subset_append_right _ _)).mp hentry
      exact .inl ⟨entry, hm, (hkey (subset_append_right _ _) hm).mpr ⟨hnum.symm, hshort⟩, hbinding⟩
    · obtain ⟨entry, hm, hnum⟩ := (h.inPhonebook_iff (subset_append_left _ _)).mp hin
      refine .inr ⟨entry, hm, ?_, (hkey (subset_append_left _ _) hm).mpr ⟨hnum.symm, hshort⟩, hbinding⟩
      rwa [hnum]

end

end

end TelegramClient.Contacts
