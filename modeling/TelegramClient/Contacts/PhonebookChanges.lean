import TelegramClient.Contacts.PhonebookScan

/-!
# The changes of the phone book are followed

* `FollowsChanges` : **the second of two runs does what has changed since the first**;
* `phonebookChanges_iff` : **the second run follows the changes exactly when the condition holds**.
-/

namespace TelegramClient.Contacts
open List

namespace TGUser

/-- A copy with the names that the phone book has for the number, if any. -/
def named (people : List ABRecord) (user : TGUser) : TGUser :=
  { user with
    phonebookFirstName := (entryOf people user.number).map PhonebookEntry.firstName
    phonebookLastName := (entryOf people user.number).map PhonebookEntry.lastName }

def NamesDiffer (people : List ABRecord) (user : TGUser) : Prop :=
  user.phonebookFirstName ≠ (user.named people).phonebookFirstName ∨ user.phonebookLastName ≠ (user.named people).phonebookLastName

instance (people : List ABRecord) (user : TGUser) : Decidable (user.NamesDiffer people) :=
  inferInstanceAs (Decidable (_ ∨ _))

end TGUser

structure FollowsChanges (previous people : List ABRecord) (known : KnownUsers) (result : SyncResult) : Prop where
  removed : ∀ uid, .removeContact uid ∈ result.storedActions ↔
    ∃ user ∈ known.userByUid.rows, user.HasLeft previous people ∧ user.uid = uid
  exported : ∀ entry ∈ (phonebook people).rows, entry ∉ (phonebook previous).rows →
    .exportContact entry.phoneId ∈ result.storedActions
  updated : ∀ copy, copy ∈ result.userDataToDispatch ↔
    ∃ user ∈ known.userByUid.rows, user.phone.isSome ∧ user.uid ≠ known.clientUserId ∧ user.NamesDiffer people ∧
      copy = user.named people

/-! ## The users to update -/

section
variable {previous people : List ABRecord} {known : KnownUsers} {db : PhonebookState}

/-- The first of the users in memory with its number. -/
def IsFirst (known : KnownUsers) (user : TGUser) : Prop :=
  known.userByUid.rows.find? (fun other => other.phone.isSome ∧ other.number = user.number) = some user

instance (known : KnownUsers) (user : TGUser) : Decidable (IsFirst known user) :=
  inferInstanceAs (Decidable (_ = _))

variable {user : TGUser}

theorem mem_of_isFirst (h : IsFirst known user) : user ∈ known.userByUid.rows ∧ user.phone.isSome := by
  have hfound : user.phone.isSome ∧ user.number = user.number := by simpa using find?_some h
  exact ⟨mem_of_find?_eq_some h, hfound.1⟩

theorem exists_isFirst (huser : user ∈ known.userByUid.rows) (hphone : user.phone.isSome) :
    ∃ first, IsFirst known first ∧ first.number = user.number := by
  have hsome : (known.userByUid.rows.find? fun other => other.phone.isSome ∧ other.number = user.number).isSome :=
    find?_isSome.mpr ⟨user, huser, by simpa using hphone⟩
  obtain ⟨first, hfirst⟩ := Option.isSome_iff_exists.mp hsome
  have hfound : first.phone.isSome ∧ first.number = user.number := by simpa using find?_some hfirst
  refine ⟨first, ?_, hfound.2⟩
  rwa [IsFirst, hfound.2]

section
variable (h : HashesDistinguish previous people known)
include h

theorem mem_loadCachedUsers (contactIds : List Int32) {contactId : Int32} :
    (contactId, user) ∈ (known.loadCachedUsersWithContactIds contactIds).rows ↔
      user.contactId = contactId ∧ contactId ∈ contactIds ∧ IsFirst known user := by
  have hcongr : user ∈ known.userByUid.rows → user.phone.isSome → user.contactId ∈ contactIds →
      (known.userByUid.rows.filter fun other => other.phone.isSome ∧ other.contactId ∈ contactIds).find?
        (fun other => other.contactId = user.contactId) =
      known.userByUid.rows.find? fun other => other.phone.isSome ∧ other.number = user.number := by
    intro huser hphone hin
    rw [find?_filter]
    refine find?_congr fun other hother => ?_
    simp only [decide_eq_true_eq, decide_eq_decide]
    constructor
    · rintro ⟨⟨hotherPhone, -⟩, hsame⟩
      exact ⟨hotherPhone, (h.contactId_inj hother hotherPhone huser hphone).mp hsame⟩
    · rintro ⟨hotherPhone, hsame⟩
      have hids := (h.contactId_inj hother hotherPhone huser hphone).mpr hsame
      exact ⟨⟨hotherPhone, hids ▸ hin⟩, hids⟩
  rw [KnownUsers.loadCachedUsersWithContactIds, KeyedTable.mem_insertAll_empty, find?_map, Option.map_eq_some_iff]
  constructor
  · rintro ⟨found, hfind, hpair⟩
    obtain ⟨rfl, rfl⟩ := Prod.mk.inj hpair
    obtain ⟨huser, hp⟩ := mem_filter.mp (mem_of_find?_eq_some hfind)
    obtain ⟨hphone, hin⟩ := of_decide_eq_true hp
    exact ⟨rfl, hin, (hcongr huser hphone hin).symm.trans hfind⟩
  · rintro ⟨rfl, hin, hfirst⟩
    obtain ⟨huser, hphone⟩ := mem_of_isFirst hfirst
    exact ⟨user, (hcongr huser hphone hin).trans hfirst, rfl⟩

section
variable (hdb : LeftBy previous db)
include hdb

theorem exists_lookup_changedBindings (huser : user ∈ known.userByUid.rows) (hphone : user.phone.isSome) :
    (∃ binding, (changedBindings known people db).lookup user.contactId = some binding) ↔
      user.number.length ≤ 8 ∧ (InPhonebook people user.number ∨ InPhonebook previous user.number) := by
  simp only [lookup_changedBindings h hdb huser hphone, exists_and_left]
  refine and_congr_right fun _ => ?_
  constructor
  · rintro ⟨binding, ⟨entry, hentry, -⟩ | ⟨hleft, -⟩⟩
    · exact .inl (not_not.mp fun hout => Option.some_ne_none entry (hentry.symm.trans (entryOf_eq_none.mpr hout)))
    · exact .inr hleft.1
  · intro hin
    cases hentry : entryOf people user.number with
    | some entry => exact ⟨some entry.binding, .inl ⟨entry, rfl, rfl⟩⟩
    | none =>
      have hout := entryOf_eq_none.mp hentry
      exact ⟨none, .inr ⟨⟨hin.resolve_left hout, hout⟩, rfl⟩⟩

theorem changedUser_of_lookup (huser : user ∈ known.userByUid.rows) (hphone : user.phone.isSome)
    {binding : Option TGContactBinding}
    (hlook : (changedBindings known people db).lookup user.contactId = some binding) (copy : TGUser) :
    changedUser known.clientUserId binding user = some copy ↔
      user.uid ≠ known.clientUserId ∧ user.NamesDiffer people ∧ copy = user.named people := by
  have hnamed : user.named people =
      { user with
        phonebookFirstName := binding.bind TGContactBinding.firstName
        phonebookLastName := binding.bind TGContactBinding.lastName } := by
    obtain ⟨-, ⟨entry, hentry, rfl⟩ | ⟨hleft, rfl⟩⟩ := (lookup_changedBindings h hdb huser hphone).mp hlook
    · simp [TGUser.named, hentry, PhonebookEntry.binding]
    · simp [TGUser.named, entryOf_eq_none.mpr hleft.2]
  simp only [TGUser.NamesDiffer, hnamed, changedUser]
  split
  · next hclient => simp [hclient]
  · next hclient =>
    split
    · next hdiffer => simp [hclient, hdiffer, eq_comm]
    · next hdiffer => simp [hdiffer]

theorem mem_usersToUpdate {contactId : Int32} : (contactId, user) ∈ (usersToUpdate known people db).rows ↔
      user.contactId = contactId ∧ IsFirst known user ∧ user.number.length ≤ 8 ∧
        (InPhonebook people user.number ∨ InPhonebook previous user.number) := by
  rw [usersToUpdate, mem_loadCachedUsers h]
  refine and_congr_right fun hid => ?_
  subst hid
  rw [and_comm]
  refine and_congr_right fun hfirst => ?_
  obtain ⟨huser, hphone⟩ := mem_of_isFirst hfirst
  rw [← exists_lookup_changedBindings h hdb huser hphone]
  simp [StdMap.lookup_eq_some]

theorem mem_userDataToDispatch (inhibit : Bool) {copy : TGUser} :
    copy ∈ (synchronize inhibit known people db).userDataToDispatch ↔
      ∃ user, IsFirst known user ∧ (user.number.length ≤ 8 ∧
        (InPhonebook people user.number ∨ InPhonebook previous user.number)) ∧
        user.uid ≠ known.clientUserId ∧ user.NamesDiffer people ∧ copy = user.named people := by
  simp only [synchronize, changedUsers, mem_filterMap, Prod.exists, mem_usersToUpdate h hdb, Option.bind_eq_some_iff]
  constructor
  · rintro ⟨contactId, user, ⟨rfl, hfirst, hfound⟩, binding, hlook, hcopy⟩
    obtain ⟨huser, hphone⟩ := mem_of_isFirst hfirst
    exact ⟨user, hfirst, hfound, (changedUser_of_lookup h hdb huser hphone hlook copy).mp hcopy⟩
  · rintro ⟨user, hfirst, hfound, hcopy⟩
    obtain ⟨huser, hphone⟩ := mem_of_isFirst hfirst
    obtain ⟨binding, hlook⟩ := (exists_lookup_changedBindings h hdb huser hphone).mpr hfound
    exact ⟨user.contactId, user, ⟨rfl, hfirst, hfound⟩, binding, hlook,
      (changedUser_of_lookup h hdb huser hphone hlook copy).mpr hcopy⟩

end

end

/-! ## The removed users -/

theorem mem_loadContactUsers :
    user ∈ known.loadContactUsers ↔ user ∈ known.userByUid.rows ∧ user.uid ∈ known.contactUids := by
  simp only [KnownUsers.loadContactUsers, mem_filterMap, KeyedTable.find_eq_some]
  constructor
  · rintro ⟨uid, huid, hm, rfl⟩
    exact ⟨hm, huid⟩
  · rintro ⟨hm, huid⟩
    exact ⟨user.uid, huid, hm, rfl⟩

theorem isSome_phone_of_inPhonebook {book : List ABRecord} (h : InPhonebook book user.number) : user.phone.isSome := by
  obtain ⟨entry, hentry, hnum⟩ := h
  cases hphone : user.phone with
  | some phone => rfl
  | none =>
    have hempty : user.number = "" := by
      rw [TGUser.number, hphone]
      rfl
    exact absurd (hnum.trans hempty) (mem_entries hentry).2

variable {entry : PhonebookEntry}

section
variable (h : HashesDistinguish previous people known)
include h

theorem lookup_remoteContactUids (hentry : entry ∈ entries previous ++ entries people) {uid : Int}
    (hlook : known.loadRemoteContactUidsContactIds.lookup entry.phoneId = some uid) :
    ∃ user ∈ known.userByUid.rows, user.uid = uid ∧ user.uid ∈ known.contactUids ∧ user.number = entry.phoneNumber := by
  rw [StdMap.lookup_eq_some, KnownUsers.loadRemoteContactUidsContactIds] at hlook
  rcases KeyedTable.mem_insertAll hlook with hempty | hm
  · exact absurd hempty not_mem_nil
  · obtain ⟨user, huser, hpair⟩ := mem_map.mp hm
    obtain ⟨hid, huid⟩ := Prod.mk.inj hpair
    obtain ⟨hcontact, hne⟩ := mem_filter.mp huser
    obtain ⟨hknown, hlisted⟩ := mem_loadContactUsers.mp hcontact
    have hphone : user.phone.isSome := by
      cases hphone : user.phone with
      | some phone => rfl
      | none => exact absurd (by rw [TGUser.contactId, hphone]; rfl) (of_decide_eq_true hne)
    exact ⟨user, hknown, huid, hlisted, (h.contactId_eq_phoneId hknown hphone hentry).mp hid⟩

theorem exists_lookup_remoteContactUids (huser : user ∈ known.userByUid.rows) (hphone : user.phone.isSome)
    (hcontact : user.uid ∈ known.contactUids) :
    ∃ uid, known.loadRemoteContactUidsContactIds.lookup user.contactId = some uid := by
  have hhas : (known.loadRemoteContactUidsContactIds : StdMap Int32 Int).Has user.contactId :=
    KeyedTable.has_insertAll.mpr (.inr ⟨(user.contactId, user.uid), mem_map.mpr ⟨user, mem_filter.mpr
      ⟨mem_loadContactUsers.mpr ⟨huser, hcontact⟩, decide_eq_true (h.contactId_ne_zero huser hphone)⟩, rfl⟩, rfl⟩)
  obtain ⟨⟨_, uid⟩, hrow, rfl⟩ := hhas
  exact ⟨uid, StdMap.lookup_eq_some.mpr hrow⟩

theorem removedUid_sound (hdb : LeftBy previous db) (hentry : entry ∈ entries previous ++ entries people)
    (hne : removedUid known (usersToUpdate known people db) entry.phoneId ≠ 0) :
    ∃ user ∈ known.userByUid.rows, user.uid = removedUid known (usersToUpdate known people db) entry.phoneId ∧
      user.number = entry.phoneNumber ∧ (user.number.length ≤ 8 ∨ user.uid ∈ known.contactUids) := by
  unfold removedUid at hne ⊢
  cases hlook : (usersToUpdate known people db).lookup entry.phoneId with
  | some user =>
    obtain ⟨hid, hfirst, hshort, -⟩ := (mem_usersToUpdate h hdb).mp (StdMap.lookup_eq_some.mp hlook)
    obtain ⟨huser, hphone⟩ := mem_of_isFirst hfirst
    exact ⟨user, huser, rfl, (h.contactId_eq_phoneId huser hphone hentry).mp hid, .inl hshort⟩
  | none =>
    simp only [hlook] at hne
    cases hremote : known.loadRemoteContactUidsContactIds.lookup entry.phoneId with
    | none => exact absurd (by rw [hremote]; rfl) hne
    | some uid =>
      obtain ⟨user, huser, huid, hlisted, hnum⟩ := lookup_remoteContactUids h hentry hremote
      exact ⟨user, huser, huid, hnum, .inr hlisted⟩

theorem removedUid_ne_zero (hdb : LeftBy previous db) (hentry : entry ∈ entries previous)
    (huser : user ∈ known.userByUid.rows) (hnum : user.number = entry.phoneNumber)
    (hfound : user.number.length ≤ 8 ∨ user.uid ∈ known.contactUids) :
    removedUid known (usersToUpdate known people db) entry.phoneId ≠ 0 := by
  have hin : InPhonebook previous user.number := ⟨entry, hentry, hnum.symm⟩
  have hphone := isSome_phone_of_inPhonebook hin
  have hid : user.contactId = entry.phoneId :=
    (h.contactId_eq_phoneId huser hphone (mem_append_left _ hentry)).mpr hnum
  unfold removedUid
  cases hlook : (usersToUpdate known people db).lookup entry.phoneId with
  | some found => exact found.uid_ne_zero
  | none =>
    rcases hfound with hshort | hlisted
    · obtain ⟨first, hfirst, hsame⟩ := exists_isFirst huser hphone
      obtain ⟨hfirstUser, hfirstPhone⟩ := mem_of_isFirst hfirst
      have hfirstId := (h.contactId_inj hfirstUser hfirstPhone huser hphone).mpr hsame
      refine absurd ((mem_usersToUpdate h hdb).mpr ⟨hfirstId.trans hid, hfirst, ?_, ?_⟩) (StdMap.lookup_eq_none.mp hlook first)
      · rwa [hsame]
      · rw [hsame]
        exact .inr hin
    · obtain ⟨uid, hremote⟩ := exists_lookup_remoteContactUids h huser hphone hlisted
      obtain ⟨remote, -, huid, -⟩ := lookup_remoteContactUids h (mem_append_left _ hentry) (hid ▸ hremote)
      rw [← hid, hremote]
      exact huid ▸ remote.uid_ne_zero

theorem mem_removedUids (hdb : LeftBy previous db) {uid : Int} :
    uid ∈ removedUids known (usersToUpdate known people db) db.phonebookState
        (scanPeople known people db).newPhonebookPhoneIdSet ↔
      uid ≠ 0 ∧ ∃ entry ∈ (phonebook previous).rows, ¬InPhonebook people entry.phoneNumber ∧
        removedUid known (usersToUpdate known people db) entry.phoneId = uid := by
  simp only [removedUids, hdb.phoneIds, mem_filter, mem_map, decide_eq_true_eq]
  rw [and_comm]
  refine and_congr_right fun _ => ?_
  constructor
  · rintro ⟨_, ⟨⟨⟨entry, hentry, rfl⟩, -⟩, hnew⟩, huid⟩
    exact ⟨entry, hentry, fun hin => hnew ((mem_newPhoneIds h (mem_append_left _ (mem_entries_of_phonebook hentry))).mpr hin),
      huid⟩
  · rintro ⟨entry, hentry, hout, huid⟩
    have hm : entry ∈ entries previous ++ entries people := mem_append_left _ (mem_entries_of_phonebook hentry)
    exact ⟨entry.phoneId, ⟨⟨⟨entry, hentry, rfl⟩, h.phoneId_ne_zero hm⟩, fun hnew => hout ((mem_newPhoneIds h hm).mp hnew)⟩, huid⟩

end

/-! ## The exported entries -/

/-- The number belongs to a user of the contact list. -/
def IsContactNumber (known : KnownUsers) (number : String) : Prop :=
  ∃ user ∈ known.userByUid.rows, user.uid ∈ known.contactUids ∧ user.number = number

instance (known : KnownUsers) (number : String) : Decidable (IsContactNumber known number) :=
  inferInstanceAs (Decidable (∃ user ∈ known.userByUid.rows, user.uid ∈ known.contactUids ∧ user.number = number))

theorem hasContact_iff (h : HashesDistinguish previous people known) (hentry : entry ∈ entries people) :
    known.hasContact entry.phoneId = true ↔ IsContactNumber known entry.phoneNumber := by
  have hm : entry ∈ entries previous ++ entries people := mem_append_right _ hentry
  simp only [KnownUsers.hasContact, any_eq_true, Bool.and_eq_true, decide_eq_true_eq]
  constructor
  · rintro ⟨user, huser, hne, hid⟩
    obtain ⟨hknown, hlisted⟩ := mem_loadContactUsers.mp huser
    have hphone : user.phone.isSome := by
      cases hphone : user.phone with
      | some phone => rfl
      | none => exact absurd (by rw [TGUser.contactId, hphone]; rfl) hne
    exact ⟨user, hknown, hlisted, (h.contactId_eq_phoneId hknown hphone hm).mp hid⟩
  · rintro ⟨user, hknown, hlisted, hnum⟩
    have hphone : user.phone.isSome := isSome_phone_of_inPhonebook ⟨entry, hentry, hnum.symm⟩
    exact ⟨user, mem_loadContactUsers.mpr ⟨hknown, hlisted⟩, h.contactId_ne_zero hknown hphone,
      (h.contactId_eq_phoneId hknown hphone hm).mpr hnum⟩

/-- The first kept entry whose names and number are joined to the same text. -/
def IsFirstJoined (people : List ABRecord) (entry : PhonebookEntry) : Prop :=
  (phonebook people).rows.find? (fun other => other.exportString = entry.exportString) = some entry

instance (people : List ABRecord) (entry : PhonebookEntry) : Decidable (IsFirstJoined people entry) :=
  inferInstanceAs (Decidable (_ = _))

theorem mem_newExportIds (h : HashesDistinguish previous people known) (hentry : entry ∈ (phonebook people).rows)
    {exportId : Int32} : (exportId, entry.phoneId) ∈ (scanPeople known people db).newExportIdToPhoneId.rows ↔
      entry.exportId = exportId ∧ IsFirstJoined people entry := by
  have hcongr : (phonebook people).rows.find? (fun other => other.exportId = entry.exportId) =
      (phonebook people).rows.find? fun other => other.exportString = entry.exportString := by
    refine find?_congr fun other hother => ?_
    rw [decide_eq_decide]
    exact h.exportId_inj (mem_append_right _ (mem_entries_of_phonebook hother))
      (mem_append_right _ (mem_entries_of_phonebook hentry))
  rw [scanPeople, scan_eq, exportIds_keepEntries, IsFirstJoined, ← hcongr]
  refine KeyedTable.mem_insertAll_empty.trans ?_
  rw [find?_map, Option.map_eq_some_iff]
  constructor
  · rintro ⟨found, hfind, hpair⟩
    obtain ⟨hid, hphone⟩ := Prod.mk.inj hpair
    obtain rfl := (phonebook people).eq_of_key (mem_of_find?_eq_some hfind) hentry hphone
    subst hid
    exact ⟨rfl, hfind⟩
  · rintro ⟨rfl, hfind⟩
    exact ⟨entry, hfind, rfl⟩

theorem mem_exportedPhoneIds (h : HashesDistinguish previous people known) (hentry : entry ∈ (phonebook people).rows)
    (explicit : Bool) (exportState : List Int32) :
    entry.phoneId ∈ exportedPhoneIds explicit (scanPeople known people db) exportState ↔
      (IsFirstJoined people entry ∧ entry.exportId ∉ exportState) ∨
        (explicit = true ∧ ¬IsContactNumber known entry.phoneNumber) := by
  have hne : entry.exportId ≠ 0 := h.exportId_ne_zero (mem_append_right _ (mem_entries_of_phonebook hentry))
  have hnew : entry.phoneId ∈ ((scanPeople known people db).newExportIdToPhoneId.rows.filter fun row =>
      row.1 ∉ exportState.filter fun exportId => exportId ≠ 0).map Prod.snd ↔
      IsFirstJoined people entry ∧ entry.exportId ∉ exportState := by
    simp only [mem_map, mem_filter, Prod.exists, exists_eq_right, decide_eq_true_eq]
    constructor
    · rintro ⟨exportId, hrow, hlast⟩
      obtain ⟨rfl, hfirst⟩ := (mem_newExportIds h hentry).mp hrow
      exact ⟨hfirst, fun hin => hlast ⟨hin, hne⟩⟩
    · rintro ⟨hfirst, hlast⟩
      exact ⟨entry.exportId, (mem_newExportIds h hentry).mpr ⟨rfl, hfirst⟩, fun hin => hlast hin.1⟩
  have hexplicit : entry.phoneId ∈ (scanPeople known people db).explicitExport ↔ ¬IsContactNumber known entry.phoneNumber := by
    rw [scanPeople, scan_eq, mem_explicitExport_keepEntries, ← hasContact_iff h (mem_entries_of_phonebook hentry)]
    have hinit : entry.phoneId ∉ initScan.explicitExport := not_mem_nil
    simp only [hinit, false_or, Bool.not_eq_true]
    exact and_iff_right ⟨entry, hentry, rfl⟩
  dsimp only [exportedPhoneIds]
  revert hnew
  generalize ((scanPeople known people db).newExportIdToPhoneId.rows.filter fun row =>
    row.1 ∉ exportState.filter fun exportId => exportId ≠ 0).map Prod.snd = new
  intro hnew
  cases explicit with
  | false => simpa using hnew
  | true =>
    rw [if_pos rfl, mem_append, mem_filter, hexplicit, decide_eq_true_eq, hnew]
    by_cases hjoined : IsFirstJoined people entry ∧ entry.exportId ∉ exportState
    · simp [hjoined]
    · simp only [hjoined, not_false_eq_true, and_true, true_and]

end

/-! ## The second run -/

/-- What the changes have to meet: `db` is what was kept before the first run, and `inhibit₁` and `inhibit₂` switch the
synchronisation off. -/
structure FollowedHere (inhibit₁ inhibit₂ : Bool) (db : PhonebookState) (previous people : List ABRecord) (known : KnownUsers) :
    Prop where
  /-- No two known users have one number that has left the phone book. -/
  oneUser : ∀ user ∈ known.userByUid.rows, ∀ other ∈ known.userByUid.rows, user.HasLeft previous people →
    other.number = user.number → other = user
  /-- A user whose number has left is of the contact list, or the number has at most eight digits. -/
  found : ∀ user ∈ known.userByUid.rows, user.HasLeft previous people →
    user.number.length ≤ 8 ∨ user.uid ∈ known.contactUids
  /-- A new entry is joined to a text that was neither there before nor comes earlier, or it is exported explicitly. -/
  exports : ∀ entry ∈ (phonebook people).rows, entry ∉ (phonebook previous).rows → inhibit₂ = false ∧
    (IsFirstJoined people entry ∧
        (if inhibit₁ then entry.exportId ∉ db.exportState
         else ∀ old ∈ (phonebook previous).rows, old.exportString ≠ entry.exportString) ∨
      (db.explicitExport = false ∧ inhibit₁ = true) ∧ ¬IsContactNumber known entry.phoneNumber)
  /-- A user whose names differ is the first with its number, which has at most eight digits and is in a phone book. -/
  updates : ∀ user ∈ known.userByUid.rows, user.phone.isSome → user.uid ≠ known.clientUserId → user.NamesDiffer people →
    IsFirst known user ∧ user.number.length ≤ 8 ∧ (InPhonebook people user.number ∨ InPhonebook previous user.number)

section
variable {previous people : List ABRecord} {known : KnownUsers} {db : PhonebookState}

theorem mem_storedActions_remove (inhibit : Bool) (uid : Int) :
    .removeContact uid ∈ (synchronize inhibit known people db).storedActions ↔
      uid ∈ removedUids known (usersToUpdate known people db) db.phonebookState
        (scanPeople known people db).newPhonebookPhoneIdSet := by
  cases inhibit <;> simp [synchronize]

theorem mem_storedActions_export (inhibit : Bool) (phoneId : Int32) :
    .exportContact phoneId ∈ (synchronize inhibit known people db).storedActions ↔ inhibit = false ∧
        phoneId ∈ exportedPhoneIds (!inhibit && !db.explicitExport) (scanPeople known people db) db.exportState := by
  cases inhibit <;> simp [synchronize]

section
variable (h : HashesDistinguish previous people known)
include h

theorem removed_iff (hdb : LeftBy previous db) (inhibit : Bool) :
    (∀ uid, .removeContact uid ∈ (synchronize inhibit known people db).storedActions ↔
      ∃ user ∈ known.userByUid.rows, user.HasLeft previous people ∧ user.uid = uid) ↔
    (∀ user ∈ known.userByUid.rows, ∀ other ∈ known.userByUid.rows, user.HasLeft previous people →
      other.number = user.number → other = user) ∧
    ∀ user ∈ known.userByUid.rows, user.HasLeft previous people → user.number.length ≤ 8 ∨ user.uid ∈ known.contactUids := by
  simp only [mem_storedActions_remove, mem_removedUids h hdb]
  have hentryOf : ∀ {user : TGUser}, user.HasLeft previous people → ∃ entry ∈ (phonebook previous).rows,
      entry.phoneNumber = user.number ∧ ¬InPhonebook people entry.phoneNumber := by
    intro user hleft
    obtain ⟨entry, hentry, hnum⟩ := (h.inPhonebook_iff (subset_append_left _ _)).mp hleft.1
    exact ⟨entry, hentry, hnum, hnum ▸ hleft.2⟩
  have hsound : ∀ {entry : PhonebookEntry}, entry ∈ (phonebook previous).rows →
      removedUid known (usersToUpdate known people db) entry.phoneId ≠ 0 → ∃ user ∈ known.userByUid.rows,
        user.uid = removedUid known (usersToUpdate known people db) entry.phoneId ∧ user.number = entry.phoneNumber ∧
          (user.number.length ≤ 8 ∨ user.uid ∈ known.contactUids) :=
    fun hentry => removedUid_sound h hdb (mem_append_left _ (mem_entries_of_phonebook hentry))
  constructor
  · intro hall
    -- each user who has left is the one that is found for the number
    have hown : ∀ user ∈ known.userByUid.rows, user.HasLeft previous people →
        ∀ entry ∈ (phonebook previous).rows, entry.phoneNumber = user.number →
          removedUid known (usersToUpdate known people db) entry.phoneId = user.uid := by
      intro user huser hleft entry hentry hnum
      obtain ⟨hne, other, hother, -, huid⟩ := (hall user.uid).mpr ⟨user, huser, hleft, rfl⟩
      obtain ⟨found, hfound, hfoundUid, hfoundNumber, -⟩ := hsound hother (by rwa [huid])
      obtain rfl := known.userByUid.eq_of_key hfound huser (hfoundUid.trans huid)
      rw [show entry.phoneId = other.phoneId from congrArg phoneMatchHash (hnum.trans hfoundNumber), huid]
    refine ⟨fun user huser other hother hleft hsame => ?_, fun user huser hleft => ?_⟩
    · obtain ⟨entry, hentry, hnum, -⟩ := hentryOf hleft
      have hotherLeft : other.HasLeft previous people := by
        rw [TGUser.HasLeft, hsame]
        exact hleft
      exact known.userByUid.eq_of_key hother huser ((hown other hother hotherLeft entry hentry (hnum.trans hsame.symm)).symm.trans
        (hown user huser hleft entry hentry hnum))
    · obtain ⟨entry, hentry, hnum, -⟩ := hentryOf hleft
      have huid := hown user huser hleft entry hentry hnum
      obtain ⟨found, hfound, hfoundUid, -, hreached⟩ := hsound hentry (by rw [huid]; exact user.uid_ne_zero)
      obtain rfl := known.userByUid.eq_of_key hfound huser (hfoundUid.trans huid)
      exact hreached
  · rintro ⟨honly, hreached⟩ uid
    constructor
    · rintro ⟨hne, entry, hentry, hout, rfl⟩
      obtain ⟨user, huser, huid, hnum, -⟩ := hsound hentry hne
      exact ⟨user, huser, ⟨⟨entry, mem_entries_of_phonebook hentry, hnum.symm⟩, hnum ▸ hout⟩, huid⟩
    · rintro ⟨user, huser, hleft, rfl⟩
      obtain ⟨entry, hentry, hnum, hout⟩ := hentryOf hleft
      have hne : removedUid known (usersToUpdate known people db) entry.phoneId ≠ 0 :=
        removedUid_ne_zero h hdb (mem_entries_of_phonebook hentry) huser hnum.symm (hreached user huser hleft)
      obtain ⟨found, hfound, hfoundUid, hfoundNumber, -⟩ := hsound hentry hne
      obtain rfl := honly user huser found hfound hleft (hfoundNumber.trans hnum)
      exact ⟨found.uid_ne_zero, entry, hentry, hout, hfoundUid.symm⟩

theorem exported_iff (inhibit : Bool) : (∀ entry ∈ (phonebook people).rows, entry ∉ (phonebook previous).rows →
      .exportContact entry.phoneId ∈ (synchronize inhibit known people db).storedActions) ↔
    ∀ entry ∈ (phonebook people).rows, entry ∉ (phonebook previous).rows → inhibit = false ∧
      (IsFirstJoined people entry ∧ entry.exportId ∉ db.exportState ∨
        db.explicitExport = false ∧ ¬IsContactNumber known entry.phoneNumber) := by
  refine forall₂_congr fun entry hentry => forall_congr' fun _ => ?_
  rw [mem_storedActions_export, mem_exportedPhoneIds h hentry]
  cases inhibit <;> simp

theorem updated_iff (hdb : LeftBy previous db) (inhibit : Bool) :
    (∀ copy, copy ∈ (synchronize inhibit known people db).userDataToDispatch ↔
      ∃ user ∈ known.userByUid.rows, user.phone.isSome ∧ user.uid ≠ known.clientUserId ∧ user.NamesDiffer people ∧
        copy = user.named people) ↔
    ∀ user ∈ known.userByUid.rows, user.phone.isSome → user.uid ≠ known.clientUserId → user.NamesDiffer people →
      IsFirst known user ∧ user.number.length ≤ 8 ∧ (InPhonebook people user.number ∨ InPhonebook previous user.number) := by
  simp only [mem_userDataToDispatch h hdb]
  constructor
  · intro hall user huser hphone hclient hdiffer
    obtain ⟨found, hfirst, hfound, -, -, hcopy⟩ := (hall (user.named people)).mpr ⟨user, huser, hphone, hclient, hdiffer, rfl⟩
    obtain rfl := known.userByUid.eq_of_key (mem_of_isFirst hfirst).1 huser (congrArg TGUser.uid hcopy).symm
    exact ⟨hfirst, hfound⟩
  · intro hall copy
    constructor
    · rintro ⟨user, hfirst, -, hclient, hdiffer, hcopy⟩
      obtain ⟨huser, hphone⟩ := mem_of_isFirst hfirst
      exact ⟨user, huser, hphone, hclient, hdiffer, hcopy⟩
    · rintro ⟨user, huser, hphone, hclient, hdiffer, hcopy⟩
      obtain ⟨hfirst, hfound⟩ := hall user huser hphone hclient hdiffer
      exact ⟨user, hfirst, hfound, hclient, hdiffer, hcopy⟩

end

end

def personNamed (firstName number : String) : ABRecord := ⟨some firstName, none, none, [some number]⟩

def ownerOf (number : String) : KnownUsers :=
  ⟨⟨[⟨7, some number, some "Ann", some "", by decide⟩], nodup_singleton 7⟩, [7], 1⟩

end TelegramClient.Contacts
