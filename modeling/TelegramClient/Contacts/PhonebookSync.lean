import TelegramClient.Contacts.PhoneHashes
import TelegramClient.Lib.KeyedTable

/-!
# The phone book synchronisation

A run reads the address book, compares it with what the previous run has left, and queues the changes for the server.

* `TGContactBinding`, `TGUser`, `TGFutureAction` : names of a number, users in memory, queued actions;
* `synchronize` : a run.
-/

namespace TelegramClient.Contacts

/-- `std::map`, to which `insert` adds no second value of a key. -/
abbrev StdMap (κ ν : Type*) := KeyedTable (Prod.fst : κ × ν → κ)

namespace StdMap

variable {κ ν : Type*} [DecidableEq κ]

def lookup (m : StdMap κ ν) (k : κ) : Option ν := (m.find k).map Prod.snd

def insert (m : StdMap κ ν) (k : κ) (v : ν) : StdMap κ ν := m.insertOrIgnore (k, v)

theorem lookup_eq_some {m : StdMap κ ν} {k : κ} {v : ν} : m.lookup k = some v ↔ (k, v) ∈ m.rows := by
  simp only [lookup, Option.map_eq_some_iff, KeyedTable.find_eq_some, Prod.exists]
  grind

theorem lookup_eq_none {m : StdMap κ ν} {k : κ} : m.lookup k = none ↔ ∀ v, (k, v) ∉ m.rows := by
  simp only [Option.eq_none_iff_forall_ne_some, ne_eq, lookup_eq_some]

end StdMap

/-! ## Bindings, users and actions -/

structure TGContactBinding where
  phoneId : Int32
  firstName : Option String
  lastName : Option String
  phoneNumber : Option String
deriving DecidableEq

/-- The test of two strings, which compares `== nil` of the first with `!= nil` of the second. -/
def differsFrom (mine other : Option String) : Bool :=
  (mine.isNone != other.isSome) || (mine.isSome && mine != other)

def TGContactBinding.equalsToContactBinding (binding another : TGContactBinding) : Bool :=
  !(binding.phoneId != another.phoneId || differsFrom binding.firstName another.firstName ||
    differsFrom binding.lastName another.lastName || differsFrom binding.phoneNumber another.phoneNumber)

structure TGUser where
  uid : Int
  phoneNumber : Option String
  phonebookFirstName : Option String
  phonebookLastName : Option String
  /-- No user has the id 0. -/
  uid_ne_zero : uid ≠ 0
deriving DecidableEq

/-- `phoneNumber.length != 0`. -/
def TGUser.phone (user : TGUser) : Option String := user.phoneNumber.filter fun number => number ≠ ""

def TGUser.contactId (user : TGUser) : Int32 := user.phone.elim 0 phoneMatchHash

inductive TGFutureAction where
  | removeContact (uid : Int)
  | exportContact (contactId : Int32)
deriving DecidableEq

/-! ## The address book -/

/-- A person of the address book; a phone can be without a number. -/
structure ABRecord where
  firstName : Option String
  lastName : Option String
  organization : Option String
  phones : List (Option String)

structure PhonebookEntry where
  firstName : String
  lastName : String
  phoneNumber : String
deriving DecidableEq

namespace ABRecord

/-- The first and the last name; the organization stands for the last name of a person without either. -/
def names (person : ABRecord) : String × String :=
  let firstName := person.firstName.getD ""
  let lastName := person.lastName.getD ""
  if firstName = "" ∧ lastName = "" then (firstName, person.organization.getD "") else (firstName, lastName)

def personPhones (person : ABRecord) : List String :=
  (person.phones.filterMap fun number => number.map cleanPhone).filter fun number => number ≠ ""

def entries (person : ABRecord) : List PhonebookEntry :=
  person.personPhones.map fun number => ⟨person.names.1, person.names.2, number⟩

end ABRecord

def entries (people : List ABRecord) : List PhonebookEntry := people.flatMap ABRecord.entries

namespace PhonebookEntry

def phoneId (entry : PhonebookEntry) : Int32 := phoneMatchHash entry.phoneNumber

/-- The names and the number, joined without a separator. -/
def exportString (entry : PhonebookEntry) : String := entry.firstName ++ entry.lastName ++ entry.phoneNumber

def exportId (entry : PhonebookEntry) : Int32 := murMurHash32 entry.exportString

def bindingHash (entry : PhonebookEntry) : Int32 := murMurHash32 entry.phoneNumber

def binding (entry : PhonebookEntry) : TGContactBinding :=
  ⟨entry.phoneId, some entry.firstName, some entry.lastName, some entry.phoneNumber⟩

end PhonebookEntry

/-! ## What is read -/

/-- What the runs keep. The custom properties are lists of ids; `explicitExport` says whether its property is set. -/
structure PhonebookState where
  contactBindings : KeyedTable TGContactBinding.phoneId
  phonebookState : List Int32
  exportState : List Int32
  explicitExport : Bool

def initPhonebookState : PhonebookState := ⟨.empty, [], [], false⟩

/-- The users in memory, into which `loadContactUsers` has read those of the contact list. -/
structure KnownUsers where
  /-- In the order in which `_userByUid` is iterated. -/
  userByUid : KeyedTable TGUser.uid
  /-- In the order of `std::map`. -/
  contactUids : List Int
  clientUserId : Int

def KnownUsers.loadContactUsers (known : KnownUsers) : List TGUser := known.contactUids.filterMap known.userByUid.find

def KnownUsers.loadCachedUsersWithContactIds (known : KnownUsers) (contactIds : List Int32) : StdMap Int32 TGUser :=
  KeyedTable.insertAll .empty ((known.userByUid.rows.filter fun user =>
    user.phone.isSome ∧ user.contactId ∈ contactIds).map fun user => (user.contactId, user))

def KnownUsers.loadRemoteContactUidsContactIds (known : KnownUsers) : StdMap Int32 Int :=
  KeyedTable.insertAll .empty ((known.loadContactUsers.filter fun user =>
    user.contactId ≠ 0).map fun user => (user.contactId, user.uid))

def KnownUsers.hasContact (known : KnownUsers) (phoneId : Int32) : Bool :=
  known.loadContactUsers.any fun user => user.contactId ≠ 0 && user.contactId = phoneId

/-! ## The pass over the address book -/

structure Scan where
  newPhonebookPhoneIdSet : List Int32
  newPhonebookState : List Int32
  newExportState : List Int32
  newExportIdToPhoneId : StdMap Int32 Int32
  explicitExport : List Int32
  newBindings : List TGContactBinding
  changedBindings : StdMap Int32 (Option TGContactBinding)

def initScan : Scan := ⟨[], [], [], .empty, [], [], .empty⟩

def keepEntry (currentBindings : StdMap Int32 TGContactBinding) (isContact : Int32 → Bool) (s : Scan) (entry : PhonebookEntry) :
    Scan :=
  let unchanged := (currentBindings.lookup entry.bindingHash).any fun old => old.equalsToContactBinding entry.binding
  { newPhonebookPhoneIdSet := s.newPhonebookPhoneIdSet.insert entry.phoneId
    newPhonebookState := s.newPhonebookState ++ [entry.phoneId]
    newExportState := s.newExportState ++ [entry.exportId]
    newExportIdToPhoneId := s.newExportIdToPhoneId.insert entry.exportId entry.phoneId
    explicitExport := if isContact entry.phoneId then s.explicitExport else s.explicitExport.insert entry.phoneId
    newBindings := s.newBindings ++ [entry.binding]
    changedBindings :=
      if unchanged then s.changedBindings else s.changedBindings.insert entry.bindingHash (some entry.binding) }

def scanEntry (currentBindings : StdMap Int32 TGContactBinding) (isContact : Int32 → Bool) (s : Scan) (entry : PhonebookEntry) :
    Scan :=
  if entry.phoneId ∈ s.newPhonebookPhoneIdSet then s else keepEntry currentBindings isContact s entry

def scan (currentBindings : StdMap Int32 TGContactBinding) (isContact : Int32 → Bool) (people : List ABRecord) : Scan :=
  (entries people).foldl (scanEntry currentBindings isContact) initScan

/-- The bindings of the previous run by the hash of the number. -/
def loadCurrentBindings (db : PhonebookState) : StdMap Int32 TGContactBinding :=
  KeyedTable.insertAll .empty ((db.contactBindings.rows.filterMap fun binding =>
    (binding.phoneNumber.filter fun number => number ≠ "").map fun number => (murMurHash32 number, binding)))

/-- The bindings whose phone id has gone are added without a value. -/
def addRemovedBindings (currentBindings : StdMap Int32 TGContactBinding) (s : Scan) : StdMap Int32 (Option TGContactBinding) :=
  s.changedBindings.insertAll ((currentBindings.rows.filter fun row =>
    row.2.phoneId ∉ s.newPhonebookPhoneIdSet).map fun row => (row.1, none))

/-! ## The comparisons -/

/-- The copy of a user whose names are not those of the binding; a missing binding has no names. -/
def changedUser (clientUserId : Int) (binding : Option TGContactBinding) (user : TGUser) : Option TGUser :=
  let firstName := binding.bind TGContactBinding.firstName
  let lastName := binding.bind TGContactBinding.lastName
  if user.uid = clientUserId then none
  else if user.phonebookFirstName ≠ firstName ∨ user.phonebookLastName ≠ lastName then
    some { user with phonebookFirstName := firstName, phonebookLastName := lastName }
  else none

def changedUsers (clientUserId : Int) (users : StdMap Int32 TGUser) (changed : StdMap Int32 (Option TGContactBinding)) :
    List TGUser :=
  users.rows.filterMap fun (contactId, user) =>
    (changed.lookup contactId).bind fun binding => changedUser clientUserId binding user

/-- The user of a phone id: one in memory, or else one of the contact list; 0 if there is none. -/
def removedUid (known : KnownUsers) (users : StdMap Int32 TGUser) (contactId : Int32) : Int :=
  match users.lookup contactId with
  | some user => user.uid
  | none => (known.loadRemoteContactUidsContactIds.lookup contactId).getD 0

def removedUids (known : KnownUsers) (users : StdMap Int32 TGUser) (phonebookState newPhoneIds : List Int32) : List Int :=
  let lastPhonebookPhoneIds := phonebookState.filter fun contactId => contactId ≠ 0
  let deletedContactIds := lastPhonebookPhoneIds.filter fun contactId => contactId ∉ newPhoneIds
  (deletedContactIds.map (removedUid known users)).filter fun uid => uid ≠ 0

/-- The phone ids of the export ids that the previous run did not have, and once those that are of no contact. -/
def exportedPhoneIds (explicit : Bool) (s : Scan) (exportState : List Int32) : List Int32 :=
  let lastExportState := exportState.filter fun exportId => exportId ≠ 0
  let new := (s.newExportIdToPhoneId.rows.filter fun row => row.1 ∉ lastExportState).map Prod.snd
  if explicit then new ++ s.explicitExport.filter (· ∉ new) else new

structure SyncResult where
  state : PhonebookState
  /-- What is given to `storeFutureActions`. -/
  storedActions : List TGFutureAction
  /-- What is given to `executeUserObjectsUpdate`. -/
  userDataToDispatch : List TGUser
  /-- What is given to `deleteRemoteContactUids`. -/
  removeContactUids : List Int

def scanPeople (known : KnownUsers) (people : List ABRecord) (db : PhonebookState) : Scan :=
  scan (loadCurrentBindings db) known.hasContact people

def changedBindings (known : KnownUsers) (people : List ABRecord) (db : PhonebookState) :
    StdMap Int32 (Option TGContactBinding) :=
  addRemovedBindings (loadCurrentBindings db) (scanPeople known people db)

/-- The keys of the bindings are taken for contact ids. -/
def usersToUpdate (known : KnownUsers) (people : List ABRecord) (db : PhonebookState) : StdMap Int32 TGUser :=
  known.loadCachedUsersWithContactIds ((changedBindings known people db).rows.map Prod.fst)

/-- A run over the address book; `inhibit` is `contactsInhibitSync`. -/
def synchronize (inhibit : Bool) (known : KnownUsers) (people : List ABRecord) (db : PhonebookState) : SyncResult :=
  let s := scanPeople known people db
  let users := usersToUpdate known people db
  let removeContactUids := removedUids known users db.phonebookState s.newPhonebookPhoneIdSet
  let explicit := !inhibit && !db.explicitExport
  let exported := exportedPhoneIds explicit s db.exportState
  { state := {
      contactBindings := KeyedTable.insertAll .empty s.newBindings
      phonebookState := s.newPhonebookState
      exportState := if inhibit then db.exportState else s.newExportState
      explicitExport := db.explicitExport || explicit }
    storedActions := removeContactUids.map .removeContact ++ if inhibit then [] else exported.map .exportContact
    userDataToDispatch := changedUsers known.clientUserId users (changedBindings known people db)
    removeContactUids := removeContactUids }

end TelegramClient.Contacts
