import TelegramClient.Lib.KeyedTable
import TelegramClient.Lib.Runs
import TelegramClient.MtProto.Encryption

/-!
# Salts

The salts of an authorization key, each valid for a window of message ids.

* `MTDatacenterSaltInfo`, `SaltedAuthInfo` : a salt with its window, and the salts of a key;
* `bestSalt_iff` : **the salt is the best one exactly where the last valid one is**;
* `MergedSalts`, `mergeSaltSets_merged` : **what every merge of a run keeps and adds**.

The loop of `authSaltForMessageId:` compares with the best count so far but never stores one. A merge is an insertion
into a table whose key is `firstValidMessageId`.
-/

namespace TelegramClient.MtProto

structure MTDatacenterSaltInfo where
  salt : BitVec 64
  firstValidMessageId : BitVec 64
  lastValidMessageId : BitVec 64
deriving DecidableEq

namespace MTDatacenterSaltInfo

def validMessageCountAfterId (self : MTDatacenterSaltInfo) (messageId : BitVec 64) : BitVec 64 :=
  if messageId.slt self.firstValidMessageId then 0#64
  else
    let count := self.lastValidMessageId - messageId
    if (0#64).slt count then count else 0#64

def isValidFutureSaltForMessageId (self : MTDatacenterSaltInfo) (messageId : BitVec 64) : Bool :=
  messageId.slt self.lastValidMessageId

end MTDatacenterSaltInfo

/-- `MTDatacenterAuthInfo` with its salts. -/
structure SaltedAuthInfo extends MTDatacenterAuthInfo where
  saltSet : List MTDatacenterSaltInfo

/-- `(int64_t)(timestamp * 4294967296)`: a finite `double` is a rational number, whose fraction is cut off. -/
def referenceMessageId (timestamp : ℚ) : BitVec 64 :=
  let scaled := timestamp * 4294967296
  BitVec.ofInt 64 (scaled.num.tdiv scaled.den)

namespace SaltedAuthInfo

def authSaltForMessageId (self : SaltedAuthInfo) (messageId : BitVec 64) : BitVec 64 :=
  let bestValidMessageCount := 0#64
  self.saltSet.foldl (fun bestSalt saltInfo =>
    let currentValidMessageCount := saltInfo.validMessageCountAfterId messageId
    -- the count of the salt that is taken is not stored
    if currentValidMessageCount != 0 && bestValidMessageCount.slt currentValidMessageCount then saltInfo.salt
    else bestSalt) 0

/-- A round of the loop over the salts of the answer. -/
def addSalt (reference : BitVec 64) (mergedSaltSet : List MTDatacenterSaltInfo) (saltInfo : MTDatacenterSaltInfo) :
    List MTDatacenterSaltInfo :=
  let alreadExists := mergedSaltSet.any fun existingSaltInfo =>
    existingSaltInfo.firstValidMessageId == saltInfo.firstValidMessageId
  if !alreadExists then
    if saltInfo.isValidFutureSaltForMessageId reference then mergedSaltSet ++ [saltInfo] else mergedSaltSet
  else mergedSaltSet

def mergeSaltSet (self : SaltedAuthInfo) (updatedSaltSet : List MTDatacenterSaltInfo) (timestamp : ℚ) :
    SaltedAuthInfo :=
  let reference := referenceMessageId timestamp
  let mergedSaltSet := self.saltSet.filter fun saltInfo => saltInfo.isValidFutureSaltForMessageId reference
  { self with saltSet := updatedSaltSet.foldl (addSalt reference) mergedSaltSet }

end SaltedAuthInfo

/-! ## The best salt -/

section
variable {saltSet : List MTDatacenterSaltInfo} {messageId : BitVec 64}

namespace MTDatacenterSaltInfo

def ValidFor (self : MTDatacenterSaltInfo) (messageId : BitVec 64) : Prop :=
  self.firstValidMessageId.toInt ≤ messageId.toInt ∧ messageId.toInt < self.lastValidMessageId.toInt

instance (self : MTDatacenterSaltInfo) (messageId : BitVec 64) : Decidable (self.ValidFor messageId) :=
  inferInstanceAs (Decidable (_ ∧ _))

def remainingValidity (self : MTDatacenterSaltInfo) (messageId : BitVec 64) : Int :=
  self.lastValidMessageId.toInt - messageId.toInt

/-- The difference of the two ids is an `int64_t`. -/
def NoOverflow (self : MTDatacenterSaltInfo) (messageId : BitVec 64) : Prop :=
  -2 ^ 63 ≤ self.remainingValidity messageId ∧ self.remainingValidity messageId < 2 ^ 63

end MTDatacenterSaltInfo

/-- An entry that is valid for the id, none for longer. -/
structure Longest (saltSet : List MTDatacenterSaltInfo) (messageId : BitVec 64) (saltInfo : MTDatacenterSaltInfo) :
    Prop where
  mem : saltInfo ∈ saltSet
  valid : saltInfo.ValidFor messageId
  longest : ∀ other ∈ saltSet, other.ValidFor messageId →
    other.remainingValidity messageId ≤ saltInfo.remainingValidity messageId

/-- The salt of an entry with the longest validity, 0 exactly if there is no valid entry. -/
structure BestSalt (saltSet : List MTDatacenterSaltInfo) (messageId salt : BitVec 64) : Prop where
  zero : salt = 0 ↔ ∀ saltInfo ∈ saltSet, ¬saltInfo.ValidFor messageId
  best : (∃ saltInfo ∈ saltSet, saltInfo.ValidFor messageId) →
    ∃ saltInfo, Longest saltSet messageId saltInfo ∧ saltInfo.salt = salt

def validSalts (saltSet : List MTDatacenterSaltInfo) (messageId : BitVec 64) : List MTDatacenterSaltInfo :=
  saltSet.filter fun saltInfo => saltInfo.ValidFor messageId

/-- The last of the valid entries has the salt of an entry with the longest validity. -/
def LastIsBest (saltSet : List MTDatacenterSaltInfo) (messageId : BitVec 64) : Prop :=
  ∀ last, (validSalts saltSet messageId).getLast? = some last →
    ∃ saltInfo, Longest saltSet messageId saltInfo ∧ saltInfo.salt = last.salt

variable {saltInfo : MTDatacenterSaltInfo}

@[simp] theorem mem_validSalts :
    saltInfo ∈ validSalts saltSet messageId ↔ saltInfo ∈ saltSet ∧ saltInfo.ValidFor messageId := by
  simp [validSalts]

theorem validSalts_cons (saltInfo : MTDatacenterSaltInfo) (saltSet : List MTDatacenterSaltInfo) (messageId : BitVec 64) :
    validSalts (saltInfo :: saltSet) messageId =
      if saltInfo.ValidFor messageId then saltInfo :: validSalts saltSet messageId else validSalts saltSet messageId := by
  rw [validSalts, List.filter_cons]
  simp only [decide_eq_true_eq, validSalts]

theorem validMessageCountAfterId_pos (hfit : saltInfo.NoOverflow messageId) :
    (0#64).slt (saltInfo.validMessageCountAfterId messageId) = true ↔ saltInfo.ValidFor messageId := by
  have hdiff : (saltInfo.lastValidMessageId - messageId).toInt = saltInfo.remainingValidity messageId := by
    obtain ⟨hlow, hhigh⟩ := hfit
    rw [BitVec.toInt_sub]
    exact Int.bmod_eq_of_le (by unfold MTDatacenterSaltInfo.remainingValidity at hlow; omega)
      (by unfold MTDatacenterSaltInfo.remainingValidity at hhigh; omega)
  unfold MTDatacenterSaltInfo.validMessageCountAfterId MTDatacenterSaltInfo.ValidFor
  simp only [BitVec.slt_iff_toInt_lt]
  split
  · next hbefore =>
    simp only [BitVec.toInt_zero, lt_irrefl, false_iff]
    omega
  · next hstarted =>
    split
    · next hcnt =>
      rw [hdiff, MTDatacenterSaltInfo.remainingValidity, BitVec.toInt_zero] at hcnt
      simp only [hdiff, MTDatacenterSaltInfo.remainingValidity, BitVec.toInt_zero, hcnt, true_iff]
      omega
    · next hcnt =>
      rw [hdiff, MTDatacenterSaltInfo.remainingValidity, BitVec.toInt_zero] at hcnt
      simp only [BitVec.toInt_zero, lt_irrefl, false_iff]
      omega

/-- **The code takes the last valid salt.** -/
theorem authSaltForMessageId_eq {self : SaltedAuthInfo} (hfit : ∀ saltInfo ∈ self.saltSet, saltInfo.NoOverflow messageId) :
    self.authSaltForMessageId messageId =
      ((validSalts self.saltSet messageId).map MTDatacenterSaltInfo.salt).getLastD 0 := by
  have hloop (bestSalt : BitVec 64) (saltSet : List MTDatacenterSaltInfo)
      (hfit : ∀ saltInfo ∈ saltSet, saltInfo.NoOverflow messageId) : saltSet.foldl (fun bestSalt saltInfo =>
        if saltInfo.validMessageCountAfterId messageId != 0 &&
          (0#64).slt (saltInfo.validMessageCountAfterId messageId) then saltInfo.salt else bestSalt) bestSalt =
      ((validSalts saltSet messageId).map MTDatacenterSaltInfo.salt).getLastD bestSalt := by
    induction saltSet generalizing bestSalt with
    | nil => rfl
    | cons saltInfo saltSet ih =>
      obtain ⟨hfirst, hrest⟩ := List.forall_mem_cons.mp hfit
      have hpos := validMessageCountAfterId_pos hfirst
      rw [List.foldl_cons, ih _ hrest, validSalts_cons]
      by_cases hvalid : saltInfo.ValidFor messageId
      · have hcnt := hpos.mpr hvalid
        have hne : saltInfo.validMessageCountAfterId messageId ≠ 0#64 := by
          intro hzero
          rw [hzero] at hcnt
          simp at hcnt
        rw [if_pos (by simp [hne, hcnt]), if_pos hvalid, List.map_cons, List.getLastD_cons]
      · rw [if_neg (fun h => hvalid (hpos.mp (Bool.and_eq_true_iff.mp h).2)), if_neg hvalid]
  exact hloop 0 self.saltSet hfit

/-- **The salt of a message is the best one exactly where the last valid one is.** -/
theorem bestSalt_iff (self : SaltedAuthInfo) (messageId : BitVec 64)
    (hfit : ∀ saltInfo ∈ self.saltSet, saltInfo.NoOverflow messageId) (hsalt : ∀ saltInfo ∈ self.saltSet, saltInfo.salt ≠ 0) :
    BestSalt self.saltSet messageId (self.authSaltForMessageId messageId) ↔ LastIsBest self.saltSet messageId := by
  rw [authSaltForMessageId_eq hfit, List.getLastD_eq_getLast?, List.getLast?_map]
  cases hlast : (validSalts self.saltSet messageId).getLast? with
  | none =>
      have hnone : ∀ saltInfo ∈ self.saltSet, ¬saltInfo.ValidFor messageId := by
        intro saltInfo hmem hvalid
        have hin := mem_validSalts.mpr ⟨hmem, hvalid⟩
        rw [List.getLast?_eq_none_iff.mp hlast] at hin
        exact List.not_mem_nil hin
      refine ⟨fun _ last h => ?_, fun _ => ⟨by simpa using hnone, ?_⟩⟩
      · rw [hlast] at h
        cases h
      · rintro ⟨saltInfo, hmem, hvalid⟩
        exact absurd hvalid (hnone saltInfo hmem)
  | some last =>
      obtain ⟨hmem, hvalid⟩ := mem_validSalts.mp (List.mem_of_getLast? hlast)
      show BestSalt self.saltSet messageId last.salt ↔ _
      constructor
      · intro h last' hlast'
        obtain rfl : last = last' := Option.some.inj (hlast.symm.trans hlast')
        exact h.best ⟨last, hmem, hvalid⟩
      · intro h
        refine ⟨⟨fun hzero => absurd hzero (hsalt last hmem), fun hnone => absurd hvalid (hnone last hmem)⟩, fun _ => ?_⟩
        exact h last hlast

def keyWithSalts (saltSet : List MTDatacenterSaltInfo) : SaltedAuthInfo :=
  { authKey := Vector.replicate 256 0, authKeyId := 0, mainTempAuthKey := none, mediaTempAuthKey := none,
    saltSet := saltSet }

/-- Two valid salts, the better of them behind the other, and a salt that is not valid yet. -/
theorem bestSalt_iff_two :
    let saltSet : List MTDatacenterSaltInfo := [⟨1, 0, 50⟩, ⟨2, 5, 100⟩, ⟨3, 90, 200⟩]
    BestSalt saltSet 10 ((keyWithSalts saltSet).authSaltForMessageId 10) := by
  intro saltSet
  have hfit : ∀ saltInfo ∈ saltSet, saltInfo.NoOverflow 10 := by
    simp [saltSet, MTDatacenterSaltInfo.NoOverflow, MTDatacenterSaltInfo.remainingValidity]
  have hlongest : Longest saltSet 10 ⟨2, 5, 100⟩ := ⟨by decide, by decide, by decide⟩
  refine (bestSalt_iff (keyWithSalts saltSet) 10 hfit (by simp [keyWithSalts, saltSet])).mpr fun last hlast => ?_
  obtain rfl : (⟨2, 5, 100⟩ : MTDatacenterSaltInfo) = last := Option.some.inj ((by decide : some _ = _).trans hlast)
  exact ⟨_, hlongest, rfl⟩

/-- A salt that is valid for a shorter time stands behind the best one. -/
theorem shorter_salt_taken :
    let saltSet : List MTDatacenterSaltInfo := [⟨1, 0, 100⟩, ⟨2, 0, 50⟩]
    (∀ saltInfo ∈ saltSet, saltInfo.NoOverflow 10 ∧ saltInfo.salt ≠ 0) ∧
      ¬BestSalt saltSet 10 ((keyWithSalts saltSet).authSaltForMessageId 10) := by
  intro saltSet
  have htaken : (keyWithSalts saltSet).authSaltForMessageId 10 = 2 := by decide
  refine ⟨by simp [saltSet, MTDatacenterSaltInfo.NoOverflow, MTDatacenterSaltInfo.remainingValidity], fun h => ?_⟩
  obtain ⟨saltInfo, hlongest, hsalt⟩ := h.best ⟨⟨1, 0, 100⟩, by simp [saltSet], by decide⟩
  have hle := hlongest.longest ⟨1, 0, 100⟩ (by simp [saltSet]) (by decide)
  have hmem := hlongest.mem
  rw [htaken] at hsalt
  simp only [saltSet, List.mem_cons, List.not_mem_nil, or_false] at hmem
  obtain rfl | rfl := hmem
  · exact absurd hsalt (by decide)
  · exact absurd hle (by decide)

end

/-! ## Merging -/

/-- An answer of the server with its salts, and the time at which it is merged. -/
structure SaltAnswer where
  updatedSaltSet : List MTDatacenterSaltInfo
  timestamp : ℚ

def SaltedAuthInfo.merge (self : SaltedAuthInfo) (answer : SaltAnswer) : SaltedAuthInfo :=
  self.mergeSaltSet answer.updatedSaltSet answer.timestamp

structure MergedSalts (old : SaltedAuthInfo) (answer : SaltAnswer) (merged : SaltedAuthInfo) : Prop where
  distinct : (merged.saltSet.map MTDatacenterSaltInfo.firstValidMessageId).Nodup
  valid : ∀ saltInfo ∈ merged.saltSet,
    (referenceMessageId answer.timestamp).toInt < saltInfo.lastValidMessageId.toInt
  kept : ∀ saltInfo ∈ old.saltSet, (referenceMessageId answer.timestamp).toInt < saltInfo.lastValidMessageId.toInt →
    saltInfo ∈ merged.saltSet
  added : ∀ before saltInfo after, answer.updatedSaltSet = before ++ saltInfo :: after →
    (referenceMessageId answer.timestamp).toInt < saltInfo.lastValidMessageId.toInt → saltInfo ∈ merged.saltSet ∨
      ∃ existing ∈ old.saltSet ++ before, existing ∈ merged.saltSet ∧
        existing.firstValidMessageId = saltInfo.firstValidMessageId

abbrev SaltTable := KeyedTable MTDatacenterSaltInfo.firstValidMessageId

section
variable (table : SaltTable) (reference : BitVec 64)

theorem addSalt_rows (saltInfo : MTDatacenterSaltInfo) : SaltedAuthInfo.addSalt reference table.rows saltInfo =
      if saltInfo.isValidFutureSaltForMessageId reference then (table.insertOrIgnore saltInfo).rows else table.rows := by
  have hexists : (table.rows.any fun existingSaltInfo =>
      existingSaltInfo.firstValidMessageId == saltInfo.firstValidMessageId) = true ↔
      ¬table.find saltInfo.firstValidMessageId = none := by
    simp [KeyedTable.find_eq_none]
  unfold SaltedAuthInfo.addSalt KeyedTable.insertOrIgnore
  dsimp only
  by_cases hfree : table.find saltInfo.firstValidMessageId = none
  · rw [dif_pos hfree, if_pos (by simpa using mt hexists.mp (not_not.mpr hfree))]
  · rw [dif_neg hfree, if_neg (by simpa using hexists.mpr hfree), ite_self]

theorem foldl_addSalt_rows (updatedSaltSet : List MTDatacenterSaltInfo) :
    updatedSaltSet.foldl (SaltedAuthInfo.addSalt reference) table.rows =
      (table.insertAll (updatedSaltSet.filter fun saltInfo => saltInfo.isValidFutureSaltForMessageId reference)).rows := by
  induction updatedSaltSet generalizing table with
  | nil => rfl
  | cons saltInfo updatedSaltSet ih =>
    rw [List.foldl_cons, addSalt_rows, List.filter_cons]
    by_cases hvalid : saltInfo.isValidFutureSaltForMessageId reference
    · rw [if_pos hvalid, if_pos hvalid, ih]
      rfl
    · rw [if_neg hvalid, if_neg hvalid, ih]

end

variable {self : SaltedAuthInfo}

/-- **A merge deletes what has expired, and inserts what is valid.** -/
theorem mergeSaltSet_rows {table : SaltTable} (htable : table.rows = self.saltSet)
    (updatedSaltSet : List MTDatacenterSaltInfo) (timestamp : ℚ) :
    (self.mergeSaltSet updatedSaltSet timestamp).saltSet = ((table.deleteWhere fun saltInfo =>
        !saltInfo.isValidFutureSaltForMessageId (referenceMessageId timestamp)).insertAll
          (updatedSaltSet.filter fun saltInfo =>
            saltInfo.isValidFutureSaltForMessageId (referenceMessageId timestamp))).rows := by
  rw [← foldl_addSalt_rows]
  simp [SaltedAuthInfo.mergeSaltSet, KeyedTable.deleteWhere, htable]

theorem isValidFutureSaltForMessageId_iff {saltInfo : MTDatacenterSaltInfo} {messageId : BitVec 64} :
    saltInfo.isValidFutureSaltForMessageId messageId = true ↔ messageId.toInt < saltInfo.lastValidMessageId.toInt :=
  BitVec.slt_iff_toInt_lt

theorem merge_merged (answer : SaltAnswer) (hself : (self.saltSet.map MTDatacenterSaltInfo.firstValidMessageId).Nodup) :
    MergedSalts self answer (self.merge answer) := by
  obtain ⟨updatedSaltSet, timestamp⟩ := answer
  set reference := referenceMessageId timestamp with hreference
  let table : SaltTable := ⟨self.saltSet, hself⟩
  let still := table.deleteWhere fun saltInfo => !saltInfo.isValidFutureSaltForMessageId reference
  let fresh := updatedSaltSet.filter fun saltInfo => saltInfo.isValidFutureSaltForMessageId reference
  have hrows : (self.merge ⟨updatedSaltSet, timestamp⟩).saltSet = (still.insertAll fresh).rows :=
    @mergeSaltSet_rows self table rfl updatedSaltSet timestamp
  have hfind (saltInfo : MTDatacenterSaltInfo) (k : BitVec 64)
      (h : (still.find k).or (fresh.find? fun row => row.firstValidMessageId = k) = some saltInfo) :
      saltInfo ∈ (self.merge ⟨updatedSaltSet, timestamp⟩).saltSet ∧ saltInfo.firstValidMessageId = k := by
    rw [hrows]
    exact KeyedTable.find_eq_some.mp ((KeyedTable.find_insertAll still fresh k).trans h)
  have hstill (saltInfo : MTDatacenterSaltInfo) :
      saltInfo ∈ still.rows ↔ saltInfo ∈ self.saltSet ∧ reference.toInt < saltInfo.lastValidMessageId.toInt := by
    rw [KeyedTable.mem_deleteWhere, Bool.not_eq_false', isValidFutureSaltForMessageId_iff]
  refine ⟨?_, fun saltInfo hm => ?_, fun saltInfo hm hvalid => ?_, ?_⟩
  · rw [hrows]
    exact (still.insertAll fresh).nodup
  · rw [hrows] at hm
    rcases KeyedTable.mem_insertAll hm with hold | hnew
    · exact ((hstill saltInfo).mp hold).2
    · exact isValidFutureSaltForMessageId_iff.mp (List.mem_filter.mp hnew).2
  · have hfound := KeyedTable.find_key ((hstill saltInfo).mpr ⟨hm, hvalid⟩)
    exact (hfind saltInfo _ (by rw [hfound, Option.some_or])).1
  · rintro before saltInfo after rfl hvalid
    cases hold : still.find saltInfo.firstValidMessageId with
    | some existing =>
      obtain ⟨hm, hkey⟩ := hfind existing _ (by rw [hold, Option.some_or])
      have hin := ((hstill existing).mp (KeyedTable.find_eq_some.mp hold).1).1
      exact .inr ⟨existing, List.mem_append_left before hin, hm, hkey⟩
    | none =>
      have hsplit : fresh = (before.filter fun row => row.isValidFutureSaltForMessageId reference) ++
          saltInfo :: (after.filter fun row => row.isValidFutureSaltForMessageId reference) := by
        have hkeep : saltInfo.isValidFutureSaltForMessageId reference = true := isValidFutureSaltForMessageId_iff.mpr hvalid
        simp only [fresh, List.filter_append, List.filter_cons, hkeep, if_true]
      cases hfirst : (before.filter fun row => row.isValidFutureSaltForMessageId reference).find? fun row =>
          row.firstValidMessageId = saltInfo.firstValidMessageId with
      | some existing =>
        obtain ⟨hm, hkey⟩ := hfind existing saltInfo.firstValidMessageId
          (by rw [hold, Option.none_or, hsplit, List.find?_append, hfirst, Option.some_or])
        have hin := (List.mem_filter.mp (List.mem_of_find?_eq_some hfirst)).1
        exact .inr ⟨existing, List.mem_append_right self.saltSet hin, hm, hkey⟩
      | none =>
        refine .inl (hfind saltInfo saltInfo.firstValidMessageId ?_).1
        rw [hold, Option.none_or, hsplit, List.find?_append, hfirst, Option.none_or, List.find?_cons_of_pos]
        exact decide_eq_true rfl

/-- **Every merge of a run that begins without salts** keeps the salts distinct and valid, and loses none that is
still valid. -/
theorem mergeSaltSets_merged (self : SaltedAuthInfo) (answers : List SaltAnswer) :
    AllSteps SaltedAuthInfo.merge (fun self answer => MergedSalts self answer (self.merge answer))
      { self with saltSet := [] } answers := by
  have hstep (self : SaltedAuthInfo) (answer : SaltAnswer)
      (hself : (self.saltSet.map MTDatacenterSaltInfo.firstValidMessageId).Nodup) (_ : True) :
      ((self.merge answer).saltSet.map MTDatacenterSaltInfo.firstValidMessageId).Nodup :=
    (merge_merged answer hself).distinct
  have hall : AllSteps SaltedAuthInfo.merge (fun _ _ => True) { self with saltSet := [] } answers :=
    allSteps_of_forall (fun _ _ => trivial) _
  have hempty : (([] : List MTDatacenterSaltInfo).map MTDatacenterSaltInfo.firstValidMessageId).Nodup := List.nodup_nil
  exact hall.of_invariant hstep (fun self answer hself _ => merge_merged answer hself) hempty

end TelegramClient.MtProto
