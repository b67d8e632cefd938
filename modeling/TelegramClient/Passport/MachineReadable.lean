import TelegramClient.Messages.TextScanner

/-!
# The machine-readable zone of a passport

* `isDataValid` : the check digit with the weights 7, 3 and 1;
* `parseLines` : documents of two lines and of three, with an exception for a range outside a string and for nil;
* `ParsesSafely` : no exception, and only what has been checked is reported;
* **`parsesSafely_iff`** : for all lines but those of a Russian passport whose number fails its own check.
-/

namespace TelegramClient.Passport

open Messages

inductive MrzException
  | range
  | nilString
deriving DecidableEq

/-- What is used of Foundation, with the tables of Russian letters; `δ` is `NSDate`. -/
structure MrzFoundation (δ : Type) where
  /-- `stringByReplacingOccurrencesOfString:withString:`. -/
  replacing : NSString → NSString → NSString → NSString
  length_replacing : ∀ text (c d : UInt16), (replacing text [c] [d]).length = text.length
  trimming : NSString → NSString
  componentsSeparatedByString : NSString → NSString → List NSString
  integerValue : NSString → Int
  dateFromString : NSString → Option δ
  transliterateRussianMRZString : NSString → NSString
  transliterateRussianName : NSString → NSString

structure TGPassportMRZ (δ : Type) where
  documentType : NSString
  documentSubtype : NSString
  issuingCountry : NSString
  lastName : NSString
  firstName : NSString
  nativeLastName : Option NSString := none
  nativeFirstName : Option NSString := none
  documentNumber : Option NSString
  nationality : NSString
  birthDate : Option δ
  gender : Option NSString
  expiryDate : Option δ
  optional1 : Option NSString
  optional2 : Option NSString := none
  mrz : NSString
deriving DecidableEq

def mrzText (text : String) : NSString := text.toList.map unichar

def charValue (c : UInt16) : Option Nat :=
  if isDigit c then some (c.toNat - (unichar '0').toNat)
  else if isUppercase c then some (10 + c.toNat - (unichar 'A').toNat)
  else if c = unichar '<' then some 0
  else none

/-- The sum from the character with the index `i` on. -/
def weightedSum : Nat → NSString → Option Nat
  | _, [] => some 0
  | i, c :: text => do
    let d ← charValue c
    return d * [7, 3, 1].getD (i % 3) 0 + (← weightedSum (i + 1) text)

def isDataValid (data : NSString) (check : Int) : Bool :=
  match weightedSum 0 data with
  | none => false
  | some sum => ((sum % 10 : Nat) : Int) = check

def substring (text : NSString) (location length : Nat) : Except MrzException NSString :=
  if location + length ≤ text.length then .ok (text.substringWithRange ⟨location, length⟩) else .error .range

section
variable {δ : Type} (F : MrzFoundation δ)

def cleanString (text : NSString) : NSString := F.replacing text (mrzText "<") []

def nameString (text : NSString) : NSString := F.replacing text (mrzText "<") (mrzText " ")

def ensureNumberString (text : NSString) : NSString :=
  [unichar 'O', unichar 'U', unichar 'Q', unichar 'J'].foldl (fun text c => F.replacing text [c] [unichar '0']) text

def ensureAlphaString (text : NSString) : NSString :=
  (F.replacing text (mrzText "0") (mrzText "O")).map fun c => if isUppercase c then c else unichar '<'

/-- `isEqualToString:TGPassportEmptyCharacter` makes it nil. -/
def genderOf (text : NSString) : Option NSString := if text = mrzText "<" then none else some text

/-- A field and the value of its check digit. -/
def checkedField (text : NSString) (location length : Nat) : Except MrzException (NSString × Int) := do
  let field ← substring text location length
  let check ← substring text (location + length) 1
  return (ensureNumberString F field, F.integerValue (ensureNumberString F check))

def ifValid (field : NSString × Int) {α : Type} (value : Option α) : Option α :=
  if isDataValid field.1 field.2 then value else none

/-- The text that the last check digit is about. -/
def compositeData (number birthDate expiryDate : NSString × Int) (optional1 optional1CheckString : NSString) : NSString :=
  let digits (check : Int) : NSString := mrzText (toString check)
  number.1 ++ digits number.2 ++ birthDate.1 ++ digits birthDate.2 ++ expiryDate.1 ++ digits expiryDate.2 ++ optional1 ++
    optional1CheckString

/-- The changes that are made for an internal passport of Russia. -/
def russianPassport (optional1 : NSString) (result : TGPassportMRZ δ) : Except MrzException (TGPassportMRZ δ) := do
  let lastName := F.transliterateRussianMRZString result.lastName
  let firstName := F.transliterateRussianMRZString result.firstName
  let lastSeriesDigit ← substring optional1 0 1
  match result.documentNumber with
  | none => throw .nilString
  | some number =>
    let first ← substring number 0 3
    let last ← substring number 3 (number.length - 3)
    return { result with
      nativeLastName := some lastName
      lastName := F.transliterateRussianName lastName
      nativeFirstName := some firstName
      firstName := F.transliterateRussianName firstName
      documentNumber := some (first ++ lastSeriesDigit ++ last) }

def parseTwoLines (a b : NSString) : Except MrzException (Option (TGPassportMRZ δ)) := do
  if a.length ≠ 44 ∨ b.length ≠ 44 then return none
  let documentType ← substring a 0 1
  let documentSubtype ← substring a 1 1
  let issuingCountry ← substring a 2 3
  let fullName := F.trimming (← substring a 5 39)
  let names := F.componentsSeparatedByString fullName (mrzText "<<")
  let number ← checkedField F b 0 9
  let nationality ← substring b 10 3
  let birthDate ← checkedField F b 13 6
  let gender ← substring b 20 1
  let expiryDate ← checkedField F b 21 6
  let optional1 ← substring b 28 14
  let optional1CheckString := ensureNumberString F (← substring b 42 1)
  let optional1CheckValue := if optional1CheckString = mrzText "<" then 0 else F.integerValue optional1CheckString
  let dataCheck := F.integerValue (ensureNumberString F (← substring b 43 1))
  let result : TGPassportMRZ δ :=
    { documentType := documentType
      documentSubtype := cleanString F documentSubtype
      issuingCountry := cleanString F issuingCountry
      lastName := nameString F (names.headD [])
      firstName := nameString F (names.getLastD [])
      documentNumber := ifValid number (some number.1)
      nationality := nationality
      birthDate := ifValid birthDate (F.dateFromString birthDate.1)
      gender := genderOf gender
      expiryDate := ifValid expiryDate (F.dateFromString expiryDate.1)
      optional1 := ifValid (optional1, optional1CheckValue) (some (cleanString F optional1))
      mrz := a ++ mrzText "\n" ++ b }
  if !isDataValid (compositeData number birthDate expiryDate optional1 optional1CheckString) dataCheck then return none
  if result.documentType = mrzText "P" ∧ result.documentSubtype = mrzText "N" ∧ result.issuingCountry = mrzText "RUS" then
    return some (← russianPassport F optional1 result)
  return some result

def parseThreeLines (a b c : NSString) : Except MrzException (Option (TGPassportMRZ δ)) := do
  if a.length ≠ 30 ∨ b.length ≠ 30 ∨ c.length ≠ 30 then return none
  let documentType ← substring a 0 1
  let documentSubtype ← substring a 1 1
  let issuingCountry ← substring a 2 3
  let number ← checkedField F a 5 9
  let optional1 ← substring a 15 15
  let birthDateField := ensureNumberString F (← substring b 0 6)
  let birthDate := (birthDateField, F.integerValue (← substring b 6 1))
  let gender ← substring b 7 1
  let expiryDate ← checkedField F b 8 6
  let nationality ← substring b 15 3
  let optional2 ← substring b 18 11
  let names := F.componentsSeparatedByString (F.trimming (ensureAlphaString F c)) (mrzText "<<")
  return some
    { documentType := documentType
      documentSubtype := cleanString F documentSubtype
      issuingCountry := cleanString F issuingCountry
      lastName := nameString F (names.headD [])
      firstName := nameString F (names.getLastD [])
      documentNumber := ifValid number (some number.1)
      nationality := nationality
      birthDate := ifValid birthDate (F.dateFromString birthDate.1)
      gender := genderOf gender
      expiryDate := ifValid expiryDate (F.dateFromString expiryDate.1)
      optional1 := some (cleanString F optional1)
      optional2 := some optional2
      mrz := a ++ mrzText "\n" ++ b ++ mrzText "\n" ++ c }

def parseLines : List NSString → Except MrzException (Option (TGPassportMRZ δ))
  | [a, b] => parseTwoLines F a b
  | [a, b, c] => parseThreeLines F a b c
  | _ => .ok none

/-! ## What is reported -/

def fieldAt (text : NSString) (location length : Nat) : NSString × Int :=
  (ensureNumberString F (text.substringWithRange ⟨location, length⟩),
    F.integerValue (ensureNumberString F (text.substringWithRange ⟨location + length, 1⟩)))

/-- The date of birth of three lines, whose check digit is taken as it is. -/
def birthDateAt (b : NSString) : NSString × Int :=
  (ensureNumberString F (b.substringWithRange ⟨0, 6⟩), F.integerValue (b.substringWithRange ⟨6, 1⟩))

/-- What is reported is the value of a field whose check digit is right. -/
def Reports {α : Type} (reported : Option α) (field : NSString × Int) (value : Option α) : Prop :=
  ∀ x, reported = some x → isDataValid field.1 field.2 = true ∧ value = some x

/-- `PNRUS`. -/
def IsRussian (a : NSString) : Prop :=
  a.substringWithRange ⟨0, 1⟩ = mrzText "P" ∧ cleanString F (a.substringWithRange ⟨1, 1⟩) = mrzText "N" ∧
    cleanString F (a.substringWithRange ⟨2, 3⟩) = mrzText "RUS"

instance (a : NSString) : Decidable (IsRussian F a) := inferInstanceAs (Decidable (_ ∧ _ ∧ _))

/-- The last check digit of two lines. -/
def isCompositeValid (b : NSString) : Bool :=
  isDataValid (compositeData (fieldAt F b 0 9) (fieldAt F b 13 6) (fieldAt F b 21 6) (b.substringWithRange ⟨28, 14⟩)
    (ensureNumberString F (b.substringWithRange ⟨42, 1⟩)))
    (F.integerValue (ensureNumberString F (b.substringWithRange ⟨43, 1⟩)))

/-- The number of two lines, in an internal passport of Russia with the fourth digit from the optional data. -/
def reportedNumber (a b : NSString) : NSString :=
  let number := (fieldAt F b 0 9).1
  if IsRussian F a then number.take 3 ++ b.substringWithRange ⟨28, 1⟩ ++ number.drop 3 else number

/-- **Parsing is total and checked.** -/
def ParsesSafely (lines : List NSString) : Prop :=
  ∃ result, parseLines F lines = .ok result ∧ ∀ mrz, result = some mrz → match lines with
    | [a, b] => isCompositeValid F b = true ∧ Reports mrz.documentNumber (fieldAt F b 0 9) (some (reportedNumber F a b)) ∧
        Reports mrz.birthDate (fieldAt F b 13 6) (F.dateFromString (fieldAt F b 13 6).1) ∧
        Reports mrz.expiryDate (fieldAt F b 21 6) (F.dateFromString (fieldAt F b 21 6).1)
    | [a, b, _] =>
      Reports mrz.documentNumber (fieldAt F a 5 9) (some (fieldAt F a 5 9).1) ∧
        Reports mrz.birthDate (birthDateAt F b) (F.dateFromString (birthDateAt F b).1) ∧
        Reports mrz.expiryDate (fieldAt F b 8 6) (F.dateFromString (fieldAt F b 8 6).1)
    | _ => False

/-- An internal passport of Russia whose number fails its own check, where the last check digit is right. -/
def RussianUnchecked : List NSString → Prop
  | [a, b] => a.length = 44 ∧ b.length = 44 ∧ isCompositeValid F b = true ∧ IsRussian F a ∧
      isDataValid (fieldAt F b 0 9).1 (fieldAt F b 0 9).2 = false
  | _ => False

variable {F} {text a b c : NSString} {location length : Nat}

theorem substring_ok (h : location + length ≤ text.length) :
    substring text location length = .ok (text.substringWithRange ⟨location, length⟩) := if_pos h

theorem checkedField_ok (h : location + length + 1 ≤ text.length) :
    checkedField F text location length = .ok (fieldAt F text location length) := by
  rw [checkedField, substring_ok (by omega), substring_ok h]
  rfl

theorem length_ensureNumberString (text : NSString) : (ensureNumberString F text).length = text.length := by
  simp [ensureNumberString, F.length_replacing]

theorem reports_ifValid {α : Type} {field : NSString × Int} {value : Option α} :
    Reports (ifValid field value) field value := fun x hx => by
  unfold ifValid at hx
  split at hx
  next hvalid => exact ⟨hvalid, hx⟩
  next => cases hx

variable {optional1 : NSString} {result : TGPassportMRZ δ}

theorem russianPassport_eq {number : NSString} (hoptional1 : optional1.length = 14) (hnum : number.length = 9)
    (h : result.documentNumber = some number) :
    ∃ mrz, russianPassport F optional1 result = .ok mrz ∧ mrz.birthDate = result.birthDate ∧
      mrz.expiryDate = result.expiryDate ∧
      mrz.documentNumber = some (number.take 3 ++ optional1.take 1 ++ number.drop 3) := by
  refine ⟨?mrz, ?parsed, ?_, ?_, ?_⟩
  case parsed =>
    rw [russianPassport]
    simp only [h, substring_ok, hoptional1, hnum, Nat.reduceLeDiff, Nat.reduceAdd, Nat.reduceSub]
    rfl
  · rfl
  · rfl
  · simp [NSString.substringWithRange, List.take_of_length_le, hnum]

theorem russianPassport_unchecked (hoptional1 : optional1.length = 14) (h : result.documentNumber = none) :
    russianPassport F optional1 result = .error .nilString := by
  rw [russianPassport]
  simp only [h, substring_ok, hoptional1, Nat.reduceLeDiff, Nat.reduceAdd]
  rfl

theorem parseTwoLines_eq (ha : a.length = 44) (hb : b.length = 44) :
    ∃ mrz, parseTwoLines F a b = (if !isCompositeValid F b then .ok none
        else if IsRussian F a then some <$> russianPassport F (b.substringWithRange ⟨28, 14⟩) mrz
        else .ok (some mrz)) ∧ mrz.documentNumber = ifValid (fieldAt F b 0 9) (some (fieldAt F b 0 9).1) ∧
      mrz.birthDate = ifValid (fieldAt F b 13 6) (F.dateFromString (fieldAt F b 13 6).1) ∧
      mrz.expiryDate = ifValid (fieldAt F b 21 6) (F.dateFromString (fieldAt F b 21 6).1) := by
  refine ⟨?mrz, ?parsed, ?_, ?_, ?_⟩
  case parsed =>
    rw [parseTwoLines, if_neg (by simp [ha, hb])]
    simp only [substring_ok, checkedField_ok, ha, hb, Nat.reduceLeDiff, Nat.reduceAdd, map_eq_pure_bind]
    rfl
  all_goals rfl

theorem parseThreeLines_eq (ha : a.length = 30) (hb : b.length = 30) (hc : c.length = 30) :
    ∃ mrz, parseThreeLines F a b c = .ok (some mrz) ∧
      mrz.documentNumber = ifValid (fieldAt F a 5 9) (some (fieldAt F a 5 9).1) ∧
      mrz.birthDate = ifValid (birthDateAt F b) (F.dateFromString (birthDateAt F b).1) ∧
      mrz.expiryDate = ifValid (fieldAt F b 8 6) (F.dateFromString (fieldAt F b 8 6).1) := by
  refine ⟨?mrz, ?parsed, ?_, ?_, ?_⟩
  case parsed =>
    rw [parseThreeLines, if_neg (by simp [ha, hb, hc])]
    simp only [substring_ok, checkedField_ok, ha, hb, Nat.reduceLeDiff, Nat.reduceAdd]
    rfl
  all_goals rfl

theorem length_fieldAt (h : location + length ≤ text.length) :
    (fieldAt F text location length).1.length = length := by
  simp only [fieldAt, length_ensureNumberString, NSString.substringWithRange, List.length_take, List.length_drop]
  omega

theorem parsesSafely_threeLines : ParsesSafely F [a, b, c] := by
  by_cases hlen : a.length ≠ 30 ∨ b.length ≠ 30 ∨ c.length ≠ 30
  · exact ⟨none, if_pos hlen, fun _ h => nomatch h⟩
  · simp only [not_or, not_not] at hlen
    obtain ⟨mrz, hparse, hnum, hbirthDate, hexpiryDate⟩ := parseThreeLines_eq hlen.1 hlen.2.1 hlen.2.2
    refine ⟨some mrz, hparse, fun _ h => ?_⟩
    cases h
    exact ⟨hnum ▸ reports_ifValid, hbirthDate ▸ reports_ifValid, hexpiryDate ▸ reports_ifValid⟩

theorem parsesSafely_twoLines (ha : a.length = 44) (hb : b.length = 44) :
    ParsesSafely F [a, b] ↔ ¬RussianUnchecked F [a, b] := by
  obtain ⟨mrz, hparse, hnum, hbirthDate, hexpiryDate⟩ := parseTwoLines_eq (F := F) ha hb
  cases hcomposite : isCompositeValid F b with
  | false =>
    rw [hcomposite] at hparse
    exact iff_of_true ⟨none, hparse, fun _ h => nomatch h⟩ fun h => nomatch hcomposite.symm.trans h.2.2.1
  | true =>
    rw [hcomposite, if_neg (by simp)] at hparse
    have hoptional1 : (b.substringWithRange ⟨28, 14⟩).length = 14 := by simp [NSString.substringWithRange, hb]
    by_cases hrussian : IsRussian F a
    · rw [if_pos hrussian] at hparse
      cases hvalid : isDataValid (fieldAt F b 0 9).1 (fieldAt F b 0 9).2 with
      | false =>
        refine iff_of_false (fun ⟨result, hres, _⟩ => ?_) (not_not.2 ⟨ha, hb, hcomposite, hrussian, hvalid⟩)
        rw [russianPassport_unchecked hoptional1 (by rw [hnum, ifValid, hvalid]; rfl)] at hparse
        exact nomatch hparse.symm.trans hres
      | true =>
        obtain ⟨full, hfull, hfullBirthDate, hfullExpiryDate, hfullNumber⟩ := russianPassport_eq (F := F) hoptional1
          (length_fieldAt (by omega)) (hnum.trans (if_pos hvalid))
        rw [hfull] at hparse
        refine iff_of_true ⟨some full, hparse, fun _ h => ?_⟩ fun h => nomatch hvalid.symm.trans h.2.2.2.2
        cases h
        refine ⟨hcomposite, fun number h => ⟨hvalid, ?_⟩, ?_, ?_⟩
        · rw [← h, hfullNumber, reportedNumber, if_pos hrussian]
          simp [NSString.substringWithRange, List.take_take]
        · rw [hfullBirthDate, hbirthDate]
          exact reports_ifValid
        · rw [hfullExpiryDate, hexpiryDate]
          exact reports_ifValid
    · rw [if_neg hrussian] at hparse
      refine iff_of_true ⟨some mrz, hparse, fun _ h => ?_⟩ fun h => hrussian h.2.2.2.1
      cases h
      refine ⟨hcomposite, ?_, hbirthDate ▸ reports_ifValid, hexpiryDate ▸ reports_ifValid⟩
      rw [hnum, reportedNumber, if_neg hrussian]
      exact reports_ifValid

/-- Parsing fails its contract exactly for a Russian passport whose number is not checked. -/
theorem parsesSafely_iff (F : MrzFoundation δ) (lines : List NSString) :
    ParsesSafely F lines ↔ ¬RussianUnchecked F lines := by
  match lines with
  | [a, b] =>
    by_cases hlength : a.length ≠ 44 ∨ b.length ≠ 44
    · refine iff_of_true ⟨none, if_pos hlength, fun _ h => nomatch h⟩ fun h => ?_
      exact hlength.elim (absurd h.1) (absurd h.2.1)
    · simp only [not_or, not_not] at hlength
      exact parsesSafely_twoLines hlength.1 hlength.2
  | [a, b, c] => exact iff_of_true parsesSafely_threeLines id
  | [] | [_] | _ :: _ :: _ :: _ :: _ => exact iff_of_true ⟨none, rfl, fun _ h => nomatch h⟩ id

/-- The parts between the occurrences of a separator; the next `skip` characters are of one. -/
def separated (separator : NSString) : Nat → NSString → NSString → List NSString
  | _, part, [] => [part]
  | skip + 1, part, _ :: text => separated separator skip part text
  | 0, part, c :: text =>
    if separator.isPrefixOf (c :: text) then part :: separated separator (separator.length - 1) [] text
    else separated separator 0 (part ++ [c]) text

/-- Foundation for texts of one digit, without dates and Russian letters, which are not needed to see the exception. -/
def plainFoundation : MrzFoundation Unit where
  replacing text pattern other := text.flatMap fun c => if [c] = pattern then other else [c]
  length_replacing text c d := by
    induction text with
    | nil => rfl
    | cons _ text ih =>
      rw [List.flatMap_cons, List.length_append, ih]
      split <;> simp [Nat.add_comm]
  trimming text := ((text.dropWhile (· = unichar '<')).reverse.dropWhile (· = unichar '<')).reverse
  componentsSeparatedByString text separator := separated separator 0 [] text
  integerValue text := if isDigit (text.headD 0) then (text.headD 0).toNat - (unichar '0').toNat else 0
  dateFromString _ := none
  transliterateRussianMRZString := id
  transliterateRussianName := id

example : (plainFoundation.componentsSeparatedByString (plainFoundation.trimming (mrzText "IVANOV<<IVAN<<<")) (mrzText "<<")) =
    [mrzText "IVANOV", mrzText "IVAN"] := by
  decide +kernel

/-- The number `000000000` with the check digit 1, and the right last check digit 7. -/
theorem russianPassport_raises :
    ¬ParsesSafely plainFoundation [mrzText "PNRUSIVANOV<<IVAN<<<<<<<<<<<<<<<<<<<<<<<<<<<",
      mrzText "0000000001RUS0000000M0000000<<<<<<<<<<<<<<07"] := by
  rintro ⟨result, hresult, -⟩
  have herror : parseLines plainFoundation [mrzText "PNRUSIVANOV<<IVAN<<<<<<<<<<<<<<<<<<<<<<<<<<<",
      mrzText "0000000001RUS0000000M0000000<<<<<<<<<<<<<<07"] = .error .nilString := by decide +kernel
  exact nomatch herror.symm.trans hresult

end

end TelegramClient.Passport
