import TelegramClient.Coding.KeyValueDecoder

/-!
# The round trip of the key-value coder

* `CoderProgram.run` : a program that gets from every call what was encoded, at every level;
* `encodedFields_answered_iff` : **every program gets back what was encoded, in whatever order it asks**, unless a string
  has a surrogate without its pair.
-/

namespace TelegramClient.Coding
open List
open Option (bind_eq_bind bind_some)

/-! ## What should be read -/

/-- A value with its objects made by their classes. -/
inductive DecodedValue (ρ : Type) where
  | string (string : NSString)
  | int32 (number : BitVec 32)
  | int64 (number : BitVec 64)
  | object (object : Option ρ)
  | array (array : List ρ)
  | data (data : Bytes)
  | int32Array (value : List (BitVec 32))
  | int32Dictionary (value : BitVec 32 → Option ρ)
  | double (value : BitVec 64)

section
variable {ρ σ : Type}

/-- The value as the method of its type returns it. -/
def DecodedValue.as : (accessor : Accessor) → DecodedValue ρ → Option (accessor.Result ρ)
  | .string, .string s => some (some s)
  | .int32, .int32 n => some n
  | .int64, .int64 n => some n
  | .object, .object o => some o
  | .array, .array os => some (some os)
  | .data, .data bytes => some (some bytes)
  | .bytes maxLength, .data bytes => some (bytes.take (maxLength % 2 ^ 32))
  | .int32Array, .int32Array ns => some (some ns)
  | .int32Dictionary, .int32Dictionary dict => some (some dict)
  | .double, .double bits => some bits
  | _, _ => none

/-- What a call returns: the value of the key, or the default where there is none. -/
def answer (fields : List (Bytes × DecodedValue ρ)) (key : Bytes) (accessor : Accessor) : accessor.Result ρ :=
  ((fields.lookup key).bind (DecodedValue.as accessor)).getD (accessor.absent ρ)

def CoderProgram.run (fields : List (Bytes × DecodedValue ρ)) : CoderProgram ρ σ → σ
  | .done result => result
  | .ask key accessor next => (next (answer fields key accessor)).run fields

/-- Every key that is there is asked for with the method of its type. -/
def CoderProgram.Matches (fields : List (Bytes × DecodedValue ρ)) : CoderProgram ρ σ → Prop
  | .done _ => True
  | .ask key accessor next =>
    (∀ value, fields.lookup key = some value → (value.as accessor).isSome) ∧
      (next (answer fields key accessor)).Matches fields

section
variable (classes : Bytes → Option (CoderProgram ρ (Option ρ)))

mutual

def decodedObject : CodedObject → Option ρ
  | .mk className fields => (classes className).bind fun init => init.run (decodedFields fields)

def decodedValue : CodedValue → DecodedValue ρ
  | .string string => .string string
  | .int32 number => .int32 number
  | .int64 number => .int64 number
  | .object object => .object (decodedObject object)
  | .array array => .array (decodedObjects array)
  | .data data => .data data
  | .int32Array value => .int32Array value
  | .int32Dictionary value => .int32Dictionary (decodedEntries value)
  | .double value => .double value

def decodedFields : List (Bytes × CodedValue) → List (Bytes × DecodedValue ρ)
  | [] => []
  | (key, value) :: fields => (key, decodedValue value) :: decodedFields fields

def decodedObjects : List CodedObject → List ρ
  | [] => []
  | object :: objects => (decodedObject object).toList ++ decodedObjects objects

def decodedEntries : List (BitVec 32 × CodedObject) → BitVec 32 → Option ρ
  | [], _ => none
  | (objectKey, object) :: entries, key => if key = objectKey then decodedObject object else decodedEntries entries key

end

end

/-- Every surrogate of the string has its pair. -/
def Paired (string : NSString) : Prop := (charsOfUnits string).isSome

/-- No string among the values has a surrogate without its pair. -/
def StringsPaired (fields : CodedFields) : Prop := ∀ field ∈ fields, ∀ string, field.2 = .string string → Paired string

def CodedValue.objects : CodedValue → List CodedObject
  | .object o => [o]
  | .array os => os
  | .int32Dictionary entries => entries.map Prod.snd
  | _ => []

def CodedValue.counted : CodedValue → Bytes
  | .string s => utf8Bytes s
  | .object (.mk className fields) => className ++ ([0] ++ fieldsBytes fields)
  | .array os => lengthBytes 4 (os.length % 2 ^ 32) ++ objectsBytes os
  | .data bytes => bytes
  | .int32Dictionary entries => lengthBytes 4 (entries.length % 2 ^ 32) ++ entriesBytes entries
  | _ => []

/-- The length of an object, an array or a dictionary, which stands in four bytes, is skipped along with them. -/
def CodedValue.skippedWith : CodedValue → Nat
  | .object _ => 4
  | .array _ => 4
  | .int32Dictionary _ => 4
  | _ => 0

/-- The values that `skipField` has a case for, of which what is skipped fits in the 32 bits for it. -/
def CodedValue.Skippable (value : CodedValue) : Prop :=
  value.fieldType ≠ .int32Array ∧ value.skippedWith + value.counted.length < 2 ^ 32

structure FieldsOk (fields : CodedFields) : Prop where
  keys : (fields.map Prod.fst).Nodup
  keyLength : ∀ field ∈ fields, field.1.length ≤ 1000
  types : ∀ field ∈ fields, field.2.fieldType ≠ .int32Array
  dictionaries : ∀ field ∈ fields, ∀ value, field.2 = .int32Dictionary value → (value.map Prod.fst).Nodup

/-- The class of an object is known, and asks for the fields with the methods of their types. -/
structure ClassOk (classes : Bytes → Option (CoderProgram ρ (Option ρ))) (className : Bytes) (fields : CodedFields) :
    Prop where
  name : (0 : UInt8) ∉ className
  known : ∃ init, classes className = some init ∧ init.Matches (decodedFields classes fields)

inductive WellFormed (classes : Bytes → Option (CoderProgram ρ (Option ρ))) : CodedFields → Prop where
  | mk {fields : CodedFields} (ok : FieldsOk fields)
      (objects : ∀ field ∈ fields, ∀ className inner, .mk className inner ∈ field.2.objects →
        ClassOk classes className inner)
      (inner : ∀ field ∈ fields, ∀ className inner, .mk className inner ∈ field.2.objects → WellFormed classes inner) :
      WellFormed classes fields

/-- The fields of the record, and those of every object in it. -/
inductive Level : CodedFields → CodedFields → Prop where
  | self (fields : CodedFields) : Level fields fields
  | inner {fields inner level : CodedFields} {field : Bytes × CodedValue} {className : Bytes} (hfield : field ∈ fields)
      (hobject : .mk className inner ∈ field.2.objects) (h : Level inner level) : Level fields level

end

/-! ## Reading at a pointer -/

section
variable {data : Bytes} {ptr : Nat}

variable {result shift : Nat}

theorem or_shiftLeft_mod {n : Nat} (hres : result < 2 ^ shift) (hn : result + 2 ^ shift * n < 2 ^ 32) :
    (result ||| n <<< shift) % 2 ^ 32 = result + 2 ^ shift * n := by
  rw [Nat.shiftLeft_eq, Nat.mul_comm n, Nat.or_comm, ← Nat.two_pow_add_eq_or_of_lt hres, Nat.add_comm,
    Nat.mod_eq_of_lt hn]

variable {value : Nat}

theorem readLengthLoop_spec (rounds : Nat) (hval : value < 128 ^ (rounds + 1)) (hres : result < 2 ^ shift)
    (hfits : result + 2 ^ shift * value < 2 ^ 32) (h : HoldsAt data ptr (lengthBytes rounds value)) :
    readLengthLoop data rounds shift result ptr =
      some (result + 2 ^ shift * value, ptr + (lengthBytes rounds value).length) := by
  induction rounds generalizing shift result value ptr with
  | zero =>
    have hbyte : (UInt8.ofNat (value % 128)).toNat % 128 = value := by
      rw [UInt8.toNat_ofNat']
      omega
    rw [lengthBytes] at h
    rw [readLengthLoop, h.getElem]
    simp only [bind_eq_bind, bind_some, hbyte, or_shiftLeft_mod hres hfits, lengthBytes]
    rfl
  | succ rounds ih =>
    rw [lengthBytes] at h ⊢
    split at h
    next hlarge =>
        rw [if_pos hlarge]
        have hbyte : (UInt8.ofNat (value % 128 + 128)).toNat = value % 128 + 128 := by
          rw [UInt8.toNat_ofNat']
          omega
        have hsplit : 2 ^ shift * value = 2 ^ shift * (value % 128) + 2 ^ (shift + 7) * (value / 128) := by
          rw [Nat.pow_add, Nat.mul_assoc, ← Nat.mul_add]
          congr 1
          omega
        have hlow : result + 2 ^ shift * (value % 128) < 2 ^ (shift + 7) := by
          have : 2 ^ shift * (value % 128) + 2 ^ shift ≤ 2 ^ shift * 128 := by
            rw [← Nat.mul_succ]
            exact Nat.mul_le_mul_left _ (by omega)
          rw [Nat.pow_add]
          omega
        have hrest : value / 128 < 128 ^ (rounds + 1) := by
          rw [Nat.pow_succ] at hval
          omega
        rw [readLengthLoop, h.getElem]
        simp only [bind_eq_bind, bind_some, hbyte, Nat.add_mod_right, Nat.mod_mod]
        rw [or_shiftLeft_mod hres (by omega), if_pos (by omega), ih hrest hlow (by omega) h.tail,
          length_cons, hsplit]
        congr 2 <;> omega
    next hsmall =>
        rw [if_neg hsmall]
        have hbyte : (UInt8.ofNat (value % 128)).toNat = value := by
          rw [UInt8.toNat_ofNat']
          omega
        rw [readLengthLoop, h.getElem]
        simp only [bind_eq_bind, bind_some, hbyte]
        rw [if_neg (by omega), Nat.mod_eq_of_lt (by omega : value < 128), or_shiftLeft_mod hres hfits]
        rfl

theorem readLength_spec (hval : value < 2 ^ 32) (h : HoldsAt data ptr (lengthBytes 4 value)) :
    readLength data ptr = some (value, ptr + (lengthBytes 4 value).length) := by
  have hspec : readLengthLoop data 4 0 0 ptr = some (0 + 2 ^ 0 * value, ptr + (lengthBytes 4 value).length) :=
    readLengthLoop_spec 4 (by omega) (by simp) (by omega) h
  rw [Nat.pow_zero, Nat.one_mul, Nat.zero_add] at hspec
  exact hspec

theorem readInt_spec {w : Nat} (hw : w % 8 = 0) {x : BitVec w} (h : HoldsAt data ptr (leBits x)) :
    readInt data w ptr = some (x, ptr + (leBits x).length) := by
  have hbs := h.bytesAt
  rw [length_leBits] at hbs
  rw [readInt, hbs, length_leBits]
  simp [ofLeBits_leBits hw]

variable {bytes : Bytes}

theorem readData_spec (hlength : bytes.length < 2 ^ 32) (h : HoldsAt data ptr (block bytes)) :
    readData data ptr = some (bytes, ptr + (block bytes).length) := by
  rw [block, Nat.mod_eq_of_lt hlength] at h ⊢
  obtain ⟨hlen, hbs⟩ := holdsAt_append.mp h
  rw [readData, readLength_spec hlength hlen]
  simp [hbs.bytesAt, Nat.add_assoc]

/-- A length is taken modulo `2^32`. -/
theorem skipData_eq (h : HoldsAt data ptr (block bytes)) : skipData data ptr =
      some (ptr + ((lengthBytes 4 (bytes.length % 2 ^ 32)).length + bytes.length % 2 ^ 32)) := by
  obtain ⟨hlen, -⟩ := holdsAt_append.mp h
  rw [skipData, readLength_spec (Nat.mod_lt _ (by decide)) hlen]
  simp [Nat.add_assoc]

theorem readBytes_spec (hlength : bytes.length < 2 ^ 32) (maxLength : Nat) (h : HoldsAt data ptr (block bytes)) :
    readBytes data maxLength ptr = some (bytes.take (maxLength % 2 ^ 32), ptr + (block bytes).length) := by
  rw [block, Nat.mod_eq_of_lt hlength] at h ⊢
  obtain ⟨hlen, hbs⟩ := holdsAt_append.mp h
  have hcopied : bytesAt data (ptr + (lengthBytes 4 bytes.length).length) (min (maxLength % 2 ^ 32) bytes.length) =
      some (bytes.take (maxLength % 2 ^ 32)) := by
    rw [← take_append_drop (maxLength % 2 ^ 32) bytes] at hbs
    have := (holdsAt_append.mp hbs).1.bytesAt
    rwa [length_take, take_append_drop] at this
  rw [readBytes, readLength_spec hlength hlen]
  simp only [bind_eq_bind, bind_some, hcopied, length_append, Nat.add_assoc]
  rfl

theorem fromUTF8_toUTF8 (string : String) : String.fromUTF8? ⟨string.toUTF8.data.toList.toArray⟩ = some string := by
  have hvalid : string.toUTF8.IsValidUTF8 := string.isValidUTF8
  simp only [Array.toArray_toList]
  rw [String.fromUTF8?, dif_pos hvalid]
  rfl

variable {string : NSString}

theorem fromUTF8_utf8Bytes (hpaired : Paired string) :
    (String.fromUTF8? ⟨(utf8Bytes string).toArray⟩).map nsString = some string := by
  obtain ⟨chars, hchars⟩ := Option.isSome_iff_exists.mp hpaired
  rw [utf8Bytes, dataUsingEncoding, hchars, Option.map_some, Option.getD_some, fromUTF8_toUTF8, Option.map_some, nsString,
    String.toList_ofList, flatMap_utf16Units hchars]

theorem readString_spec (hpaired : Paired string) (hlen : (utf8Bytes string).length < 2 ^ 32)
    (h : HoldsAt data ptr (block (utf8Bytes string))) :
    readString data ptr = some (some string, ptr + (block (utf8Bytes string)).length) := by
  rw [readString, readData_spec hlen h]
  simp [fromUTF8_utf8Bytes hpaired]

theorem readInt_sized (hlength : bytes.length < 2 ^ 32) (h : HoldsAt data ptr (sized bytes)) :
    readInt data 32 ptr = some (BitVec.ofNat 32 bytes.length, ptr + 4) ∧
      (BitVec.ofNat 32 bytes.length).toNat = bytes.length ∧ HoldsAt data (ptr + 4) bytes := by
  obtain ⟨hlen, hbs⟩ := holdsAt_append.mp h
  refine ⟨readInt_spec rfl hlen, ?_, hbs⟩
  rw [BitVec.toNat_ofNat, Nat.mod_eq_of_lt hlength]

theorem length_sized (bytes : Bytes) : (sized bytes).length = 4 + bytes.length := by simp [sized]

theorem skipObject_eq (h : HoldsAt data ptr (sized bytes)) :
    skipObject data ptr = some (ptr + (4 + bytes.length) % 2 ^ 32) := by
  obtain ⟨hlen, -⟩ := holdsAt_append.mp h
  rw [skipObject, readInt_spec rfl hlen]
  simp

end

/-! ## The search -/

section
variable {data : Bytes} {ptr : Nat}

theorem length_lt_of_holdsAt (hdata : data.length < 2 ^ 31) {x : Bytes} (h : HoldsAt data ptr x) : x.length < 2 ^ 32 := by
  have := h.le
  omega

theorem length_counted_le (value : CodedValue) :
    value.skippedWith + value.counted.length ≤ (valueBytes value).length := by
  cases value with
  | object object =>
    cases object with
    | mk className fields =>
      rw [valueBytes, objectBytes, length_sized]
      exact Nat.le_refl _
  | _ => simp [CodedValue.skippedWith, CodedValue.counted, valueBytes, block, sized]

/-- The bytes of a value that `skipField` goes over. -/
def CodedValue.skippedLength (value : CodedValue) : Nat :=
  (valueBytes value).length - (value.skippedWith + value.counted.length) +
    (value.skippedWith + value.counted.length) % 2 ^ 32

variable {value : CodedValue}

theorem skipField_eq (hty : value.fieldType ≠ .int32Array)
    (h : HoldsAt data ptr ([value.fieldType.rawValue] ++ valueBytes value)) :
    skipField data ptr = some (ptr + (1 + value.skippedLength)) := by
  have hval : HoldsAt data (ptr + 1) (valueBytes value) := h.tail
  rw [singleton_append] at h
  rw [skipField, h.getElem, ← Nat.add_assoc]
  simp only [bind_eq_bind, bind_some, PSKeyValueCoderFieldType.ofRawValue_rawValue]
  have hblock (bytes : Bytes) : (block bytes).length - (0 + bytes.length) =
      (lengthBytes 4 (bytes.length % 2 ^ 32)).length := by
    rw [block, length_append, Nat.zero_add, Nat.add_sub_cancel]
  have hsized (bytes : Bytes) : (sized bytes).length - (4 + bytes.length) = 0 := by
    rw [length_sized, Nat.sub_self]
  unfold CodedValue.skippedLength CodedValue.skippedWith
  cases value with
  | string string | data value =>
    rw [valueBytes] at hval ⊢
    rw [CodedValue.counted, hblock, Nat.zero_add]
    exact skipData_eq hval
  | int32 number | int64 number | double value => simp [CodedValue.fieldType, CodedValue.counted, valueBytes]
  | object object =>
    cases object with
    | mk className fields =>
      rw [valueBytes, objectBytes] at hval ⊢
      rw [CodedValue.counted, hsized, Nat.zero_add]
      exact skipObject_eq hval
  | array array | int32Dictionary value =>
    rw [valueBytes] at hval ⊢
    rw [CodedValue.counted, hsized, Nat.zero_add]
    exact skipObject_eq hval
  | int32Array value => exact absurd rfl hty

/-- **A field is skipped to its end.** -/
theorem skipField_spec (hskip : value.Skippable)
    (h : HoldsAt data ptr ([value.fieldType.rawValue] ++ valueBytes value)) :
    skipField data ptr = some (ptr + (1 + (valueBytes value).length)) := by
  have hle := length_counted_le value
  rw [skipField_eq hskip.1 h, CodedValue.skippedLength, Nat.mod_eq_of_lt hskip.2, Nat.sub_add_cancel hle]

theorem skippable_of_holdsAt (hdata : data.length < 2 ^ 31) (hty : value.fieldType ≠ .int32Array)
    (h : HoldsAt data ptr (valueBytes value)) : value.Skippable := by
  have hle := length_counted_le value
  have hlt := length_lt_of_holdsAt hdata h
  exact ⟨hty, by omega⟩

variable {fields : CodedFields}

theorem skippable_of_fields (hdata : data.length < 2 ^ 31) (hty : ∀ field ∈ fields, field.2.fieldType ≠ .int32Array)
    (h : HoldsAt data ptr (fieldsBytes fields)) : ∀ field ∈ fields, field.2.Skippable := by
  intro field hfield
  obtain ⟨first, last, rfl⟩ := append_of_mem hfield
  rw [fieldsBytes_append, fieldsBytes_cons, fieldBytes] at h
  have hval := (holdsAt_append.mp (holdsAt_append.mp (holdsAt_append.mp h).2).1).2
  exact skippable_of_holdsAt hdata (hty field hfield) hval.tail

variable {key : Bytes}

theorem keyMatches_spec {other : Bytes} (h : HoldsAt data ptr other) :
    keyMatches data key other.length ptr = some (other == key) := by
  unfold keyMatches
  split
  next hlen =>
      rw [← hlen, h.bytesAt]
      rfl
  next hlen =>
      have hne : other ≠ key := by
        rintro rfl
        exact hlen rfl
      rw [beq_eq_false_iff_ne.mpr hne]

variable {scanEnd rounds : Nat}

theorem scanLoop_other {field : Bytes × CodedValue} (hne : field.1 ≠ key) (hlength : field.1.length ≤ 1000)
    (hskippable : field.2.Skippable) (hptr : ptr < scanEnd) (h : HoldsAt data ptr (fieldBytes field)) :
    scanLoop data key scanEnd (rounds + 1) ptr =
      scanLoop data key scanEnd rounds (ptr + (fieldBytes field).length) := by
  obtain ⟨hkey, hval⟩ := holdsAt_append.mp h
  rw [block, Nat.mod_eq_of_lt (by omega)] at hkey
  obtain ⟨hlen, hkey⟩ := holdsAt_append.mp hkey
  rw [scanLoop, if_pos hptr, readLength_spec (by omega) hlen]
  simp only [bind_eq_bind, bind_some, keyMatches_spec hkey, beq_eq_false_iff_ne.mpr hne,
    Bool.false_eq_true, if_false]
  rw [if_neg (by omega)]
  have hskip := skipField_spec hskippable hval
  rw [block, Nat.mod_eq_of_lt (by omega), length_append, ← Nat.add_assoc] at hskip
  rw [hskip]
  simp only [bind_some]
  congr 1
  simp only [fieldBytes, block, Nat.mod_eq_of_lt (show field.1.length < 2 ^ 32 by omega), length_append,
    length_singleton]
  omega

theorem scanLoop_found (hptr : ptr < scanEnd) (hlength : key.length ≤ 1000)
    (h : HoldsAt data ptr (fieldBytes (key, value))) :
    scanLoop data key scanEnd (rounds + 1) ptr = some (.found (ptr + (block key).length)) := by
  obtain ⟨hkey, -⟩ := holdsAt_append.mp h
  dsimp only at hkey
  rw [block, Nat.mod_eq_of_lt (by omega)] at hkey
  obtain ⟨hlen, hkey⟩ := holdsAt_append.mp hkey
  rw [scanLoop, if_pos hptr, readLength_spec (by omega) hlen]
  simp only [bind_eq_bind, bind_some, keyMatches_spec hkey, beq_self_eq_true, if_true, block,
    Nat.mod_eq_of_lt (show key.length < 2 ^ 32 by omega), length_append, Nat.add_assoc]
  rfl

theorem length_lengthBytes_pos (rounds value : Nat) : 0 < (lengthBytes rounds value).length := by
  cases rounds with
  | zero => simp [lengthBytes]
  | succ rounds =>
    rw [lengthBytes]
    split <;> simp

theorem length_fieldBytes_pos (field : Bytes × CodedValue) : 0 < (fieldBytes field).length := by
  have := length_lengthBytes_pos 4 (field.1.length % 2 ^ 32)
  simp only [fieldBytes, block, length_append]
  omega

/-- **A search over fields that do not have the key** goes to the end of them. -/
theorem scanLoop_passed (hkey : key ∉ fields.map Prod.fst) (hlen : ∀ field ∈ fields, field.1.length ≤ 1000)
    (hskip : ∀ field ∈ fields, field.2.Skippable) (hend : ptr + (fieldsBytes fields).length ≤ scanEnd)
    (hrounds : (fieldsBytes fields).length ≤ rounds) (h : HoldsAt data ptr (fieldsBytes fields)) :
    ∃ rounds', rounds - (fieldsBytes fields).length ≤ rounds' ∧ scanLoop data key scanEnd rounds ptr =
      scanLoop data key scanEnd rounds' (ptr + (fieldsBytes fields).length) := by
  induction fields generalizing ptr rounds with
  | nil => exact ⟨rounds, by omega, by rw [fieldsBytes]; rfl⟩
  | cons field fields ih =>
    rw [map_cons, mem_cons, not_or] at hkey
    rw [fieldsBytes_cons] at h hend hrounds ⊢
    rw [length_append] at hend hrounds
    obtain ⟨hfield, hfields⟩ := holdsAt_append.mp h
    have hpos := length_fieldBytes_pos field
    obtain ⟨rounds, rfl⟩ := Nat.exists_eq_succ_of_ne_zero (show rounds ≠ 0 by omega)
    rw [scanLoop_other (Ne.symm hkey.1) (hlen field mem_cons_self) (hskip field mem_cons_self)
      (by omega) hfield]
    have hleft : (fieldsBytes fields).length ≤ rounds := by omega
    obtain ⟨rounds', hrounds', hscan⟩ := ih hkey.2 (fun f hf => hlen f (mem_cons_of_mem _ hf))
      (fun f hf => hskip f (mem_cons_of_mem _ hf)) (by omega) hleft hfields
    refine ⟨rounds', ?_, ?_⟩
    · rw [length_append]
      omega
    · rw [hscan, length_append, Nat.add_assoc]

theorem scan_absent (hkey : key ∉ fields.map Prod.fst) (hlen : ∀ field ∈ fields, field.1.length ≤ 1000)
    (hskip : ∀ field ∈ fields, field.2.Skippable) (h : HoldsAt data ptr (fieldsBytes fields)) :
    scan data key ptr (ptr + (fieldsBytes fields).length) = some (.ended (ptr + (fieldsBytes fields).length)) := by
  have hrounds : (fieldsBytes fields).length ≤ ptr + (fieldsBytes fields).length - ptr := by omega
  obtain ⟨rounds, -, hscan⟩ := scanLoop_passed hkey hlen hskip (Nat.le_refl _) hrounds h
  rw [scan, hscan, scanLoop.eq_def]
  exact if_neg (Nat.lt_irrefl _)

theorem scan_present {first last : CodedFields} (hkey : key ∉ first.map Prod.fst) (hkeyLength : key.length ≤ 1000)
    (hlen : ∀ field ∈ first, field.1.length ≤ 1000) (hskip : ∀ field ∈ first, field.2.Skippable)
    (hend : ptr + (fieldsBytes (first ++ (key, value) :: last)).length ≤ scanEnd)
    (h : HoldsAt data ptr (fieldsBytes (first ++ (key, value) :: last))) :
    scan data key ptr scanEnd = some (.found (ptr + (fieldsBytes first).length + (block key).length)) := by
  rw [fieldsBytes_append, fieldsBytes_cons] at h hend
  simp only [length_append] at hend
  obtain ⟨hfirst, hrest⟩ := holdsAt_append.mp h
  have hpos := length_fieldBytes_pos (key, value)
  have hfirstEnd : ptr + (fieldsBytes first).length ≤ scanEnd := by omega
  have hrounds : (fieldsBytes first).length ≤ scanEnd - ptr := by omega
  obtain ⟨rounds, hrounds, hscan⟩ := scanLoop_passed hkey hlen hskip hfirstEnd hrounds hfirst
  obtain ⟨rounds, rfl⟩ := Nat.exists_eq_succ_of_ne_zero (show rounds ≠ 0 by omega)
  rw [scan, hscan, scanLoop_found (by omega) hkeyLength (holdsAt_append.mp hrest).1]

end

/-! ## The pointer between two fields -/

/-- The decoder is over these fields, and its pointer is where a field begins or at the end. -/
structure OnFields (data : Bytes) (fields : CodedFields) (decoder : PSKeyValueDecoder) : Prop where
  holds : HoldsAt data decoder.beginPtr (fieldsBytes fields)
  endPtr : decoder.endPtr = decoder.beginPtr + (fieldsBytes fields).length
  currentPtr : ∃ before after, fields = before ++ after ∧ decoder.currentPtr = decoder.beginPtr + (fieldsBytes before).length

section
variable {data : Bytes} (hdata : data.length < 2 ^ 31) {fields : CodedFields} (hok : FieldsOk fields)
  {decoder : PSKeyValueDecoder}
include hdata hok

variable {key : Bytes}

/-- **A key that is not there** leaves the decoder between two fields. -/
theorem skipToValueForRawKey_absent (hdec : OnFields data fields decoder) (hkey : key ∉ fields.map Prod.fst) :
    skipToValueForRawKey data key decoder = some (false, decoder) := by
  obtain ⟨before, after, rfl, hcur⟩ := hdec.currentPtr
  have hholds := hdec.holds
  rw [fieldsBytes_append] at hholds
  obtain ⟨hbefore, hafter⟩ := holdsAt_append.mp hholds
  rw [map_append, mem_append, not_or] at hkey
  have hend : decoder.endPtr = decoder.currentPtr + (fieldsBytes after).length := by
    rw [hdec.endPtr, hcur, fieldsBytes_append, length_append, Nat.add_assoc]
  rw [← hcur] at hafter
  have hskip := skippable_of_fields hdata hok.types hdec.holds
  have hscan := scan_absent hkey.2 (fun f hf => hok.keyLength f (mem_append_right _ hf))
    (fun f hf => hskip f (mem_append_right _ hf)) hafter
  have hscan' := scan_absent hkey.1 (fun f hf => hok.keyLength f (mem_append_left _ hf))
    (fun f hf => hskip f (mem_append_left _ hf)) hbefore
  rw [← hend] at hscan
  rw [← hcur] at hscan'
  rw [skipToValueForRawKey, hscan]
  simp only [bind_eq_bind, bind_some, hscan']
  cases decoder
  rfl

/-- **A key that is there** is found wherever the pointer stands. -/
theorem skipToValueForRawKey_present (hdec : OnFields data fields decoder) {value : CodedValue}
    {first last : CodedFields} (hfields : fields = first ++ (key, value) :: last) :
    skipToValueForRawKey data key decoder =
      some (true, { decoder with currentPtr := decoder.beginPtr + (fieldsBytes first).length + (block key).length }) := by
  obtain ⟨before, after, hsplit, hcur⟩ := hdec.currentPtr
  have hnd := hok.keys
  have hkeyLength : key.length ≤ 1000 := hok.keyLength (key, value) (hfields ▸ by simp)
  have hlen {fs : CodedFields} (hsub : fs ⊆ fields) (f) (hf : f ∈ fs) := hok.keyLength f (hsub hf)
  have hskips := skippable_of_fields hdata hok.types hdec.holds
  have hskip {fs : CodedFields} (hsub : fs ⊆ fields) (f) (hf : f ∈ fs) := hskips f (hsub hf)
  have hend : decoder.endPtr = decoder.currentPtr + (fieldsBytes after).length := by
    rw [hdec.endPtr, hcur, hsplit, fieldsBytes_append, length_append, Nat.add_assoc]
  have hholds := hdec.holds
  rw [hsplit, fieldsBytes_append] at hholds
  obtain ⟨hbefore, hafter⟩ := holdsAt_append.mp hholds
  rw [← hcur] at hafter
  have hbeforeSub : before ⊆ fields := hsplit ▸ subset_append_left _ _
  have hafterSub : after ⊆ fields := hsplit ▸ subset_append_right _ _
  rw [hsplit] at hfields
  rw [skipToValueForRawKey]
  -- the key stands behind the pointer, or in front of it
  rcases append_eq_append_iff.mp hfields with ⟨middle, rfl, rfl⟩ | ⟨middle, rfl, hlast⟩
  · have hmiddle : key ∉ middle.map Prod.fst := by
      rw [hsplit, map_append, map_append, map_cons, nodup_append] at hnd
      rintro hm
      have := (nodup_append.mp hnd.2.1).2.2
      exact this key hm key mem_cons_self rfl
    rw [scan_present hmiddle hkeyLength (hlen fun f hf => hafterSub (mem_append_left _ hf))
      (hskip fun f hf => hafterSub (mem_append_left _ hf)) (Nat.le_of_eq hend.symm) hafter]
    simp only [bind_eq_bind, bind_some, hcur, fieldsBytes_append, length_append, Nat.add_assoc]
    rfl
  · cases middle with
    | nil =>
      rw [nil_append] at hlast
      subst hlast
      rw [← nil_append ((key, value) :: last)] at hafter hend
      rw [scan_present (by simp) hkeyLength (by simp) (by simp) (Nat.le_of_eq hend.symm) hafter]
      simp only [bind_eq_bind, bind_some, hcur, append_nil]
      rfl
    | cons found middle =>
      obtain ⟨rfl, rfl⟩ := List.cons.inj hlast
      have hafterKey : key ∉ after.map Prod.fst := by
        rw [hsplit, map_append, nodup_append] at hnd
        intro hm
        exact hnd.2.2 key (by simp) key hm rfl
      have hfirst : key ∉ first.map Prod.fst := by
        rw [hsplit, map_append, map_append, map_cons] at hnd
        have := (nodup_append.mp (nodup_append.mp hnd).1).2.2
        intro hm
        exact this key hm key mem_cons_self rfl
      have hscan := scan_absent hafterKey (hlen hafterSub) (hskip hafterSub) hafter
      rw [← hend] at hscan
      rw [hscan]
      simp only [bind_eq_bind, bind_some]
      rw [scan_present hfirst hkeyLength (hlen fun f hf => hbeforeSub (mem_append_left _ hf))
        (hskip fun f hf => hbeforeSub (mem_append_left _ hf)) (Nat.le_of_eq hcur.symm) hbefore]
      rfl

end

/-! ## Values -/

section
variable {ρ : Type} {data : Bytes} {conversions : NumberConversions}
  {classes : Bytes → Option (CoderProgram ρ (Option ρ))}
  {readObject : Nat → PSKeyValueDecoder → Option (Option ρ × Nat × PSKeyValueDecoder)}

theorem length_objects_le (objects : List CodedObject) : objects.length ≤ (objectsBytes objects).length := by
  induction objects with
  | nil => simp
  | cons object objects ih =>
    cases object with
    | mk className fields =>
      rw [objectsBytes, objectBytes, length_cons, length_append, length_sized]
      omega

theorem length_entries_le (entries : List (BitVec 32 × CodedObject)) : entries.length ≤ (entriesBytes entries).length := by
  induction entries with
  | nil => simp
  | cons entry entries ih =>
    rw [entriesBytes, length_cons, length_append, length_append, length_leBits]
    omega

def ReadsObject (data : Bytes) (classes : Bytes → Option (CoderProgram ρ (Option ρ)))
    (readObject : Nat → PSKeyValueDecoder → Option (Option ρ × Nat × PSKeyValueDecoder)) (object : CodedObject) : Prop :=
  ∀ ptr tempCoder, HoldsAt data ptr (objectBytes object) →
    ∃ tempCoder', readObject ptr tempCoder =
      some (decodedObject classes object, ptr + (objectBytes object).length, tempCoder')

variable {objects : List CodedObject} {ptr : Nat}

theorem readObjects_spec (hreads : ∀ object ∈ objects, ReadsObject data classes readObject object)
    (tempCoder : PSKeyValueDecoder) (h : HoldsAt data ptr (objectsBytes objects)) :
    ∃ tempCoder', readObjects readObject objects.length ptr tempCoder =
      some (decodedObjects classes objects, ptr + (objectsBytes objects).length, tempCoder') := by
  induction objects generalizing ptr tempCoder with
  | nil => exact ⟨tempCoder, by rw [objectsBytes, decodedObjects]; rfl⟩
  | cons object objects ih =>
    rw [objectsBytes] at h ⊢
    obtain ⟨hobject, hobjects⟩ := holdsAt_append.mp h
    obtain ⟨temp, hread⟩ := hreads object mem_cons_self ptr tempCoder hobject
    obtain ⟨temp', hrest⟩ := ih (fun o ho => hreads o (mem_cons_of_mem _ ho)) temp hobjects
    refine ⟨temp', ?_⟩
    rw [length_cons, readObjects, hread, decodedObjects]
    simp only [bind_eq_bind, bind_some, hrest, length_append, Nat.add_assoc]
    rfl

variable {entries : List (BitVec 32 × CodedObject)}

theorem decodedEntries_of_not_mem {key : BitVec 32} (hkey : key ∉ entries.map Prod.fst) :
    decodedEntries classes entries key = none := by
  induction entries with
  | nil => rfl
  | cons entry entries ih =>
    rw [map_cons, mem_cons, not_or] at hkey
    rw [decodedEntries, if_neg hkey.1]
    exact ih hkey.2

theorem readEntries_spec (hkeys : (entries.map Prod.fst).Nodup)
    (hreads : ∀ object ∈ entries.map Prod.snd, ReadsObject data classes readObject object)
    (dict : BitVec 32 → Option ρ) (tempCoder : PSKeyValueDecoder) (h : HoldsAt data ptr (entriesBytes entries)) :
    ∃ tempCoder', readEntries data readObject entries.length dict ptr tempCoder =
      some (fun key => (decodedEntries classes entries key).or (dict key), ptr + (entriesBytes entries).length,
        tempCoder') := by
  induction entries generalizing ptr dict tempCoder with
  | nil => exact ⟨tempCoder, by simp [readEntries, decodedEntries, entriesBytes]⟩
  | cons entry entries ih =>
    obtain ⟨objectKey, object⟩ := entry
    rw [map_cons, nodup_cons] at hkeys
    rw [entriesBytes] at h ⊢
    obtain ⟨hentry, hentries⟩ := holdsAt_append.mp h
    obtain ⟨hkey, hobject⟩ := holdsAt_append.mp hentry
    obtain ⟨temp, hread⟩ := hreads object (by simp) _ tempCoder hobject
    rw [length_append, ← Nat.add_assoc] at hentries
    obtain ⟨temp', hrest⟩ := ih hkeys.2 (fun o ho => hreads o (by simp [ho]))
      ((decodedObject classes object).elim dict (setObject dict objectKey)) temp hentries
    refine ⟨temp', ?_⟩
    rw [length_cons, readEntries, readInt_spec rfl hkey]
    simp only [bind_eq_bind, bind_some, hread]
    rw [hrest]
    simp only [length_append, Nat.add_assoc]
    congr 2
    funext key
    rw [decodedEntries]
    by_cases hsame : key = objectKey
    · subst hsame
      -- a key that comes now does not come again
      rw [decodedEntries_of_not_mem hkeys.1, if_pos rfl]
      cases decodedObject classes object <;> simp [setObject]
    · rw [if_neg hsame]
      cases decodedObject classes object <;> simp [setObject, hsame]

variable (hdata : data.length < 2 ^ 31)
include hdata

theorem readCounted {count : Nat} {body : Bytes} (hcnt : count ≤ body.length)
    (h : HoldsAt data ptr (sized (lengthBytes 4 (count % 2 ^ 32) ++ body))) :
    ∃ (length : BitVec 32) (bodyPtr : Nat), readInt data 32 ptr = some (length, ptr + 4) ∧
      ptr + 4 + length.toNat = ptr + (sized (lengthBytes 4 (count % 2 ^ 32) ++ body)).length ∧
      readLength data (ptr + 4) = some (count, bodyPtr) ∧ HoldsAt data bodyPtr body := by
  have hlen := length_lt_of_holdsAt hdata h
  rw [length_sized] at hlen
  obtain ⟨hread, hval, hbody⟩ := readInt_sized (by omega) h
  obtain ⟨hcountBytes, hbody⟩ := holdsAt_append.mp hbody
  have hfits : count < 2 ^ 32 := by
    have := length_lt_of_holdsAt hdata hbody
    omega
  refine ⟨_, _, hread, ?_, ?_, hbody⟩
  · rw [hval, length_sized, Nat.add_assoc]
  · rw [Nat.mod_eq_of_lt hfits] at hcountBytes ⊢
    exact readLength_spec hfits hcountBytes

/-- **An array is read to its end.** -/
theorem readArray_spec (hreads : ∀ object ∈ objects, ReadsObject data classes readObject object)
    (tempCoder : PSKeyValueDecoder) (h : HoldsAt data ptr (valueBytes (.array objects))) :
    ∃ tempCoder', readArray data readObject ptr tempCoder =
      some (decodedObjects classes objects, ptr + (valueBytes (.array objects)).length, tempCoder') := by
  rw [valueBytes] at h ⊢
  obtain ⟨length, bodyPtr, hread, hend, hcnt, hbody⟩ := readCounted hdata (length_objects_le objects) h
  obtain ⟨temp, hloop⟩ := readObjects_spec hreads tempCoder hbody
  refine ⟨temp, ?_⟩
  rw [readArray, hread]
  simp only [bind_eq_bind, bind_some, hcnt, hloop, hend]
  rfl

/-- **A dictionary is read to its end.** -/
theorem readInt32Dictionary_spec (hkeys : (entries.map Prod.fst).Nodup)
    (hreads : ∀ object ∈ entries.map Prod.snd, ReadsObject data classes readObject object)
    (tempCoder : PSKeyValueDecoder) (h : HoldsAt data ptr (valueBytes (.int32Dictionary entries))) :
    ∃ tempCoder', readInt32Dictionary data readObject ptr tempCoder =
      some (decodedEntries classes entries, ptr + (valueBytes (.int32Dictionary entries)).length, tempCoder') := by
  rw [valueBytes] at h ⊢
  obtain ⟨length, bodyPtr, hread, hend, hcnt, hbody⟩ := readCounted hdata (length_entries_le entries) h
  obtain ⟨temp, hloop⟩ := readEntries_spec hkeys hreads (fun _ => none) tempCoder hbody
  refine ⟨temp, ?_⟩
  rw [readInt32Dictionary, hread]
  simp only [bind_eq_bind, bind_some, hcnt, hloop, hend, Option.or_none]
  rfl

variable {value : CodedValue} {accessor : Accessor} {result : accessor.Result ρ}

variable (conversions) in
/-- **A value is read with the method of its type.** -/
theorem decodeValue_spec (hres : (decodedValue classes value).as accessor = some result)
    (hty : value.fieldType ≠ .int32Array) (hpaired : ∀ string, value = .string string → Paired string)
    (hdict : ∀ entries, value = .int32Dictionary entries → (entries.map Prod.fst).Nodup)
    (hreads : ∀ object ∈ value.objects, ReadsObject data classes readObject object)
    (tempCoder : Option PSKeyValueDecoder) (h : HoldsAt data ptr (valueBytes value)) :
    ∃ tempCoder', decodeValue data conversions readObject accessor (some value.fieldType) ptr tempCoder =
      some (result, ptr + (valueBytes value).length, tempCoder') := by
  have hblock {bytes : Bytes} (h : HoldsAt data ptr (block bytes)) : bytes.length < 2 ^ 32 :=
    length_lt_of_holdsAt hdata (holdsAt_append.mp h).2
  cases value with
  | string string =>
    rw [decodedValue] at hres
    cases accessor <;> cases hres
    rw [valueBytes] at h ⊢
    refine ⟨tempCoder, ?_⟩
    simp [decodeValue, decodeString, CodedValue.fieldType, keepTempCoder,
      readString_spec (hpaired string rfl) (hblock h) h]
  | int32 number =>
    rw [decodedValue] at hres
    cases accessor <;> cases hres
    rw [valueBytes] at h ⊢
    refine ⟨tempCoder, ?_⟩
    simp [decodeValue, decodeInt32, CodedValue.fieldType, keepTempCoder, readInt_spec rfl h]
  | int64 number =>
    rw [decodedValue] at hres
    cases accessor <;> cases hres
    rw [valueBytes] at h ⊢
    refine ⟨tempCoder, ?_⟩
    simp [decodeValue, decodeInt64, CodedValue.fieldType, keepTempCoder, readInt_spec rfl h]
  | object object =>
    rw [decodedValue] at hres
    cases accessor <;> cases hres
    rw [valueBytes] at h ⊢
    obtain ⟨temp, hread⟩ := hreads object (by simp [CodedValue.objects]) ptr (tempCoder.getD ⟨0, 0, 0, none⟩) h
    refine ⟨some temp, ?_⟩
    simp [decodeValue, decodeObject, CodedValue.fieldType, lendTempCoder, hread]
  | array array =>
    rw [decodedValue] at hres
    cases accessor <;> cases hres
    change ∀ object ∈ array, ReadsObject data classes readObject object at hreads
    obtain ⟨temp, hread⟩ := readArray_spec hdata hreads (tempCoder.getD ⟨0, 0, 0, none⟩) h
    refine ⟨some temp, ?_⟩
    simp [decodeValue, decodeArray, CodedValue.fieldType, lendTempCoder, hread]
  | data bytes =>
    rw [decodedValue] at hres
    rw [valueBytes] at h ⊢
    cases accessor <;> cases hres
    · refine ⟨tempCoder, ?_⟩
      simp [decodeValue, decodeData, CodedValue.fieldType, keepTempCoder, readData_spec (hblock h) h]
    · refine ⟨tempCoder, ?_⟩
      simp [decodeValue, decodeBytes, CodedValue.fieldType, keepTempCoder, readBytes_spec (hblock h) _ h]
  | int32Array value => exact absurd rfl hty
  | int32Dictionary entries =>
    rw [decodedValue] at hres
    cases accessor <;> cases hres
    obtain ⟨temp, hread⟩ := readInt32Dictionary_spec hdata (hdict entries rfl) hreads
      (tempCoder.getD ⟨0, 0, 0, none⟩) h
    refine ⟨some temp, ?_⟩
    simp [decodeValue, decodeInt32Dictionary, CodedValue.fieldType, lendTempCoder, hread]
  | double value =>
    rw [decodedValue] at hres
    cases accessor <;> cases hres
    rw [valueBytes] at h ⊢
    refine ⟨tempCoder, ?_⟩
    simp [decodeValue, decodeDouble, CodedValue.fieldType, keepTempCoder, readInt_spec rfl h]

/-! ## Programs -/

omit hdata in
theorem lookup_decodedFields (fields : CodedFields) (key : Bytes) :
    (decodedFields classes fields).lookup key = (fields.lookup key).map (decodedValue classes) := by
  induction fields with
  | nil => rfl
  | cons field fields ih =>
    obtain ⟨other, value⟩ := field
    rw [decodedFields, lookup_cons, lookup_cons, ih]
    cases key == other <;> rfl

variable {fields : CodedFields} {decoder : PSKeyValueDecoder}

variable (conversions) in
theorem decodeForRawKey_found (hty : value.fieldType ≠ .int32Array)
    (hdict : ∀ entries, value = .int32Dictionary entries → (entries.map Prod.fst).Nodup)
    (hpaired : ∀ string, value = .string string → Paired string)
    (hreads : ∀ object ∈ value.objects, ReadsObject data classes readObject object)
    (hholds : HoldsAt data decoder.beginPtr (fieldsBytes fields))
    (hend : decoder.endPtr = decoder.beginPtr + (fieldsBytes fields).length) {key : Bytes} {first last : CodedFields}
    (hfields : fields = first ++ (key, value) :: last) (hfound : skipToValueForRawKey data key decoder =
      some (true, { decoder with currentPtr := decoder.beginPtr + (fieldsBytes first).length + (block key).length }))
    (hres : (decodedValue classes value).as accessor = some result) :
    ∃ decoder', decodeForRawKey data conversions readObject key accessor decoder = some (result, decoder') ∧
      OnFields data fields decoder' := by
  -- the pointer stands behind the key
  have hrec := hholds
  rw [hfields, fieldsBytes_append, fieldsBytes_cons, fieldBytes] at hrec
  have hfield := (holdsAt_append.mp (holdsAt_append.mp hrec).2).1
  have hval := (holdsAt_append.mp hfield).2
  obtain ⟨temp, hread⟩ := decodeValue_spec conversions hdata hres hty hpaired hdict hreads decoder.tempCoder
    hval.tail
  refine ⟨{ decoder with
    currentPtr := decoder.beginPtr + (fieldsBytes first).length + (block key).length + 1 + (valueBytes value).length
    tempCoder := temp }, ?_, hholds, hend, first ++ [(key, value)], last, ?_, ?_⟩
  · rw [decodeForRawKey, hfound]
    rw [singleton_append] at hval
    simp only [bind_eq_bind, bind_some, if_true, hval.getElem,
      PSKeyValueCoderFieldType.ofRawValue_rawValue, hread]
    rfl
  · rw [hfields]
    simp
  · rw [fieldsBytes_append, fieldsBytes_cons, fieldBytes]
    simp only [length_append, length_singleton, fieldsBytes, length_nil]
    omega

variable (conversions) in
/-- **One call** returns what was encoded, and leaves the pointer between two fields. -/
theorem decodeForRawKey_spec (hok : FieldsOk fields) (hpaired : StringsPaired fields)
    (hreads : ∀ field ∈ fields, ∀ object ∈ field.2.objects, ReadsObject data classes readObject object)
    (hdec : OnFields data fields decoder) (key : Bytes) (accessor : Accessor)
    (hmatches : ∀ value, (decodedFields classes fields).lookup key = some value → (value.as accessor).isSome) :
    ∃ decoder', decodeForRawKey data conversions readObject key accessor decoder =
      some (answer (decodedFields classes fields) key accessor, decoder') ∧ OnFields data fields decoder' := by
  rw [lookup_decodedFields] at hmatches
  rw [answer, lookup_decodedFields]
  cases hlook : fields.lookup key with
  | none =>
    have hkey : key ∉ fields.map Prod.fst := by
      rw [lookup_eq_none_iff] at hlook
      intro hm
      obtain ⟨field, hfield, rfl⟩ := mem_map.mp hm
      exact absurd (hlook field hfield) (by simp)
    refine ⟨decoder, ?_, hdec⟩
    rw [decodeForRawKey, skipToValueForRawKey_absent hdata hok hdec hkey]
    rfl
  | some value =>
    rw [hlook] at hmatches
    obtain ⟨result, hres⟩ := Option.isSome_iff_exists.mp (hmatches _ rfl)
    obtain ⟨first, last, hfields, -⟩ := lookup_eq_some_iff.mp hlook
    have hm : (key, value) ∈ fields := by simp [hfields]
    have hfound := skipToValueForRawKey_present hdata hok hdec hfields
    rw [Option.map_some, bind_some, hres, Option.getD_some]
    exact decodeForRawKey_found conversions hdata (hok.types _ hm) (hok.dictionaries _ hm) (hpaired _ hm) (hreads _ hm)
      hdec.holds hdec.endPtr hfields hfound hres

variable (conversions) in
/-- **A program** gets from every call what was encoded. -/
theorem runProgram_spec {σ : Type} (hok : FieldsOk fields) (hpaired : StringsPaired fields)
    (hreads : ∀ field ∈ fields, ∀ object ∈ field.2.objects, ReadsObject data classes readObject object)
    (program : CoderProgram ρ σ) (hmatches : program.Matches (decodedFields classes fields))
    (hdec : OnFields data fields decoder) : ∃ decoder', runProgram data conversions readObject program decoder =
      some (program.run (decodedFields classes fields), decoder') := by
  induction program generalizing decoder with
  | done result => exact ⟨decoder, rfl⟩
  | ask key accessor next ih =>
    obtain ⟨hcall, hnext⟩ := hmatches
    obtain ⟨decoder', hread, hdecoder'⟩ := decodeForRawKey_spec conversions hdata hok hpaired hreads hdec key
      accessor hcall
    obtain ⟨decoder'', hrun⟩ := ih _ hnext hdecoder'
    refine ⟨decoder'', ?_⟩
    rw [runProgram, hread]
    exact hrun

/-! ## Objects -/

theorem readsObject_succ (conversions : NumberConversions) {depth : Nat} {className : Bytes}
    (hclass : ClassOk classes className fields) (hok : FieldsOk fields) (hpaired : StringsPaired fields)
    (hreads : ∀ field ∈ fields, ∀ object ∈ field.2.objects,
      ReadsObject data classes (Coding.readObject data conversions classes depth) object) :
    ReadsObject data classes (Coding.readObject data conversions classes (depth + 1)) (.mk className fields) := by
  intro ptr tempCoder h
  obtain ⟨init, hinit, hmatches⟩ := hclass.known
  rw [objectBytes] at h ⊢
  have hlen := length_lt_of_holdsAt hdata h
  rw [length_sized] at hlen
  obtain ⟨hread, hval, hbody⟩ := readInt_sized (by omega) h
  obtain ⟨hname, hrest⟩ := holdsAt_append.mp hbody
  have hstrlen : strlen data (ptr + 4) = some className.length := by
    apply HoldsAt.strlen _ hclass.name
    rw [← append_assoc] at hbody
    exact (holdsAt_append.mp hbody).1
  -- the decoder that is lent to the class stands on the first field
  have hdec : OnFields data fields
      { tempCoder with
        beginPtr := ptr + 4 + (className.length + 1)
        endPtr := ptr + 4 + (className ++ ([0] ++ fieldsBytes fields)).length
        currentPtr := ptr + 4 + (className.length + 1) } := by
    refine ⟨?_, ?_, [], fields, rfl, ?_⟩
    · rw [← Nat.add_assoc]
      exact hrest.tail
    · simp only [length_append, length_singleton]
      omega
    · simp [fieldsBytes]
  obtain ⟨decoder, hrun⟩ := runProgram_spec conversions hdata hok hpaired hreads init hmatches hdec
  refine ⟨decoder, ?_⟩
  rw [Coding.readObject, hread, length_sized, ← Nat.add_assoc ptr 4]
  simp only [bind_eq_bind, bind_some, hstrlen, hname.bytesAt, hinit, hval, hrun, decodedObject]
  rfl

omit hdata in
theorem exists_bound {α : Type} {P : Nat → α → Prop} {as : List α} (h : ∀ a ∈ as, ∃ n, ∀ m ≥ n, P m a) :
    ∃ n, ∀ m ≥ n, ∀ a ∈ as, P m a := by
  induction as with
  | nil => exact ⟨0, by simp⟩
  | cons a as ih =>
    obtain ⟨n, hn⟩ := h a mem_cons_self
    obtain ⟨n', hn'⟩ := ih fun b hb => h b (mem_cons_of_mem _ hb)
    refine ⟨max n n', ?_⟩
    intro m hm b hb
    rcases mem_cons.mp hb with rfl | hb
    · exact hn m (le_of_max_le_left hm)
    · exact hn' m (le_of_max_le_right hm) b hb

/-- **Every object in a tree is read**, where enough levels are allowed. -/
theorem readsObject_of_wellFormed (conversions : NumberConversions) (hwf : WellFormed classes fields)
    (hpaired : ∀ level, Level fields level → StringsPaired level) :
    ∃ depth, ∀ depth' ≥ depth, ∀ level, Level fields level → ∀ field ∈ level, ∀ object ∈ field.2.objects,
      ReadsObject data classes (Coding.readObject data conversions classes depth') object := by
  induction hwf with
  | @mk fields hok hobjects hinner ih =>
    obtain ⟨depth, hdepth⟩ : ∃ depth, ∀ depth' ≥ depth, ∀ object ∈ fields.flatMap fun field => field.2.objects,
        ∀ className inner, object = .mk className inner → ∀ level, Level inner level → ∀ field ∈ level,
          ∀ object ∈ field.2.objects,
            ReadsObject data classes (Coding.readObject data conversions classes depth') object := by
      apply exists_bound
      rintro ⟨className, inner⟩ hobject
      obtain ⟨field, hfield, hobject⟩ := mem_flatMap.mp hobject
      obtain ⟨depth, hdepth⟩ := ih field hfield className inner hobject
        (fun level hlevel => hpaired level (.inner hfield hobject hlevel))
      refine ⟨depth, ?_⟩
      rintro depth' hle _ _ ⟨rfl, rfl⟩
      exact hdepth depth' hle
    refine ⟨depth + 1, ?_⟩
    intro depth' hle level hlevel
    obtain ⟨depth', rfl⟩ := Nat.exists_eq_succ_of_ne_zero (show depth' ≠ 0 by omega)
    cases hlevel with
    | self =>
      rintro field hfield ⟨className, inner⟩ hobject
      have hm : .mk className inner ∈ fields.flatMap fun field => field.2.objects :=
        mem_flatMap.mpr ⟨field, hfield, hobject⟩
      have hlevel := Level.inner hfield hobject (.self inner)
      cases hinner field hfield className inner hobject with
      | mk hokInner _ _ =>
        exact readsObject_succ hdata conversions (hobjects field hfield className inner hobject) hokInner
          (hpaired inner hlevel) (hdepth depth' (by omega) _ hm className inner rfl inner (.self inner))
    | @inner _ inner _ field className hfield hobject hlevel =>
      have hm : .mk className inner ∈ fields.flatMap fun field => field.2.objects :=
        mem_flatMap.mpr ⟨field, hfield, hobject⟩
      exact hdepth (depth' + 1) (by omega) _ hm _ _ rfl level hlevel

/-- **A string with a surrogate that has no pair** is read as an empty one. -/
theorem decodeForRawKey_unpaired (conversions : NumberConversions) (hok : FieldsOk fields) (hdec : OnFields data fields decoder) {key : Bytes}
    {string : NSString} (hm : (key, .string string) ∈ fields) (h : ¬ Paired string) :
    ∃ decoder', decodeForRawKey data conversions readObject key .string decoder = some (some [], decoder') := by
  obtain ⟨first, last, hfields⟩ := append_of_mem hm
  have hempty : utf8Bytes string = [] := by
    rw [utf8Bytes, dataUsingEncoding, Option.not_isSome_iff_eq_none.mp h]
    rfl
  have hbytes : fieldsBytes fields = fieldsBytes (first ++ (key, .string []) :: last) := by
    rw [hfields, fieldsBytes_append, fieldsBytes_append, fieldsBytes_cons, fieldsBytes_cons, fieldBytes, fieldBytes,
      valueBytes, hempty]
    rfl
  have hholds := hdec.holds
  have hend := hdec.endPtr
  rw [hbytes] at hholds hend
  have hty : (CodedValue.string []).fieldType ≠ .int32Array := nofun
  have hdict (entries : List (BitVec 32 × CodedObject)) (heq : CodedValue.string [] = .int32Dictionary entries) :
      (entries.map Prod.fst).Nodup := nomatch heq
  have hpaired (s : NSString) (heq : CodedValue.string [] = .string s) : Paired s := by
    cases heq
    rfl
  have hreads : ∀ object ∈ (CodedValue.string []).objects, ReadsObject data (fun _ => none) readObject object :=
    fun _ hobject => nomatch hobject
  have hresult : (decodedValue (ρ := ρ) (fun _ => none) (.string [])).as .string = some (some []) := rfl
  obtain ⟨decoder', hread, -⟩ := decodeForRawKey_found conversions hdata hty hdict hpaired hreads hholds hend rfl
    (skipToValueForRawKey_present hdata hok hdec hfields) hresult
  exact ⟨decoder', hread⟩

end

/-! ## All levels -/

variable {fields : CodedFields}

variable {value : CodedValue}

theorem FieldsOk.lookup_eq_some (hok : FieldsOk fields) {key : Bytes} (hm : (key, value) ∈ fields) :
    fields.lookup key = some value := by
  obtain ⟨first, last, rfl⟩ := append_of_mem hm
  refine lookup_eq_some_iff.mpr ⟨first, last, rfl, ?_⟩
  intro field hfield
  have hnd := hok.keys
  rw [map_append, map_cons, nodup_append] at hnd
  have hne := hnd.2.2 field.1 (mem_map_of_mem hfield) key mem_cons_self
  simpa using hne.symm

variable {level : CodedFields}

theorem Level.wellFormed {ρ : Type} {classes : Bytes → Option (CoderProgram ρ (Option ρ))} (h : Level fields level)
    (hwf : WellFormed classes fields) : WellFormed classes level := by
  induction h with
  | self => exact hwf
  | inner hfield hobject _ ih =>
    obtain ⟨-, -, hinner⟩ := hwf
    exact ih (hinner _ hfield _ _ hobject)

theorem objectBytes_infix {object : CodedObject} (h : object ∈ value.objects) :
    objectBytes object <:+: valueBytes value := by
  cases value with
  | object other =>
    obtain rfl := mem_singleton.mp h
    exact infix_rfl
  | array objects =>
    rw [valueBytes, sized, ← append_assoc]
    refine List.IsInfix.trans ?_ (suffix_append _ _).isInfix
    change object ∈ objects at h
    induction objects with
    | nil => exact absurd h not_mem_nil
    | cons first objects ih =>
      rw [objectsBytes]
      rcases mem_cons.mp h with rfl | h
      · exact (prefix_append _ _).isInfix
      · exact (ih h).trans (suffix_append _ _).isInfix
  | int32Dictionary entries =>
    rw [valueBytes, sized, ← append_assoc]
    refine List.IsInfix.trans ?_ (suffix_append _ _).isInfix
    change object ∈ entries.map Prod.snd at h
    induction entries with
    | nil => exact absurd h not_mem_nil
    | cons entry entries ih =>
      obtain ⟨key, first⟩ := entry
      rw [entriesBytes]
      rcases mem_cons.mp h with rfl | h
      · exact (suffix_append _ _).isInfix.trans (prefix_append _ _).isInfix
      · exact (ih h).trans (suffix_append _ _).isInfix
  | _ => exact absurd h not_mem_nil

theorem Level.infix (h : Level fields level) : fieldsBytes level <:+: fieldsBytes fields := by
  induction h with
  | self => exact infix_rfl
  | @inner fields inner level field className hfield hobject _ ih =>
    obtain ⟨first, last, rfl⟩ := append_of_mem hfield
    have hobject := objectBytes_infix hobject
    rw [objectBytes, sized, ← append_assoc, ← append_assoc] at hobject
    rw [fieldsBytes_append, fieldsBytes_cons, fieldBytes, ← append_assoc, ← append_assoc,
      ← append_assoc]
    exact ih.trans ((suffix_append _ _).isInfix.trans
      (hobject.trans ((suffix_append _ _).isInfix.trans (prefix_append _ _).isInfix)))

theorem Level.onFields (h : Level fields level) : ∃ decoder, OnFields (encodeFields [] fields) level decoder := by
  obtain ⟨before, after, heq⟩ := h.infix
  have hbs : encodeFields [] fields = fieldsBytes fields := encodeFields_eq [] fields
  refine ⟨⟨before.length, before.length, before.length + (fieldsBytes level).length, none⟩, ?_, rfl, [], level, rfl,
    by simp [fieldsBytes]⟩
  rw [hbs, ← heq]
  exact ⟨before, after, append_assoc _ _ _, rfl⟩

theorem onFields_initWithData (fields : CodedFields) :
    OnFields (encodeFields [] fields) fields (PSKeyValueDecoder.initWithData (encodeFields [] fields)) := by
  have hbs : encodeFields [] fields = fieldsBytes fields := encodeFields_eq [] fields
  rw [hbs]
  exact ⟨holdsAt_zero _, (Nat.zero_add _).symm, [], fields, rfl, by simp [fieldsBytes, PSKeyValueDecoder.initWithData]⟩

/-- Whoever asks a decoder over these fields gets, from every call, the value that was encoded for the key, or the default
for a key that is not there. -/
def Answers {ρ : Type} (data : Bytes) (conversions : NumberConversions)
    (classes : Bytes → Option (CoderProgram ρ (Option ρ))) (depth : Nat) (fields : CodedFields) : Prop :=
  ∀ decoder, OnFields data fields decoder → ∀ {σ : Type} (program : CoderProgram ρ σ),
    program.Matches (decodedFields classes fields) → ∃ decoder', runProgram data conversions
      (readObject data conversions classes depth) program decoder =
        some (program.run (decodedFields classes fields), decoder')

/-- **The round trip**, at every level and from a decoder between any two fields, holds exactly if no string at any level
has a surrogate without its pair. -/
theorem encodedFields_answered_iff {ρ : Type} (conversions : NumberConversions)
    {classes : Bytes → Option (CoderProgram ρ (Option ρ))} {fields : CodedFields} (hwf : WellFormed classes fields)
    (hsize : (encodeFields [] fields).length < 2 ^ 31) :
    (∃ depth, ∀ depth' ≥ depth, ∀ level, Level fields level →
      Answers (encodeFields [] fields) conversions classes depth' level) ↔
        ∀ level, Level fields level → StringsPaired level := by
  constructor
  · rintro ⟨depth, hdepth⟩ level hlevel ⟨key, value⟩ hfield string rfl
    obtain ⟨decoder, hdec⟩ := hlevel.onFields
    obtain ⟨hok, -, -⟩ := hlevel.wellFormed hwf
    by_contra h
    have hanswer : answer (decodedFields classes level) key .string = some string := by
      rw [answer, lookup_decodedFields, hok.lookup_eq_some hfield]
      rfl
    obtain ⟨decoder', hread⟩ := decodeForRawKey_unpaired hsize conversions hok hdec hfield h
    obtain ⟨decoder'', hrun⟩ := hdepth depth (Nat.le_refl depth) level hlevel decoder hdec (.ask key .string .done) (by
      refine ⟨?_, trivial⟩
      intro value hvalue
      rw [lookup_decodedFields, hok.lookup_eq_some hfield] at hvalue
      cases hvalue
      rfl)
    rw [runProgram, hread, CoderProgram.run, hanswer] at hrun
    obtain rfl : [] = string := Option.some.inj (Prod.mk.inj (Option.some.inj hrun)).1
    exact h rfl
  · intro hpaired
    obtain ⟨depth, hdepth⟩ := readsObject_of_wellFormed hsize conversions hwf hpaired
    refine ⟨depth, ?_⟩
    intro depth' hle level hlevel decoder hdec σ program hmatches
    obtain ⟨hok, -, -⟩ := hlevel.wellFormed hwf
    exact runProgram_spec conversions hsize hok (hpaired level hlevel) (hdepth depth' hle level hlevel) program hmatches hdec

def numberClass (className : Bytes) : Option (CoderProgram (BitVec 32) (Option (BitVec 32))) :=
  if className = [65] then some (.ask [110] .int32 fun number => .done (some number)) else none

/-- Two objects in an array, between a string and a double. -/
def numberFields : CodedFields :=
  [([1], .string [65]), ([2], .array [.mk [65] [([110], .int32 5)], .mk [65] [([110], .int32 7)]]), ([3], .double 9)]

/-- The only objects are the two of the array. -/
theorem objects_numberFields {field : Bytes × CodedValue} (hfield : field ∈ numberFields) {className : Bytes}
    {inner : CodedFields} (hobject : .mk className inner ∈ field.2.objects) :
    className = [65] ∧ ∃ number, inner = [([110], .int32 number)] := by
  simp only [numberFields, mem_cons, not_mem_nil, or_false] at hfield
  rcases hfield with rfl | rfl | rfl <;> simp only [CodedValue.objects, mem_cons, not_mem_nil, or_false,
    CodedObject.mk.injEq] at hobject
  rcases hobject with ⟨rfl, rfl⟩ | ⟨rfl, rfl⟩
  · exact ⟨rfl, 5, rfl⟩
  · exact ⟨rfl, 7, rfl⟩

theorem wellFormed_numberFields : WellFormed numberClass numberFields := by
  have hnum (number : BitVec 32) : ClassOk numberClass [65] [([110], .int32 number)] := by
    refine ⟨by decide, _, rfl, ?_, trivial⟩
    intro value hval
    cases hval
    rfl
  have hinner (number : BitVec 32) : WellFormed numberClass [([110], .int32 number)] := by
    refine .mk ⟨by simp, by simp, by simp [CodedValue.fieldType], by simp⟩ ?_ ?_ <;> simp [CodedValue.objects]
  refine .mk ⟨by simp [numberFields], by simp [numberFields], by simp [numberFields, CodedValue.fieldType],
    by simp [numberFields]⟩ ?_ ?_
  · intro field hfield className inner hobject
    obtain ⟨rfl, number, rfl⟩ := objects_numberFields hfield hobject
    exact hnum number
  · intro field hfield className inner hobject
    obtain ⟨rfl, number, rfl⟩ := objects_numberFields hfield hobject
    exact hinner number

/-- The double, a key that is not there, and then the array. -/
def numberProgram : CoderProgram (BitVec 32) (BitVec 64 × Option Bytes × Option (List (BitVec 32))) :=
  .ask [3] .double fun number => .ask [4] .data fun bytes => .ask [2] .array fun array => .done (number, bytes, array)

theorem stringsPaired_numberFields (h : Level numberFields level) : StringsPaired level := by
  cases h with
  | self =>
    intro field hfield string heq
    simp only [numberFields, mem_cons, not_mem_nil, or_false] at hfield
    rcases hfield with rfl | rfl | rfl <;> cases heq
    rfl
  | inner hfield hobject h =>
    obtain ⟨-, number, rfl⟩ := objects_numberFields hfield hobject
    cases h with
    | self =>
      intro field hfield string heq
      obtain rfl := mem_singleton.mp hfield
      nomatch heq
    | inner hfield hobject =>
      obtain rfl := mem_singleton.mp hfield
      nomatch hobject

/-- The decoder of the whole record is one between two fields. -/
theorem decodeWith_numberFields :
    ∃ depth, decodeWith (encodeFields [] numberFields) ⟨fun _ => 0, fun _ => 0, fun _ => 0, fun _ => 0, fun _ => 0⟩
      numberClass depth numberProgram = some (9, none, some [5, 7]) := by
  obtain ⟨depth, hdepth⟩ := (encodedFields_answered_iff _ wellFormed_numberFields (by decide +kernel)).mpr
    fun _ => stringsPaired_numberFields
  obtain ⟨decoder, hrun⟩ := hdepth depth (Nat.le_refl _) _ (.self _) _ (onFields_initWithData numberFields) numberProgram (by
    refine ⟨?_, ?_, ?_, trivial⟩
    · intro value hvalue
      cases hvalue
      rfl
    · intro value hvalue
      cases hvalue
    · intro value hvalue
      cases hvalue
      rfl)
  refine ⟨depth, ?_⟩
  rw [decodeWith, hrun]
  rfl

/-- One half of a pair of surrogates. -/
def halfEmoji : CodedFields := [([97], .string [0xD83D])]

/-- **The string is read as an empty one.** -/
theorem halfEmoji_lost :
    WellFormed (ρ := Unit) (fun _ => none) halfEmoji ∧
      decodeWith (ρ := Unit) (encodeFields [] halfEmoji) ⟨fun _ => 0, fun _ => 0, fun _ => 0, fun _ => 0, fun _ => 0⟩
        (fun _ => none) 1 (.ask [97] .string .done) = some (some []) ∧
      answer (decodedFields (ρ := Unit) (fun _ => none) halfEmoji) [97] .string = some [0xD83D] := by
  refine ⟨?_, by decide +kernel, rfl⟩
  refine .mk ⟨by simp [halfEmoji], by simp [halfEmoji], by simp [halfEmoji, CodedValue.fieldType],
    by simp [halfEmoji]⟩ ?_ ?_ <;> simp [halfEmoji, CodedValue.objects]

end TelegramClient.Coding
