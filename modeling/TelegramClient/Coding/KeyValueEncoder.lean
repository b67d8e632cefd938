import TelegramClient.Lib.Bytes
import TelegramClient.Lib.Utf16

/-!
# The key-value encoder

`PSKeyValueEncoder` writes the fields of an object one after another: the key, the type of the value, the value. Objects,
arrays and dictionaries begin with their length, which is filled in when their end is known.

* `CodedValue`, `CodedObject` : what a `PSCoding` object asks the encoder to write, in its order;
* `encodeFields`, `encodeObjectValue` : the encoder, over the data written so far;
* `fieldsBytes`, `objectBytes` : the format, and `encodeFields_eq`, `encodeObjectValue_eq`: the encoder writes it.
-/

namespace TelegramClient.Coding
open List

/-! ## Values -/

/-- The units of a string, which need not be characters. -/
abbrev NSString : Type := List UInt16

inductive PSKeyValueCoderFieldType where
  | string
  | int32
  | int64
  | customClass
  | array
  | data
  | int32Array
  | int32Dictionary
  | double
  deriving DecidableEq

def PSKeyValueCoderFieldType.rawValue : PSKeyValueCoderFieldType → UInt8
  | .string => 1
  | .int32 => 2
  | .int64 => 3
  | .customClass => 4
  | .array => 5
  | .data => 6
  | .int32Array => 7
  | .int32Dictionary => 8
  | .double => 9

def PSKeyValueCoderFieldType.ofRawValue : UInt8 → Option PSKeyValueCoderFieldType
  | 1 => some .string
  | 2 => some .int32
  | 3 => some .int64
  | 4 => some .customClass
  | 5 => some .array
  | 6 => some .data
  | 7 => some .int32Array
  | 8 => some .int32Dictionary
  | 9 => some .double
  | _ => none

@[simp] theorem PSKeyValueCoderFieldType.ofRawValue_rawValue (fieldType : PSKeyValueCoderFieldType) :
    ofRawValue fieldType.rawValue = some fieldType := by
  cases fieldType <;> rfl

mutual

/-- A value and the accessor that encodes it. A double is its 64 bits. -/
inductive CodedValue where
  | string (string : NSString)
  | int32 (number : BitVec 32)
  | int64 (number : BitVec 64)
  | object (object : CodedObject)
  | array (array : List CodedObject)
  | data (data : Bytes)
  | int32Array (value : List (BitVec 32))
  | int32Dictionary (value : List (BitVec 32 × CodedObject))
  | double (value : BitVec 64)

/-- The name of a class, and the fields that its `encodeWithKeyValueCoder:` writes. -/
inductive CodedObject where
  | mk (className : Bytes) (fields : List (Bytes × CodedValue))

end

abbrev CodedFields := List (Bytes × CodedValue)

def CodedValue.fieldType : CodedValue → PSKeyValueCoderFieldType
  | .string _ => .string
  | .int32 _ => .int32
  | .int64 _ => .int64
  | .object _ => .customClass
  | .array _ => .array
  | .data _ => .data
  | .int32Array _ => .int32Array
  | .int32Dictionary _ => .int32Dictionary
  | .double _ => .double

/-! ## The encoder -/

/-- Seven bits a byte; `rounds` is the number of tests `value > 127` that are left. -/
def lengthBytes : Nat → Nat → Bytes
  | 0, value => [UInt8.ofNat (value % 128)]
  | rounds + 1, value =>
    if value > 127 then UInt8.ofNat (value % 128 + 128) :: lengthBytes rounds (value / 128)
    else [UInt8.ofNat (value % 128)]

/-- The length is an `uint32_t`. -/
def writeLength (data : Bytes) (value : Nat) : Bytes := data ++ lengthBytes 4 (value % 2 ^ 32)

/-- `dataUsingEncoding:NSUTF8StringEncoding` is nil for a surrogate without its pair. -/
def dataUsingEncoding (string : NSString) : Option Bytes :=
  (charsOfUnits string).map fun chars => (String.ofList chars).toUTF8.data.toList

/-- The length of nil is 0, and nil appends nothing. -/
def utf8Bytes (string : NSString) : Bytes := (dataUsingEncoding string).getD []

def writeKey (data key : Bytes) (fieldType : PSKeyValueCoderFieldType) : Bytes :=
  writeLength data key.length ++ key ++ [fieldType.rawValue]

/-- `replaceBytesInRange:` at a position where four bytes were left for the length of what follows. -/
def patchLength (data : Bytes) (objectLengthPosition : Nat) : Bytes :=
  data.take objectLengthPosition ++ (leBits (BitVec.ofNat 32 (data.length - objectLengthPosition - 4)) ++
    data.drop (objectLengthPosition + 4))

mutual

/-- `encodeObjectValue`, which is also what `encodeObject:forKey:` does behind the key. -/
def encodeObjectValue (data : Bytes) : CodedObject → Bytes
  | .mk className fields =>
    patchLength (encodeFields (data ++ leBits 0#32 ++ className ++ [0]) fields) data.length

/-- The `encode...:forKey:` or `encode...:forCKey:` of a value. -/
def encodeField (data key : Bytes) : CodedValue → Bytes
  | .string string => writeLength (writeKey data key .string) (utf8Bytes string).length ++ utf8Bytes string
  | .int32 number => writeKey data key .int32 ++ leBits number
  | .int64 number => writeKey data key .int64 ++ leBits number
  | .object object => encodeObjectValue (writeKey data key .customClass) object
  | .array array =>
    let data := writeKey data key .array
    patchLength (encodeObjects (writeLength (data ++ leBits 0#32) array.length) array) data.length
  | .data value => writeLength (writeKey data key .data) value.length ++ value
  | .int32Array value =>
    writeKey data key .int32Array ++ leBits (BitVec.ofNat 32 value.length) ++ value.flatMap leBits
  | .int32Dictionary value =>
    let data := writeKey data key .int32Dictionary
    patchLength (encodeEntries (writeLength (data ++ leBits 0#32) value.length) value) data.length
  | .double value => writeKey data key .double ++ leBits value

/-- `encodeWithKeyValueCoder:`. -/
def encodeFields (data : Bytes) : List (Bytes × CodedValue) → Bytes
  | [] => data
  | (key, value) :: fields => encodeFields (encodeField data key value) fields

def encodeObjects (data : Bytes) : List CodedObject → Bytes
  | [] => data
  | object :: objects => encodeObjects (encodeObjectValue data object) objects

def encodeEntries (data : Bytes) : List (BitVec 32 × CodedObject) → Bytes
  | [] => data
  | (objectKey, object) :: entries => encodeEntries (encodeObjectValue (data ++ leBits objectKey) object) entries

end

/-! ## The format -/

def block (bytes : Bytes) : Bytes := lengthBytes 4 (bytes.length % 2 ^ 32) ++ bytes

def sized (bytes : Bytes) : Bytes := leBits (BitVec.ofNat 32 bytes.length) ++ bytes

mutual

def objectBytes : CodedObject → Bytes
  | .mk className fields => sized (className ++ ([0] ++ fieldsBytes fields))

def valueBytes : CodedValue → Bytes
  | .string string => block (utf8Bytes string)
  | .int32 number => leBits number
  | .int64 number => leBits number
  | .object object => objectBytes object
  | .array array => sized (lengthBytes 4 (array.length % 2 ^ 32) ++ objectsBytes array)
  | .data value => block value
  | .int32Array value => leBits (BitVec.ofNat 32 value.length) ++ value.flatMap leBits
  | .int32Dictionary value => sized (lengthBytes 4 (value.length % 2 ^ 32) ++ entriesBytes value)
  | .double value => leBits value

def fieldsBytes : List (Bytes × CodedValue) → Bytes
  | [] => []
  | (key, value) :: fields => (block key ++ ([value.fieldType.rawValue] ++ valueBytes value)) ++ fieldsBytes fields

def objectsBytes : List CodedObject → Bytes
  | [] => []
  | object :: objects => objectBytes object ++ objectsBytes objects

def entriesBytes : List (BitVec 32 × CodedObject) → Bytes
  | [] => []
  | (objectKey, object) :: entries => (leBits objectKey ++ objectBytes object) ++ entriesBytes entries

end

def fieldBytes (field : Bytes × CodedValue) : Bytes :=
  block field.1 ++ ([field.2.fieldType.rawValue] ++ valueBytes field.2)

theorem fieldsBytes_cons (field : Bytes × CodedValue) (fields : CodedFields) :
    fieldsBytes (field :: fields) = fieldBytes field ++ fieldsBytes fields := by
  rw [fieldsBytes, fieldBytes]

theorem fieldsBytes_append (fields fields' : CodedFields) :
    fieldsBytes (fields ++ fields') = fieldsBytes fields ++ fieldsBytes fields' := by
  induction fields with
  | nil => rw [fieldsBytes, nil_append, nil_append]
  | cons field fields ih => rw [cons_append, fieldsBytes_cons, fieldsBytes_cons, ih, append_assoc]

theorem writeKey_eq (data key : Bytes) (fieldType : PSKeyValueCoderFieldType) :
    writeKey data key fieldType = data ++ (block key ++ [fieldType.rawValue]) := by
  simp [writeKey, writeLength, block]

theorem patchLength_append (data bytes : Bytes) :
    patchLength (data ++ leBits 0#32 ++ bytes) data.length = data ++ sized bytes := by
  have hlen : (data ++ leBits 0#32 ++ bytes).length - data.length - 4 = bytes.length := by
    simp only [length_append, length_leBits]
    omega
  have htake : (data ++ leBits 0#32 ++ bytes).take data.length = data := by
    rw [append_assoc, take_left]
  have hdrop : (data ++ leBits 0#32 ++ bytes).drop (data.length + 4) = bytes := by
    apply drop_left'
    simp
  rw [patchLength, hlen, htake, hdrop, sized]

mutual

/-- **The encoder writes the format**, whatever was written before. -/
theorem encodeObjectValue_eq (data : Bytes) (object : CodedObject) :
    encodeObjectValue data object = data ++ objectBytes object := by
  match object with
  | .mk className fields =>
    rw [encodeObjectValue, encodeFields_eq, objectBytes, ← patchLength_append]
    simp only [append_assoc]

theorem encodeField_eq (data key : Bytes) (value : CodedValue) :
    encodeField data key value = data ++ fieldBytes (key, value) := by
  match value with
  | .string string => simp [encodeField, writeKey_eq, writeLength, fieldBytes, valueBytes, block, CodedValue.fieldType]
  | .int32 number => simp [encodeField, writeKey_eq, fieldBytes, valueBytes, CodedValue.fieldType]
  | .int64 number => simp [encodeField, writeKey_eq, fieldBytes, valueBytes, CodedValue.fieldType]
  | .object object =>
    rw [encodeField, encodeObjectValue_eq]
    simp [writeKey_eq, fieldBytes, valueBytes, CodedValue.fieldType]
  | .array array =>
    rw [encodeField, encodeObjects_eq, writeLength, append_assoc (_ ++ _), patchLength_append]
    simp [writeKey_eq, fieldBytes, valueBytes, CodedValue.fieldType]
  | .data value => simp [encodeField, writeKey_eq, writeLength, fieldBytes, valueBytes, block, CodedValue.fieldType]
  | .int32Array value => simp [encodeField, writeKey_eq, fieldBytes, valueBytes, CodedValue.fieldType]
  | .int32Dictionary value =>
    rw [encodeField, encodeEntries_eq, writeLength, append_assoc (_ ++ _), patchLength_append]
    simp [writeKey_eq, fieldBytes, valueBytes, CodedValue.fieldType]
  | .double value => simp [encodeField, writeKey_eq, fieldBytes, valueBytes, CodedValue.fieldType]

theorem encodeFields_eq (data : Bytes) (fields : List (Bytes × CodedValue)) :
    encodeFields data fields = data ++ fieldsBytes fields := by
  match fields with
  | [] => rw [encodeFields, fieldsBytes, append_nil]
  | (key, value) :: fields =>
    rw [encodeFields, encodeFields_eq, encodeField_eq, fieldsBytes_cons, append_assoc]

theorem encodeObjects_eq (data : Bytes) (objects : List CodedObject) :
    encodeObjects data objects = data ++ objectsBytes objects := by
  match objects with
  | [] => rw [encodeObjects, objectsBytes, append_nil]
  | object :: objects =>
    rw [encodeObjects, encodeObjects_eq, encodeObjectValue_eq, objectsBytes, append_assoc]

theorem encodeEntries_eq (data : Bytes) (entries : List (BitVec 32 × CodedObject)) :
    encodeEntries data entries = data ++ entriesBytes entries := by
  match entries with
  | [] => rw [encodeEntries, entriesBytes, append_nil]
  | (objectKey, object) :: entries =>
    rw [encodeEntries, encodeEntries_eq, encodeObjectValue_eq, entriesBytes]
    simp only [append_assoc]

end

end TelegramClient.Coding
