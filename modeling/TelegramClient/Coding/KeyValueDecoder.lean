import TelegramClient.Lib.Pointer
import TelegramClient.Coding.KeyValueEncoder

/-!
# The key-value decoder

`PSKeyValueDecoder` looks for a key from where it stands to its end, and then from its beginning. Objects are made by
their class, which asks a second decoder for its fields; that decoder is kept and used again.

* `PSKeyValueDecoder` : the pointers of a decoder and the decoder that it lends to objects;
* `readObject`, `runProgram` : objects and the calls that make them.

A pointer is an offset into the data of the outermost decoder; what reads outside of the data has no result.
-/

namespace TelegramClient.Coding

/-! ## Decoders and those who call them -/

structure PSKeyValueDecoder where
  currentPtr : Nat
  beginPtr : Nat
  endPtr : Nat
  tempCoder : Option PSKeyValueDecoder

/-- `initWithData:`. -/
def PSKeyValueDecoder.initWithData (data : Bytes) : PSKeyValueDecoder := ⟨0, 0, data.length, none⟩

inductive Accessor where
  | string
  | int32
  | int64
  | object
  | array
  | data
  /-- `decodeBytesForCKey:value:length:`. -/
  | bytes (maxLength : Nat)
  | int32Array
  | int32Dictionary
  | double
  deriving DecidableEq

/-- What a method returns, where objects are in `ρ`; for `bytes` this is what was copied. -/
@[reducible] def Accessor.Result (ρ : Type) : Accessor → Type
  | .string => Option NSString
  | .int32 => BitVec 32
  | .int64 => BitVec 64
  | .object => Option ρ
  | .array => Option (List ρ)
  | .data => Option Bytes
  | .bytes _ => Bytes
  | .int32Array => Option (List (BitVec 32))
  | .int32Dictionary => Option (BitVec 32 → Option ρ)
  | .double => BitVec 64

/-- What a method returns for a key that is not there. -/
def Accessor.absent (ρ : Type) : (accessor : Accessor) → accessor.Result ρ
  | .string => none
  | .int32 => 0
  | .int64 => 0
  | .object => none
  | .array => none
  | .data => none
  | .bytes _ => []
  | .int32Array => none
  | .int32Dictionary => none
  | .double => 0

/-- Calls of the methods of a decoder, each of which may depend on what the earlier ones returned. -/
inductive CoderProgram (ρ σ : Type) : Type where
  | done (result : σ)
  | ask (key : Bytes) (accessor : Accessor) (next : accessor.Result ρ → CoderProgram ρ σ)

/-- The conversions for a number that is asked for with the method of another type. -/
structure NumberConversions where
  intValue : NSString → BitVec 32
  longLongValue : NSString → BitVec 64
  /-- `(int32_t)[string doubleValue]` as a double. -/
  truncatedDoubleValue : NSString → BitVec 64
  doubleOfInt32 : BitVec 32 → BitVec 64
  doubleOfInt64 : BitVec 64 → BitVec 64

def nsString (string : String) : NSString := string.toList.flatMap utf16Units

section
variable (data : Bytes)

/-! ## Reading -/

/-- `rounds` is the number of bytes that may still follow. -/
def readLengthLoop : Nat → Nat → Nat → Nat → Option (Nat × Nat)
  | rounds, shift, result, ptr => do
    let byte ← data[ptr]?
    let result := (result ||| (byte.toNat % 128) <<< shift) % 2 ^ 32
    match rounds with
    | 0 => return (result, ptr + 1)
    | rounds + 1 =>
      if 128 ≤ byte.toNat then readLengthLoop rounds (shift + 7) result (ptr + 1) else return (result, ptr + 1)

def readLength (ptr : Nat) : Option (Nat × Nat) := readLengthLoop data 4 0 0 ptr

/-- `readData`, and the bytes of `readString`. -/
def readData (ptr : Nat) : Option (Bytes × Nat) := do
  let (length, ptr) ← readLength data ptr
  let bytes ← bytesAt data ptr length
  return (bytes, ptr + length)

def readString (ptr : Nat) : Option (Option NSString × Nat) := do
  let (bytes, ptr) ← readData data ptr
  return ((String.fromUTF8? ⟨bytes.toArray⟩).map nsString, ptr)

/-- An integer of `w` bits. -/
def readInt (w : Nat) (ptr : Nat) : Option (BitVec w × Nat) := do
  let bytes ← bytesAt data ptr (w / 8)
  return (ofLeBits w bytes, ptr + w / 8)

/-- `readBytes`. -/
def readBytes (maxLength : Nat) (ptr : Nat) : Option (Bytes × Nat) := do
  let (length, ptr) ← readLength data ptr
  let bytes ← bytesAt data ptr (min (maxLength % 2 ^ 32) length)
  return (bytes, ptr + length)

def readNumbers : Nat → Nat → Option (List (BitVec 32) × Nat)
  | 0, ptr => some ([], ptr)
  | count + 1, ptr => do
    let (number, ptr) ← readInt data 32 ptr
    let (numbers, ptr) ← readNumbers count ptr
    return (number :: numbers, ptr)

/-- `skipString` and `skipData`. -/
def skipData (ptr : Nat) : Option Nat := do
  let (length, ptr) ← readLength data ptr
  return ptr + length

/-- `skipObject`, `skipArray` and `skipInt32Dictionary`. `4 + objectLength` is an `uint32_t`. -/
def skipObject (ptr : Nat) : Option Nat := do
  let (objectLength, _) ← readInt data 32 ptr
  return ptr + (4 + objectLength.toNat) % 2 ^ 32

def skipField (ptr : Nat) : Option Nat := do
  let fieldType ← data[ptr]?
  let ptr := ptr + 1
  match PSKeyValueCoderFieldType.ofRawValue fieldType with
  | some .string => skipData data ptr
  | some .int32 => return ptr + 4
  | some .int64 => return ptr + 8
  | some .customClass => skipObject data ptr
  | some .array => skipObject data ptr
  | some .data => skipData data ptr
  | some .int32Dictionary => skipObject data ptr
  | some .double => return ptr + 8
  -- there is no case for this type
  | some .int32Array => return ptr
  | none => return ptr

/-! ## The search -/

inductive ScanResult where
  | found (ptr : Nat)
  /-- A key that is too long ends the search. -/
  | refused (ptr : Nat)
  | ended (ptr : Nat)
  deriving DecidableEq

/-- `memcmp` after the comparison of the lengths. -/
def keyMatches (key : Bytes) (compareKeyLength ptr : Nat) : Option Bool :=
  if compareKeyLength = key.length then (bytesAt data ptr key.length).map (· == key) else some false

/-- The inner loop. A round reads at least one byte, so that `scanEnd - ptr` rounds are enough. -/
def scanLoop (key : Bytes) (scanEnd : Nat) : Nat → Nat → Option ScanResult
  | rounds, ptr =>
    if ptr < scanEnd then
      match rounds with
      | 0 => none
      | rounds + 1 => do
        let (compareKeyLength, ptr) ← readLength data ptr
        let isIt ← keyMatches data key compareKeyLength ptr
        if isIt then return .found (ptr + compareKeyLength)
        else if compareKeyLength > 1000 then return .refused ptr
        else
          let ptr ← skipField data (ptr + compareKeyLength)
          scanLoop key scanEnd rounds ptr
    else some (.ended ptr)

def scan (key : Bytes) (ptr scanEnd : Nat) : Option ScanResult := scanLoop data key scanEnd (scanEnd - ptr) ptr

def skipToValueForRawKey (key : Bytes) (self : PSKeyValueDecoder) : Option (Bool × PSKeyValueDecoder) := do
  match ← scan data key self.currentPtr self.endPtr with
  | .found ptr => return (true, { self with currentPtr := ptr })
  | .refused ptr => return (false, { self with currentPtr := ptr })
  | .ended _ =>
    match ← scan data key self.beginPtr self.currentPtr with
    | .found ptr => return (true, { self with currentPtr := ptr })
    | .refused ptr => return (false, { self with currentPtr := ptr })
    | .ended ptr => return (false, { self with currentPtr := ptr })

/-! ## Numbers, strings and data -/

section
variable (conversions : NumberConversions)

/-- The methods do this for a type that they do not know: they skip from behind the byte of the type. -/
def skipUnknown {α : Type} (absent : α) (ptr : Nat) : Option (α × Nat) := do
  let ptr ← skipField data ptr
  return (absent, ptr)

def decodeString (fieldType : Option PSKeyValueCoderFieldType) (ptr : Nat) : Option (Option NSString × Nat) :=
  match fieldType with
  | some .string => readString data ptr
  | some .int32 => (readInt data 32 ptr).map fun (number, ptr) => (some (nsString (toString number.toInt)), ptr)
  | some .int64 => (readInt data 64 ptr).map fun (number, ptr) => (some (nsString (toString number.toInt)), ptr)
  | _ => skipUnknown data none ptr

def decodeInt32 (fieldType : Option PSKeyValueCoderFieldType) (ptr : Nat) : Option (BitVec 32 × Nat) :=
  match fieldType with
  | some .string => (readString data ptr).map fun (string, ptr) => ((string.map conversions.intValue).getD 0, ptr)
  | some .int32 => readInt data 32 ptr
  | some .int64 => (readInt data 64 ptr).map fun (number, ptr) => (number.truncate 32, ptr)
  | _ => skipUnknown data 0 ptr

def decodeInt64 (fieldType : Option PSKeyValueCoderFieldType) (ptr : Nat) : Option (BitVec 64 × Nat) :=
  match fieldType with
  | some .string => (readString data ptr).map fun (string, ptr) => ((string.map conversions.longLongValue).getD 0, ptr)
  | some .int32 => (readInt data 32 ptr).map fun (number, ptr) => (number.signExtend 64, ptr)
  | some .int64 => readInt data 64 ptr
  | _ => skipUnknown data 0 ptr

def decodeDouble (fieldType : Option PSKeyValueCoderFieldType) (ptr : Nat) : Option (BitVec 64 × Nat) :=
  match fieldType with
  | some .string =>
    (readString data ptr).map fun (string, ptr) => ((string.map conversions.truncatedDoubleValue).getD 0, ptr)
  | some .int32 => (readInt data 32 ptr).map fun (number, ptr) => (conversions.doubleOfInt32 number, ptr)
  | some .int64 => (readInt data 64 ptr).map fun (number, ptr) => (conversions.doubleOfInt64 number, ptr)
  | some .double => readInt data 64 ptr
  | _ => skipUnknown data 0 ptr

def decodeData (fieldType : Option PSKeyValueCoderFieldType) (ptr : Nat) : Option (Option Bytes × Nat) :=
  match fieldType with
  | some .data => (readData data ptr).map fun (bytes, ptr) => (some bytes, ptr)
  | _ => skipUnknown data none ptr

def decodeBytes (maxLength : Nat) (fieldType : Option PSKeyValueCoderFieldType) (ptr : Nat) : Option (Bytes × Nat) :=
  match fieldType with
  | some .data => readBytes data maxLength ptr
  | _ => skipUnknown data [] ptr

/-- A count below zero is read as no numbers; here the other types are skipped from the byte of the type. -/
def decodeInt32Array (fieldType : Option PSKeyValueCoderFieldType) (ptr : Nat) :
    Option (Option (List (BitVec 32)) × Nat) :=
  match fieldType with
  | some .int32Array => do
    let (count, ptr) ← readInt data 32 ptr
    let (numbers, ptr) ← readNumbers data count.toInt.toNat ptr
    return (some numbers, ptr)
  | _ => skipUnknown data none (ptr - 1)

/-! ## Objects -/

variable {ρ : Type} (readObject : Nat → PSKeyValueDecoder → Option (Option ρ × Nat × PSKeyValueDecoder))

/-- The loop of `readArray`; objects that could not be made are left out. -/
def readObjects : Nat → Nat → PSKeyValueDecoder → Option (List ρ × Nat × PSKeyValueDecoder)
  | 0, ptr, tempCoder => some ([], ptr, tempCoder)
  | count + 1, ptr, tempCoder => do
    let (object, ptr, tempCoder) ← readObject ptr tempCoder
    let (objects, ptr, tempCoder) ← readObjects count ptr tempCoder
    return (object.toList ++ objects, ptr, tempCoder)

def readArray (ptr : Nat) (tempCoder : PSKeyValueDecoder) : Option (List ρ × Nat × PSKeyValueDecoder) := do
  let (objectLength, ptr) ← readInt data 32 ptr
  let objectEnd := ptr + objectLength.toNat
  let (count, ptr) ← readLength data ptr
  let (array, _, tempCoder) ← readObjects readObject count ptr tempCoder
  return (array, objectEnd, tempCoder)

/-- `dict[@(key)] = object`. -/
def setObject (dict : BitVec 32 → Option ρ) (key : BitVec 32) (object : ρ) : BitVec 32 → Option ρ :=
  fun key' => if key' = key then some object else dict key'

/-- The loop of `readInt32Dictionary`. -/
def readEntries : Nat → (BitVec 32 → Option ρ) → Nat → PSKeyValueDecoder →
    Option ((BitVec 32 → Option ρ) × Nat × PSKeyValueDecoder)
  | 0, dict, ptr, tempCoder => some (dict, ptr, tempCoder)
  | count + 1, dict, ptr, tempCoder => do
    let (key, ptr) ← readInt data 32 ptr
    let (object, ptr, tempCoder) ← readObject ptr tempCoder
    readEntries count (object.elim dict (setObject dict key)) ptr tempCoder

def readInt32Dictionary (ptr : Nat) (tempCoder : PSKeyValueDecoder) :
    Option ((BitVec 32 → Option ρ) × Nat × PSKeyValueDecoder) := do
  let (objectLength, ptr) ← readInt data 32 ptr
  let objectEnd := ptr + objectLength.toNat
  let (count, ptr) ← readLength data ptr
  let (dict, _, tempCoder) ← readEntries data readObject count (fun _ => none) ptr tempCoder
  return (dict, objectEnd, tempCoder)

/-- The decoder that is lent to objects is made when it is first needed. -/
def lendTempCoder {α : Type} (read : PSKeyValueDecoder → Option (α × Nat × PSKeyValueDecoder))
    (tempCoder : Option PSKeyValueDecoder) : Option (α × Nat × Option PSKeyValueDecoder) := do
  let (value, ptr, tempCoder) ← read (tempCoder.getD ⟨0, 0, 0, none⟩)
  return (value, ptr, some tempCoder)

def keepTempCoder {α : Type} (read : Option (α × Nat)) (tempCoder : Option PSKeyValueDecoder) :
    Option (α × Nat × Option PSKeyValueDecoder) := do
  let (value, ptr) ← read
  return (value, ptr, tempCoder)

def decodeObject (fieldType : Option PSKeyValueCoderFieldType) (ptr : Nat) (tempCoder : Option PSKeyValueDecoder) :
    Option (Option ρ × Nat × Option PSKeyValueDecoder) :=
  match fieldType with
  | some .customClass => lendTempCoder (readObject ptr) tempCoder
  | _ => keepTempCoder (skipUnknown data none ptr) tempCoder

def decodeArray (fieldType : Option PSKeyValueCoderFieldType) (ptr : Nat) (tempCoder : Option PSKeyValueDecoder) :
    Option (Option (List ρ) × Nat × Option PSKeyValueDecoder) :=
  match fieldType with
  | some .array =>
    lendTempCoder (fun temp => (readArray data readObject ptr temp).map fun (array, rest) => (some array, rest)) tempCoder
  | _ => keepTempCoder (skipUnknown data none ptr) tempCoder

def decodeInt32Dictionary (fieldType : Option PSKeyValueCoderFieldType) (ptr : Nat)
    (tempCoder : Option PSKeyValueDecoder) :
    Option (Option (BitVec 32 → Option ρ) × Nat × Option PSKeyValueDecoder) :=
  match fieldType with
  | some .int32Dictionary =>
    lendTempCoder (fun temp => (readInt32Dictionary data readObject ptr temp).map fun (dict, rest) => (some dict, rest))
      tempCoder
  | _ => keepTempCoder (skipUnknown data none ptr) tempCoder

/-- What a method does behind the byte of the type. -/
def decodeValue (accessor : Accessor) (fieldType : Option PSKeyValueCoderFieldType) (ptr : Nat)
    (tempCoder : Option PSKeyValueDecoder) : Option (accessor.Result ρ × Nat × Option PSKeyValueDecoder) :=
  match accessor with
  | .string => keepTempCoder (decodeString data fieldType ptr) tempCoder
  | .int32 => keepTempCoder (decodeInt32 data conversions fieldType ptr) tempCoder
  | .int64 => keepTempCoder (decodeInt64 data conversions fieldType ptr) tempCoder
  | .object => decodeObject data readObject fieldType ptr tempCoder
  | .array => decodeArray data readObject fieldType ptr tempCoder
  | .data => keepTempCoder (decodeData data fieldType ptr) tempCoder
  | .bytes maxLength => keepTempCoder (decodeBytes data maxLength fieldType ptr) tempCoder
  | .int32Array => keepTempCoder (decodeInt32Array data fieldType ptr) tempCoder
  | .int32Dictionary => decodeInt32Dictionary data readObject fieldType ptr tempCoder
  | .double => keepTempCoder (decodeDouble data conversions fieldType ptr) tempCoder

def decodeForRawKey (key : Bytes) (accessor : Accessor) (self : PSKeyValueDecoder) :
    Option (accessor.Result ρ × PSKeyValueDecoder) := do
  let (found, self) ← skipToValueForRawKey data key self
  if found then
    let fieldType ← data[self.currentPtr]?
    let (result, ptr, tempCoder) ← decodeValue data conversions readObject accessor
      (PSKeyValueCoderFieldType.ofRawValue fieldType) (self.currentPtr + 1) self.tempCoder
    return (result, { self with currentPtr := ptr, tempCoder := tempCoder })
  else
    return (accessor.absent ρ, self)

def runProgram {σ : Type} : CoderProgram ρ σ → PSKeyValueDecoder → Option (σ × PSKeyValueDecoder)
  | .done result, self => some (result, self)
  | .ask key accessor next, self => do
    let (result, self) ← decodeForRawKey data conversions readObject key accessor self
    runProgram (next result) self

end

/-- `readObject`, where `classes` are the classes that the runtime knows with their `initWithKeyValueCoder:`. Objects are
nested at most `depth` deep. -/
def readObject {ρ : Type} (conversions : NumberConversions) (classes : Bytes → Option (CoderProgram ρ (Option ρ))) :
    Nat → Nat → PSKeyValueDecoder → Option (Option ρ × Nat × PSKeyValueDecoder)
  | 0, _, _ => none
  | depth + 1, ptr, tempCoder => do
    let (objectLength, ptr) ← readInt data 32 ptr
    let objectEnd := ptr + objectLength.toNat
    let classNameLength ← strlen data ptr
    let className ← bytesAt data ptr classNameLength
    let ptr := ptr + (classNameLength + 1)
    match classes className with
    | none => return (none, objectEnd, tempCoder)
    | some initWithKeyValueCoder =>
      let (object, tempCoder) ← runProgram data conversions (readObject conversions classes depth) initWithKeyValueCoder
        { tempCoder with beginPtr := ptr, endPtr := objectEnd, currentPtr := ptr }
      return (object, objectEnd, tempCoder)

def decodeWith {ρ σ : Type} (conversions : NumberConversions) (classes : Bytes → Option (CoderProgram ρ (Option ρ)))
    (depth : Nat) (program : CoderProgram ρ σ) : Option σ :=
  (runProgram data conversions (readObject data conversions classes depth) program
    (PSKeyValueDecoder.initWithData data)).map Prod.fst

end

end TelegramClient.Coding
