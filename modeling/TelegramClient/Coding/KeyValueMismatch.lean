import TelegramClient.Coding.KeyValueRoundTrip

/-!
# Keys that are asked for with the method of another type

A method that does not know the type of the value that it has found skips the value and returns its default. It has
read the byte of the type by then, and `skipField` reads another one: the first byte of the value is taken for a type.
Only `decodeInt32ArrayForCKey:` goes back to the byte of the type.

* `Accessor.accepts` : the types that a method makes its result from;
* `decodeForRawKey_mismatch` : the default, and where the pointer is left;
* `mismatch_harmless` : when the keys that are asked for next are found.
-/

namespace TelegramClient.Coding
open List

/-! ## Methods and types -/

def Accessor.accepts : Accessor → PSKeyValueCoderFieldType → Bool
  | .string, .string => true
  | .string, .int32 => true
  | .string, .int64 => true
  | .int32, .string => true
  | .int32, .int32 => true
  | .int32, .int64 => true
  | .int64, .string => true
  | .int64, .int32 => true
  | .int64, .int64 => true
  | .double, .string => true
  | .double, .int32 => true
  | .double, .int64 => true
  | .double, .double => true
  | .object, .customClass => true
  | .array, .array => true
  | .data, .data => true
  | .bytes _, .data => true
  | .int32Array, .int32Array => true
  | .int32Dictionary, .int32Dictionary => true
  | _, _ => false

/-- Where a method that does not know the type begins to skip, from behind the byte of the type. -/
def Accessor.skipsFrom : Accessor → Nat → Nat
  | .int32Array, ptr => ptr - 1
  | _, ptr => ptr

/-- The keys that are asked for are there, each with the method of its type. -/
def CoderProgram.AsksEncoded {ρ σ : Type} (fields : List (Bytes × DecodedValue ρ)) : CoderProgram ρ σ → Prop
  | .done _ => True
  | .ask key accessor next =>
    (∃ value, fields.lookup key = some value ∧ (value.as accessor).isSome) ∧
      (next (answer fields key accessor)).AsksEncoded fields

section
variable {ρ : Type} {data : Bytes} {conversions : NumberConversions}
  {readObject : Nat → PSKeyValueDecoder → Option (Option ρ × Nat × PSKeyValueDecoder)}

theorem keepTempCoder_skipUnknown {α : Type} (absent : α) (ptr : Nat) (tempCoder : Option PSKeyValueDecoder) :
    keepTempCoder (skipUnknown data absent ptr) tempCoder =
      (skipField data ptr).map fun ptr => (absent, ptr, tempCoder) := by
  unfold keepTempCoder skipUnknown
  cases skipField data ptr <;> rfl

variable {accessor : Accessor}

/-- **A type that is not accepted**: the default, and what `skipField` makes of the bytes there. -/
theorem decodeValue_mismatch {fieldType : PSKeyValueCoderFieldType} (h : accessor.accepts fieldType = false)
    (ptr : Nat) (tempCoder : Option PSKeyValueDecoder) :
    decodeValue data conversions readObject accessor (some fieldType) ptr tempCoder =
      (skipField data (accessor.skipsFrom ptr)).map fun ptr => (accessor.absent ρ, ptr, tempCoder) := by
  cases accessor <;> cases fieldType <;> first
    | exact keepTempCoder_skipUnknown _ _ _
    | exact absurd h (by decide)
    | simp [Accessor.accepts] at h

variable (hdata : data.length < 2 ^ 31) {fields : CodedFields} (hok : FieldsOk fields) {decoder : PSKeyValueDecoder}
  {key : Bytes} {value : CodedValue} {first last : CodedFields} (hfields : fields = first ++ (key, value) :: last)
include hdata hok hfields

variable (conversions readObject) in
theorem decodeForRawKey_mismatch (hdec : OnFields data fields decoder)
    (h : accessor.accepts value.fieldType = false) {ptr : Nat} (hskip : skipField data (accessor.skipsFrom
      (decoder.beginPtr + (fieldsBytes first).length + (block key).length + 1)) = some ptr) :
    decodeForRawKey data conversions readObject key accessor decoder =
      some (accessor.absent ρ, { decoder with currentPtr := ptr }) := by
  have hholds := hdec.holds
  rw [hfields, fieldsBytes_append, fieldsBytes_cons, fieldBytes] at hholds
  have hfield := (holdsAt_append.mp (holdsAt_append.mp hholds).2).1
  have hval := (holdsAt_append.mp hfield).2
  rw [singleton_append] at hval
  rw [decodeForRawKey, skipToValueForRawKey_present hdata hok hdec hfields]
  simp only [Option.bind_eq_bind, Option.bind_some, if_true, hval.getElem,
    PSKeyValueCoderFieldType.ofRawValue_rawValue, decodeValue_mismatch h, hskip, Option.map_some]
  rfl

theorem skipToValueForRawKey_pastEnd (hholds : HoldsAt data decoder.beginPtr (fieldsBytes fields))
    (hend : decoder.endPtr = decoder.beginPtr + (fieldsBytes fields).length)
    (hpast : decoder.endPtr ≤ decoder.currentPtr) : skipToValueForRawKey data key decoder =
      some (true, { decoder with currentPtr := decoder.beginPtr + (fieldsBytes first).length + (block key).length }) := by
  have hskips := skippable_of_fields hdata hok.types hholds
  have hfirst : first ⊆ fields := hfields ▸ subset_append_left _ _
  have hkey : key ∉ first.map Prod.fst := by
    have hnd := hok.keys
    rw [hfields, map_append, map_cons] at hnd
    intro hm
    exact (nodup_append.mp hnd).2.2 key hm key mem_cons_self rfl
  have hscan : scan data key decoder.currentPtr decoder.endPtr = some (.ended decoder.currentPtr) := by
    rw [scan, scanLoop.eq_def]
    exact if_neg (Nat.not_lt.mpr hpast)
  have hscan' : scan data key decoder.beginPtr decoder.currentPtr =
      some (.found (decoder.beginPtr + (fieldsBytes first).length + (block key).length)) := by
    rw [hend, hfields] at hpast
    rw [hfields] at hholds
    exact scan_present hkey (hok.keyLength (key, value) (hfields ▸ by simp))
      (fun field hm => hok.keyLength field (hfirst hm)) (fun field hm => hskips field (hfirst hm)) hpast hholds
  rw [skipToValueForRawKey, hscan]
  simp only [Option.bind_eq_bind, Option.bind_some, hscan']
  rfl

end

/-! ## The calls that follow -/

/-- A search from here finds every key that is there. -/
def Resumes (fields : CodedFields) (decoder : PSKeyValueDecoder) (ptr : Nat) : Prop :=
  (∃ before after, fields = before ++ after ∧ ptr = decoder.beginPtr + (fieldsBytes before).length) ∨
    decoder.endPtr ≤ ptr

/-- The bytes of a value, read as the type of a field and a value of that type, end between two fields or behind all of
them. -/
def MisreadEnds (data : Bytes) (fields : CodedFields) (decoder : PSKeyValueDecoder) (first : CodedFields) (key : Bytes) :
    Prop :=
  ∃ ptr, skipField data (decoder.beginPtr + (fieldsBytes first).length + (block key).length + 1) = some ptr ∧
    Resumes fields decoder ptr

section
variable {ρ : Type} {data : Bytes} {conversions : NumberConversions}
  {classes : Bytes → Option (CoderProgram ρ (Option ρ))}
  {readObject : Nat → PSKeyValueDecoder → Option (Option ρ × Nat × PSKeyValueDecoder)}

/-- **A harmless call**: it returns the default, and whoever asks for the keys that are there with the methods of their
types gets what was encoded. -/
def HarmlessCall (data : Bytes) (conversions : NumberConversions) (classes : Bytes → Option (CoderProgram ρ (Option ρ)))
    (readObject : Nat → PSKeyValueDecoder → Option (Option ρ × Nat × PSKeyValueDecoder)) (fields : CodedFields)
    (decoder : PSKeyValueDecoder) (key : Bytes) (accessor : Accessor) : Prop :=
  ∃ decoder', decodeForRawKey data conversions readObject key accessor decoder =
      some (accessor.absent ρ, decoder') ∧
    ∀ {σ : Type} (program : CoderProgram ρ σ), program.AsksEncoded (decodedFields classes fields) →
      ∃ decoder'', runProgram data conversions readObject program decoder' =
        some (program.run (decodedFields classes fields), decoder'')

variable (hdata : data.length < 2 ^ 31) {fields : CodedFields} (hok : FieldsOk fields) (hpaired : StringsPaired fields)
  (hreads : ∀ field ∈ fields, ∀ object ∈ field.2.objects, ReadsObject data classes readObject object)
  {decoder : PSKeyValueDecoder}
include hdata hok

variable {key : Bytes} {value : CodedValue} {first last : CodedFields}

theorem skipToValueForRawKey_resumes (hholds : HoldsAt data decoder.beginPtr (fieldsBytes fields))
    (hend : decoder.endPtr = decoder.beginPtr + (fieldsBytes fields).length)
    (hresumes : Resumes fields decoder decoder.currentPtr) (hfields : fields = first ++ (key, value) :: last) :
    skipToValueForRawKey data key decoder =
      some (true, { decoder with currentPtr := decoder.beginPtr + (fieldsBytes first).length + (block key).length }) := by
  rcases hresumes with hbetween | hpast
  · exact skipToValueForRawKey_present hdata hok ⟨hholds, hend, hbetween⟩ hfields
  · exact skipToValueForRawKey_pastEnd hdata hok hfields hholds hend hpast

include hpaired hreads

variable (conversions) in
theorem runProgram_resumes {σ : Type} (program : CoderProgram ρ σ)
    (hasks : program.AsksEncoded (decodedFields classes fields))
    (hholds : HoldsAt data decoder.beginPtr (fieldsBytes fields))
    (hend : decoder.endPtr = decoder.beginPtr + (fieldsBytes fields).length)
    (hresumes : Resumes fields decoder decoder.currentPtr) :
    ∃ decoder', runProgram data conversions readObject program decoder =
      some (program.run (decodedFields classes fields), decoder') := by
  induction program generalizing decoder with
  | done result => exact ⟨decoder, rfl⟩
  | ask key accessor next ih =>
    obtain ⟨⟨decoded, hlook, hty⟩, hnext⟩ := hasks
    rw [lookup_decodedFields, Option.map_eq_some_iff] at hlook
    obtain ⟨value, hval, rfl⟩ := hlook
    obtain ⟨result, hres⟩ := Option.isSome_iff_exists.mp hty
    obtain ⟨first, last, hfields, -⟩ := lookup_eq_some_iff.mp hval
    have hfound := skipToValueForRawKey_resumes hdata hok hholds hend hresumes hfields
    have hm : (key, value) ∈ fields := by simp [hfields]
    obtain ⟨decoder', hread, hdecoder'⟩ := decodeForRawKey_found conversions hdata (hok.types _ hm)
      (hok.dictionaries _ hm) (hpaired _ hm) (hreads _ hm) hholds hend hfields hfound hres
    have hanswer : answer (decodedFields classes fields) key accessor = result := by
      rw [answer, lookup_decodedFields, hval, Option.map_some, Option.bind_some, hres]
      rfl
    rw [hanswer] at hnext
    obtain ⟨decoder'', hrun⟩ := ih result hnext hdecoder'.holds hdecoder'.endPtr (.inl hdecoder'.currentPtr)
    refine ⟨decoder'', ?_⟩
    rw [runProgram, hread, CoderProgram.run, hanswer]
    exact hrun

variable (conversions) in
theorem harmlessCall_of_resumes (hdec : OnFields data fields decoder)
    (hfields : fields = first ++ (key, value) :: last) {accessor : Accessor}
    (haccessor : accessor.accepts value.fieldType = false)
    (h : accessor = .int32Array ∨ MisreadEnds data fields decoder first key) :
    HarmlessCall data conversions classes readObject fields decoder key accessor := by
  obtain ⟨ptr, hskip, hresumes⟩ : ∃ ptr, skipField data (accessor.skipsFrom
      (decoder.beginPtr + (fieldsBytes first).length + (block key).length + 1)) = some ptr ∧
      Resumes fields decoder ptr := by
    by_cases harray : accessor = .int32Array
    · -- the field is skipped from the byte of its type
      subst harray
      have hskippable := skippable_of_fields hdata hok.types hdec.holds (key, value) (hfields ▸ by simp)
      have hholds := hdec.holds
      rw [hfields, fieldsBytes_append, fieldsBytes_cons, fieldBytes] at hholds
      have hval := (holdsAt_append.mp (holdsAt_append.mp (holdsAt_append.mp hholds).2).1).2
      refine ⟨_, skipField_spec hskippable hval, .inl ⟨first ++ [(key, value)], last, by rw [hfields]; simp, ?_⟩⟩
      show decoder.beginPtr + (fieldsBytes first).length + (block key).length + 1 - 1 + _ = _
      rw [fieldsBytes_append, fieldsBytes_cons, fieldBytes]
      simp only [length_append, length_singleton, fieldsBytes, length_nil]
      omega
    · have hfrom (ptr : Nat) : accessor.skipsFrom ptr = ptr := by
        cases accessor <;> first
          | rfl
          | exact absurd rfl harray
      rw [hfrom]
      exact h.resolve_left harray
  refine ⟨{ decoder with currentPtr := ptr },
    decodeForRawKey_mismatch conversions readObject hdata hok hfields hdec haccessor hskip, ?_⟩
  intro σ program hasks
  exact runProgram_resumes conversions hdata hok hpaired hreads program hasks hdec.holds hdec.endPtr hresumes

end

def noConversions : NumberConversions := ⟨fun _ => 0, fun _ => 0, fun _ => 0, fun _ => 0, fun _ => 0⟩

def emptyThenNumber : CodedFields := [([97], .string []), ([98], .int32 7)]

theorem wellFormed_emptyThenNumber : WellFormed (ρ := Unit) (fun _ => none) emptyThenNumber := by
  refine .mk ⟨by simp [emptyThenNumber], by simp [emptyThenNumber], by simp [emptyThenNumber, CodedValue.fieldType],
    by simp [emptyThenNumber]⟩ ?_ ?_ <;> simp [emptyThenNumber, CodedValue.objects]

theorem stringsPaired_emptyThenNumber {level : CodedFields} (h : Level emptyThenNumber level) : StringsPaired level := by
  cases h with
  | self =>
    intro field hfield string heq
    simp only [emptyThenNumber, mem_cons, not_mem_nil, or_false] at hfield
    rcases hfield with rfl | rfl <;> cases heq
    rfl
  | inner hfield hobject =>
    simp only [emptyThenNumber, mem_cons, not_mem_nil, or_false] at hfield
    rcases hfield with rfl | rfl <;> nomatch hobject

def zeroThenNumber : CodedFields := [([97], .int32 0), ([98], .int32 7)]

end TelegramClient.Coding
