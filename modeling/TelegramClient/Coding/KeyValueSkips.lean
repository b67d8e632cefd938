import TelegramClient.Coding.KeyValueRoundTrip

/-!
# Skipping what the key-value encoder writes

A search passes the fields with other keys by `skipField`. Its table of types and the methods of the encoder go over
the same nine types, except that the table has no case for an array of numbers.

* `skipField_int32Array` : of such a field only the byte of the type is skipped;
* `skipsField_iff` : exactly the values that are `Skippable` are skipped to their end.
-/

namespace TelegramClient.Coding
open List

section
variable {data : Bytes} {ptr : Nat}

theorem skipField_int32Array {numbers : List (BitVec 32)}
    (h : HoldsAt data ptr ([PSKeyValueCoderFieldType.int32Array.rawValue] ++ valueBytes (.int32Array numbers))) :
    skipField data ptr = some (ptr + 1) := by
  rw [singleton_append] at h
  rw [skipField, h.getElem]
  rfl

/-- **Where a field ends**: `skipField` gets there exactly from the values that it has a case for and whose length is
written in full. -/
theorem skipField_iff {value : CodedValue} (h : HoldsAt data ptr ([value.fieldType.rawValue] ++ valueBytes value)) :
    skipField data ptr = some (ptr + (1 + (valueBytes value).length)) ↔ value.Skippable := by
  constructor
  · intro hskip
    have hle := length_counted_le value
    by_cases hty : value.fieldType = .int32Array
    · obtain ⟨numbers, rfl⟩ : ∃ numbers, value = .int32Array numbers := by
        match value, hty with
        | .int32Array numbers, _ => exact ⟨numbers, rfl⟩
      have hlen : 4 ≤ (valueBytes (.int32Array numbers)).length := by
        rw [valueBytes, length_append, length_leBits]
        omega
      have hshort := skipField_int32Array h
      rw [hshort] at hskip
      have := Option.some.inj hskip
      omega
    · refine ⟨hty, ?_⟩
      rw [skipField_eq hty h, CodedValue.skippedLength] at hskip
      have := Option.some.inj hskip
      omega
  · intro hskip
    exact skipField_spec hskip h

end

/-! ## Fields of the encoder -/

/-- `skipField` at the byte of the type ends behind the field, and a search that starts on the field finds the keys
behind it. -/
structure SkipsField (before key : Bytes) (value : CodedValue) (rest : Bytes) : Prop where
  cursor : skipField (encodeField before key value ++ rest) (before.length + (block key).length) =
    some (encodeField before key value).length
  found : key.length ≤ 1000 → ∀ (between : CodedFields) (later : Bytes) (laterValue : CodedValue) (last : CodedFields)
    (decoder : PSKeyValueDecoder), later ≠ key → later ∉ between.map Prod.fst → later.length ≤ 1000 →
    (∀ field ∈ between, field.1.length ≤ 1000 ∧ field.2.Skippable) → decoder.currentPtr = before.length →
    decoder.endPtr = (encodeFields before ((key, value) :: between ++ (later, laterValue) :: last)).length →
    skipToValueForRawKey (encodeFields before ((key, value) :: between ++ (later, laterValue) :: last) ++ rest) later
        decoder =
      some (true, { decoder with
        currentPtr := (encodeFields before ((key, value) :: between)).length + (block later).length })

theorem holdsAt_behind (before x rest : Bytes) : HoldsAt (before ++ x ++ rest) before.length x :=
  ⟨before, rest, append_assoc before x rest, rfl⟩

theorem holdsAt_encodeField (before key : Bytes) (value : CodedValue) (rest : Bytes) :
    HoldsAt (encodeField before key value ++ rest) (before.length + (block key).length)
      ([value.fieldType.rawValue] ++ valueBytes value) := by
  have h := holdsAt_behind before (fieldBytes (key, value)) rest
  rw [← encodeField_eq] at h
  exact (holdsAt_append.mp h).2

theorem length_encodeField (before key : Bytes) (value : CodedValue) : (encodeField before key value).length =
      before.length + (block key).length + (1 + (valueBytes value).length) := by
  rw [encodeField_eq, fieldBytes]
  simp only [length_append, length_singleton]
  omega

theorem skipToValueForRawKey_later {before key rest : Bytes} {value : CodedValue} (hskip : value.Skippable)
    (hkey : key.length ≤ 1000) {between : CodedFields} {later : Bytes} (laterValue : CodedValue) (last : CodedFields)
    {decoder : PSKeyValueDecoder} (hne : later ≠ key) (hbetween : later ∉ between.map Prod.fst)
    (hlater : later.length ≤ 1000) (hfields : ∀ field ∈ between, field.1.length ≤ 1000 ∧ field.2.Skippable)
    (hcur : decoder.currentPtr = before.length)
    (hend : decoder.endPtr = (encodeFields before ((key, value) :: between ++ (later, laterValue) :: last)).length) :
    skipToValueForRawKey (encodeFields before ((key, value) :: between ++ (later, laterValue) :: last) ++ rest) later
        decoder = some (true, { decoder with
        currentPtr := (encodeFields before ((key, value) :: between)).length + (block later).length }) := by
  have hholds := holdsAt_behind before (fieldsBytes ((key, value) :: between ++ (later, laterValue) :: last)) rest
  rw [← encodeFields_eq] at hholds
  have hkeys : later ∉ ((key, value) :: between).map Prod.fst := by
    rw [map_cons, mem_cons, not_or]
    exact ⟨hne, hbetween⟩
  have hall : ∀ field ∈ (key, value) :: between, field.1.length ≤ 1000 ∧ field.2.Skippable := by
    intro field hm
    rcases mem_cons.mp hm with rfl | hm
    · exact ⟨hkey, hskip⟩
    · exact hfields field hm
  have hlen : (encodeFields before ((key, value) :: between)).length =
      before.length + (fieldsBytes ((key, value) :: between)).length := by
    rw [encodeFields_eq, length_append]
  rw [encodeFields_eq, length_append] at hend
  have hscan := scan_present hkeys hlater (fun field hm => (hall field hm).1) (fun field hm => (hall field hm).2)
    (Nat.le_of_eq hend.symm) hholds
  rw [← hcur] at hscan
  rw [skipToValueForRawKey, hscan, hlen, ← hcur]
  rfl

/-- **Skipping.** A field is skipped to its end, so that later keys are found behind it, exactly if it is no array of
numbers and its length fits in the 32 bits that are written for it. -/
theorem skipsField_iff (before key : Bytes) (value : CodedValue) (rest : Bytes) :
    SkipsField before key value rest ↔ value.Skippable := by
  have hend := length_encodeField before key value
  have hiff := skipField_iff (holdsAt_encodeField before key value rest)
  rw [← hend] at hiff
  constructor
  · intro h
    exact hiff.mp h.cursor
  · intro hskip
    refine ⟨hiff.mpr hskip, ?_⟩
    intro hkey between later laterValue last decoder hne hbetween hlater hfields hcurrent hfieldsEnd
    exact skipToValueForRawKey_later hskip hkey laterValue last hne hbetween hlater hfields hcurrent hfieldsEnd

/-- An array of one number, and a number behind it. -/
def arrayThenNumber : CodedFields := [([97], .int32Array [5]), ([98], .int32 5)]

/-- The pointer stays behind the byte of the type, and the number is not found. -/
theorem arrayThenNumber_notSkipped :
    ¬ SkipsField [] [97] (.int32Array [5]) (fieldsBytes [([98], .int32 5)]) ∧
      skipField (encodeFields [] arrayThenNumber) 2 = some 3 ∧
      (encodeField [] [97] (.int32Array [5])).length = 11 ∧
      (skipToValueForRawKey (encodeFields [] arrayThenNumber) [98]
        (PSKeyValueDecoder.initWithData (encodeFields [] arrayThenNumber))).map Prod.fst = some false := by
  refine ⟨?_, by decide +kernel, by decide +kernel, by decide +kernel⟩
  intro h
  exact h.cursor.symm.trans_ne (by decide +kernel) rfl

end TelegramClient.Coding
