import TelegramClient.MtProto.Buffer

/-!
# `MTInputStream`: byte strings

The second reader of TL byte strings. A stream is the list of its bytes that are left; at its end it has none, which is
no error of a single read.

* `streamReadLength` : the prefix and the padding; `streamReadBytes`, `streamReadString` : `readBytes:` and `readString:`
  with the flag `failed`;
* `reportsTruncation_iff` : **when the stream reports that it was cut**.
-/

namespace TelegramClient.MtProto
open List

/-! ## The reader -/

/-- The length, the number of padding bytes and the rest. What the stream does not fill stays zero. -/
def streamReadLength (is : Bytes) : Int × Nat × Bytes :=
  let tmp := is.take 1
  let is := is.drop 1
  let length : Int := ofLe tmp
  if length = 254 then
    let upper := is.take 3
    let length := ((ofLeBits 32 (0 :: upper)).sshiftRight 8).toInt
    (length, (roundUpInput length 4 - length).toNat, is.drop 3)
  else (length, (roundUpInput (length + 1) 4 - (length + 1)).toNat, is)

/-- `readBytes:`. Memory for a negative length is `NULL`, into which bytes cannot be read. -/
def streamReadBytes (is : Bytes) : Except Fault (Bytes × Bytes) :=
  let (length, paddingBytes, is) := streamReadLength is
  if length < 0 then
    if is = [] then .error .failed else .error .raised
  else
    let bytes := is.take length.toNat
    if (bytes.length : Int) ≠ length then .error .failed
    else .ok (bytes, (is.drop length.toNat).drop paddingBytes)

/-- `readString:`. -/
def streamReadString (is : Bytes) : Except Fault (Option String × Bytes) :=
  let (length, paddingBytes, is) := streamReadLength is
  if length > 0 then
    let bytes := is.take length.toNat
    if (bytes.length : Int) ≠ length then .error .failed
    else .ok (String.fromUTF8? ⟨bytes.toArray⟩, (is.drop length.toNat).drop paddingBytes)
  else .ok (some "", is.drop paddingBytes)

/-! ## Whole byte strings -/

def tlPrefixSize (is : Bytes) : Nat := if is.head? = some 254 then 4 else 1

/-- The length that the prefix tells, with zeros for bytes that are not there. -/
def tlLength (is : Bytes) : Nat := if is.head? = some 254 then ofLe ((is.drop 1).take 3) else ofLe (is.take 1)

def tlPaddingSize (is : Bytes) : Nat := (4 - (tlPrefixSize is + tlLength is) % 4) % 4

def tlSize (is : Bytes) : Nat := tlPrefixSize is + tlLength is + tlPaddingSize is

def TLComplete (is : Bytes) : Prop := tlSize is ≤ is.length

instance (is : Bytes) : Decidable (TLComplete is) := inferInstanceAs (Decidable (_ ≤ _))

/-- At this position of a stream, what is not a whole byte string fails, and a whole one is read as by the buffer
reader, with the same value and the same bytes consumed. -/
def ReportsTruncation {α : Type} (read : Bytes → Except Fault (α × Bytes)) (readTL : ReadM α) (content : Bytes)
    (position : Nat) : Prop :=
  let is := content.drop position
  if TLComplete is then
    ∃ value, read is = .ok (value, is.drop (tlSize is)) ∧
      readTL.run ⟨content, position⟩ = .ok (value, ⟨content, position + tlSize is⟩)
  else read is = .error .failed

/-- A length that is not taken for a negative one, with data that is cut off or a byte string that is whole. -/
def CutReported (is : Bytes) : Prop :=
  tlLength is < 2 ^ 23 ∧ (is.length - tlPrefixSize is < tlLength is ∨ TLComplete is)

instance (is : Bytes) : Decidable (CutReported is) := inferInstanceAs (Decidable (_ ∧ _))

section
variable {is : Bytes}

theorem tlLength_lt (is : Bytes) : tlLength is < 2 ^ 24 := by
  unfold tlLength
  split
  · have hlt := ofLe_lt ((is.drop 1).take 3)
    have hpow : 256 ^ ((is.drop 1).take 3).length ≤ 256 ^ 3 := Nat.pow_le_pow_right (by omega) (length_take_le 3 _)
    omega
  · have hlt := ofLe_lt (is.take 1)
    have hpow : 256 ^ (is.take 1).length ≤ 256 ^ 1 := Nat.pow_le_pow_right (by omega) (length_take_le 1 _)
    omega

theorem long_iff (is : Bytes) : ((ofLe (is.take 1) : Nat) : Int) = 254 ↔ is.head? = some 254 := by
  cases is with
  | nil => simp [ofLe]
  | cons b is =>
    have hb : b.toNat = 254 ↔ b = 254 := by rw [← UInt8.toNat_inj]; rfl
    simp only [take_succ_cons, take_zero, ofLe, head?_cons, Option.some.injEq, ← hb]
    omega

theorem streamReadLength_eq (h : tlLength is < 2 ^ 23) :
    streamReadLength is = ((tlLength is : Int), tlPaddingSize is, is.drop (tlPrefixSize is)) := by
  unfold streamReadLength
  dsimp only
  by_cases hlong : is.head? = some 254
  · rw [tlLength, if_pos hlong] at h
    have hpad := roundUp_four_sub (ofLe ((is.drop 1).take 3))
    rw [if_pos ((long_iff is).mpr hlong), toInt_upper_shift (by omega), if_pos h, roundUpInput_eq, hpad, Int.toNat_natCast,
      drop_drop]
    simp only [tlLength, tlPaddingSize, tlPrefixSize, if_pos hlong, Nat.add_mod_left]
  · have hpad := roundUp_four_sub (ofLe (is.take 1) + 1)
    rw [Int.natCast_add, Int.natCast_one] at hpad
    rw [if_neg (mt (long_iff is).mp hlong), roundUpInput_eq, hpad, Int.toNat_natCast]
    simp only [tlLength, tlPaddingSize, tlPrefixSize, if_neg hlong, Nat.add_comm 1]

/-- A length from `2^23` on is taken for a negative one. -/
theorem streamReadLength_neg (h : 2 ^ 23 ≤ tlLength is) :
    ∃ length paddingBytes, streamReadLength is = (length, paddingBytes, is.drop 4) ∧ length < 0 := by
  have hlong : is.head? = some 254 := by
    by_contra hshort
    rw [tlLength, if_neg hshort] at h
    have hlt := ofLe_lt (is.take 1)
    have hpow : 256 ^ (is.take 1).length ≤ 256 ^ 1 := Nat.pow_le_pow_right (by omega) (length_take_le 1 _)
    omega
  have hlt := tlLength_lt is
  rw [tlLength, if_pos hlong] at h hlt
  unfold streamReadLength
  dsimp only
  rw [if_pos ((long_iff is).mpr hlong), toInt_upper_shift hlt, if_neg (by omega), drop_drop]
  exact ⟨_, _, rfl, by omega⟩

/-! ## What the stream returns -/

theorem streamReadBytes_eq (h : tlLength is < 2 ^ 23) : streamReadBytes is =
      if is.length - tlPrefixSize is < tlLength is then .error .failed
      else .ok ((is.drop (tlPrefixSize is)).take (tlLength is), is.drop (tlSize is)) := by
  rw [streamReadBytes, streamReadLength_eq h]
  dsimp only
  rw [if_neg (by omega), Int.toNat_natCast, drop_drop, drop_drop, length_take, length_drop, tlSize]
  by_cases hcut : is.length - tlPrefixSize is < tlLength is
  · rw [if_pos (by omega), if_pos hcut]
  · rw [if_neg (by omega), if_neg hcut, Nat.add_assoc]

theorem streamReadString_eq (h : tlLength is < 2 ^ 23) : streamReadString is =
      if is.length - tlPrefixSize is < tlLength is then .error .failed
      else .ok (String.fromUTF8? ⟨((is.drop (tlPrefixSize is)).take (tlLength is)).toArray⟩, is.drop (tlSize is)) := by
  rw [streamReadString, streamReadLength_eq h]
  dsimp only
  by_cases hempty : tlLength is = 0
  · rw [hempty, if_neg (by omega), if_neg (by omega), drop_drop, tlSize, hempty]
    rfl
  · rw [if_pos (by omega), Int.toNat_natCast, drop_drop, drop_drop, length_take, length_drop, tlSize]
    by_cases hcut : is.length - tlPrefixSize is < tlLength is
    · rw [if_pos (by omega), if_pos hcut]
    · rw [if_neg (by omega), if_neg hcut, Nat.add_assoc]

/-! ## What the buffer reader returns -/

theorem take_tlSize (is : Bytes) :
    is.take (tlSize is) = is.take (tlPrefixSize is) ++ ((is.drop (tlPrefixSize is)).take (tlLength is) ++
      (is.drop (tlPrefixSize is + tlLength is)).take (tlPaddingSize is)) := by
  rw [tlSize, take_add, take_add, append_assoc]

theorem reads_tlComplete (h : tlLength is < 2 ^ 23) (hcompl : TLComplete is) :
    Reads readTLBytes (is.take (tlSize is)) ((is.drop (tlPrefixSize is)).take (tlLength is)) := by
  unfold TLComplete tlSize at hcompl
  have hdata : ((is.drop (tlPrefixSize is)).take (tlLength is)).length = tlLength is := by
    rw [length_take, length_drop]
    omega
  have hpad : ((is.drop (tlPrefixSize is + tlLength is)).take (tlPaddingSize is)).length = tlPaddingSize is := by
    rw [length_take, length_drop]
    omega
  rw [take_tlSize]
  by_cases hlong : is.head? = some 254
  · have hsize : tlPrefixSize is = 4 := if_pos hlong
    have hstart : is.take (tlPrefixSize is) = [254] ++ (is.drop 1).take 3 := by
      obtain ⟨rest, rfl⟩ := head?_eq_some_iff.mp hlong
      rw [hsize]
      rfl
    rw [hstart, append_assoc]
    refine reads_longTL ?_ ?_ (by omega) ?_
    · rw [length_take, length_drop]
      omega
    · rw [hdata, tlLength, if_pos hlong]
    · rw [hpad, hdata, tlPaddingSize, hsize, Nat.add_mod_left]
  · have hsize : tlPrefixSize is = 1 := if_neg hlong
    cases is with
    | nil =>
      rw [length_nil, hsize] at hcompl
      omega
    | cons b rest =>
      have hb : b ≠ 254 := fun heq => hlong (by rw [heq]; rfl)
      have hval : b.toNat = tlLength (b :: rest) := by
        rw [tlLength, if_neg hlong]
        simp [ofLe]
      rw [hsize] at hdata hpad ⊢
      refine reads_shortTL hb (hval.trans hdata.symm) ?_
      rw [hpad, hdata, tlPaddingSize, hsize, Nat.add_comm]

end

theorem readTLBytes_tlComplete {content : Bytes} {position : Nat} (hcont : content.length < addressSpace)
    (h : tlLength (content.drop position) < 2 ^ 23) (hcompl : TLComplete (content.drop position)) :
    readTLBytes.run ⟨content, position⟩ =
      .ok (((content.drop position).drop (tlPrefixSize (content.drop position))).take (tlLength (content.drop position)),
        ⟨content, position + tlSize (content.drop position)⟩) := by
  set is := content.drop position with his
  have hsize : 1 ≤ tlSize is := by
    unfold tlSize tlPrefixSize
    split <;> omega
  have hlen : is.length = content.length - position := length_drop
  unfold TLComplete at hcompl
  have hbefore : (content.take position).length = position := length_take_of_le (by omega)
  have htaken : (is.take (tlSize is)).length = tlSize is := length_take_of_le hcompl
  have hrun := reads_tlComplete h hcompl (content.take position) (is.drop (tlSize is)) (by omega)
  rw [take_append_drop, his, take_append_drop, ← his, hbefore, htaken] at hrun
  exact hrun

/-! ## Truncation -/

/-- **A cut is reported exactly where it is one of the data**, for lengths below `2^23`. -/
theorem reportsTruncation_iff (content : Bytes) (position : Nat) (hcontent : content.length < addressSpace) :
    (ReportsTruncation streamReadBytes readTLBytes content position ∧
        ReportsTruncation streamReadString readTLString content position) ↔
      CutReported (content.drop position) := by
  set is := content.drop position with his
  by_cases hlong : tlLength is < 2 ^ 23
  · by_cases hcomplete : TLComplete is
    · have hdata : ¬is.length - tlPrefixSize is < tlLength is := by
        have hle : tlSize is ≤ is.length := hcomplete
        unfold tlSize at hle
        omega
      have hrun := readTLBytes_tlComplete hcontent hlong hcomplete
      refine ⟨fun _ => ⟨hlong, Or.inr hcomplete⟩, fun _ => ⟨?_, ?_⟩⟩
      · rw [ReportsTruncation, ← his, if_pos hcomplete, streamReadBytes_eq hlong, if_neg hdata]
        exact ⟨_, rfl, hrun⟩
      · rw [ReportsTruncation, ← his, if_pos hcomplete, streamReadString_eq hlong, if_neg hdata]
        exact ⟨_, rfl, run_bind_of_ok _ hrun⟩
    · rw [ReportsTruncation, ReportsTruncation, ← his, if_neg hcomplete, if_neg hcomplete, streamReadBytes_eq hlong,
        streamReadString_eq hlong]
      by_cases hdata : is.length - tlPrefixSize is < tlLength is
      · rw [if_pos hdata, if_pos hdata]
        exact ⟨fun _ => ⟨hlong, Or.inl hdata⟩, fun _ => ⟨rfl, rfl⟩⟩
      · simp [CutReported, hcomplete, hdata]
  · refine ⟨fun h => ?_, fun h => absurd h.1 hlong⟩
    have hlength : 2 ^ 23 ≤ tlLength is := by omega
    obtain ⟨length, paddingBytes, hprefix, hneg⟩ := streamReadLength_neg hlength
    rw [ReportsTruncation, ReportsTruncation, ← his] at h
    by_cases hcomplete : TLComplete is
    · -- the data is there, and it is read into `NULL`
      have hrest : is.drop 4 ≠ [] := by
        intro hnil
        have hle : tlSize is ≤ is.length := hcomplete
        have hshort : is.length ≤ 4 := drop_eq_nil_iff.mp hnil
        unfold tlSize at hle
        omega
      rw [if_pos hcomplete, streamReadBytes, hprefix] at h
      dsimp only at h
      rw [if_pos hneg, if_neg hrest] at h
      obtain ⟨⟨value, hvalue, -⟩, -⟩ := h
      cases hvalue
    · rw [if_neg hcomplete, if_neg hcomplete, streamReadString, hprefix] at h
      dsimp only at h
      rw [if_neg (by omega)] at h
      cases h.2

theorem reportsTruncation_iff_cut :
    (ReportsTruncation streamReadBytes readTLBytes [7, 3, 1, 2] 1 ∧
        ReportsTruncation streamReadString readTLString [7, 3, 1, 2] 1) ↔
      CutReported [3, 1, 2] :=
  reportsTruncation_iff [7, 3, 1, 2] 1 (by decide)

/-- At its end a stream returns an empty byte string. -/
theorem end_not_reported :
    ¬TLComplete [] ∧ streamReadBytes [] = .ok ([], []) ∧ streamReadString [] = .ok (some "", []) ∧
      ¬(ReportsTruncation streamReadBytes readTLBytes [] 0 ∧ ReportsTruncation streamReadString readTLString [] 0) := by
  have hbytes : streamReadBytes [] = .ok ([], []) := by decide
  refine ⟨by decide, hbytes, rfl, fun h => ?_⟩
  have hread : streamReadBytes [] = .error .failed := h.1
  rw [hbytes] at hread
  cases hread

end TelegramClient.MtProto
