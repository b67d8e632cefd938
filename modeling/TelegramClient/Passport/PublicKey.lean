import TelegramClient.Lib.Cursor
import TelegramClient.Messages.TextScanner

/-!
# The public key of a service

* `addPublicKey`, `stripPublicKeyHeader` : the two functions, which may end in a fault;
* `IsElement` : a tag, a length in DER and the content; `IsIntegerSequence`, `IsRsaPublicKey` : the two formats;
* `addPublicKey_outside_iff`, `exactFormat_iff` : when the functions do what they are for.
-/

namespace TelegramClient.Passport
open List

open Messages

inductive KeyFault
  | outsideData
  | negativeLength
deriving DecidableEq

/-! ## The two functions -/

/-- `c_key[idx]`. -/
def byteAt (d_key : Bytes) (idx : Nat) : Except KeyFault UInt8 :=
  match d_key[idx]? with
  | some byte => .ok byte
  | none => .error .outsideData

/-- How far `idx` is moved by the first byte of a length. -/
def skipped (byte : UInt8) : Nat := if byte.toNat > 0x80 then byte.toNat - 0x80 + 1 else 1

/-- PKCS #1 rsaEncryption szOID_RSA_RSA. -/
def seqiod : Bytes := [0x30, 0x0d, 0x06, 0x09, 0x2a, 0x86, 0x48, 0x86, 0xf7, 0x0d, 0x01, 0x01, 0x01, 0x05, 0x00]

/-- `memcmp(&c_key[idx], seqiod, 15)`. -/
def memcmpSeqiod (d_key : Bytes) (idx : Nat) : Except KeyFault Bool :=
  if idx + 15 ≤ d_key.length then .ok (slice d_key idx 15 ≠ seqiod) else .error .outsideData

def stripPublicKeyHeader (d_key : Bytes) : Except KeyFault (Option Bytes) := do
  if d_key.length = 0 then return none
  if (← byteAt d_key 0) ≠ 0x30 then return none
  let idx := 1 + skipped (← byteAt d_key 1)
  if (← byteAt d_key idx) = 0x02 then return some d_key
  if ← memcmpSeqiod d_key idx then return none
  if (← byteAt d_key (idx + 15)) ≠ 0x03 then return none
  let idx := idx + 16 + skipped (← byteAt d_key (idx + 16))
  if (← byteAt d_key idx) ≠ 0 then return none
  if d_key.length < idx + 1 then throw .negativeLength
  return some (d_key.drop (idx + 1))

/-- `rangeOfString:`, which finds a range of the string. -/
structure StringSearch where
  rangeOfString : NSString → NSString → Option NSRange
  inside : ∀ {text pattern range}, rangeOfString text pattern = some range → range.location + range.length ≤ text.length

def beginMarker : NSString := "-----BEGIN PUBLIC KEY-----".toList.map unichar

def endMarker : NSString := "-----END PUBLIC KEY-----".toList.map unichar

/-- The key between the markers, or an exception. `e - s` is an `NSUInteger`. -/
def keyBetweenMarkers (search : StringSearch) (key : NSString) : Option NSString :=
  match search.rangeOfString key beginMarker, search.rangeOfString key endMarker with
  | some spos, some epos =>
    let s := spos.location + spos.length
    let range : NSRange := ⟨s, (epos.location + addressSpace - s) % addressSpace⟩
    if range.location + range.length ≤ key.length then some (key.substringWithRange range) else none
  | _, _ => some key

/-- `addPublicKey:` up to the data that is put into the keychain. `decode` is the Base64 decoder. -/
def addPublicKey (search : StringSearch) (decode : NSString → Option Bytes) (key : NSString) :
    Option (Except KeyFault (Option Bytes)) :=
  (keyBetweenMarkers search key).map fun key =>
    match decode (key.filter fun c => c ∉ ['\r', '\n', '\t', ' '].map unichar) with
    | none => .ok none
    | some data => stripPublicKeyHeader data

/-! ## The format -/

/-- The bytes of a length in DER: one byte below 128, or the number of the bytes that follow, of which there are no more
than needed. -/
def IsDerLength (octets : Bytes) (n : Nat) : Prop :=
  match octets with
  | [] => False
  | byte :: rest =>
    byte.toNat < 0x80 ∧ rest = [] ∧ byte.toNat = n ∨
      byte.toNat = 0x80 + rest.length ∧ rest.length < 127 ∧ rest.head? ≠ some 0 ∧ ofBe rest = n ∧ 128 ≤ n

def IsElement (tag : UInt8) (content d : Bytes) : Prop :=
  ∃ octets, IsDerLength octets content.length ∧ d = tag :: octets ++ content

/-- A sequence that starts with an integer. -/
def IsIntegerSequence (d : Bytes) : Prop :=
  ∃ value integer rest, value ≠ [] ∧ IsElement 0x02 value integer ∧ IsElement 0x30 (integer ++ rest) d

/-- The algorithm, and a bit string without unused bits, which is the key. -/
def IsRsaPublicKey (key d : Bytes) : Prop :=
  ∃ bits, IsElement 0x03 (0 :: key) bits ∧ IsElement 0x30 (seqiod ++ bits) d

def Meets (d : Bytes) (p : Except KeyFault (Option Bytes)) : Prop :=
  ∃ result, p = .ok result ∧ ∀ key, result = some key ↔ key = d ∧ IsIntegerSequence d ∨ IsRsaPublicKey key d

/-- **Exactness**: no fault, and a result exactly for data in one of the two formats. -/
def ExactFormat (d : Bytes) : Prop := Meets d (stripPublicKeyHeader d)

/-- Every position that the bytes of the header lead to is in the data, and what is taken for one of the two formats is
in this format, with its lengths. -/
def LaidOut (d : Bytes) : Prop :=
  d[0]? = some 0x30 → ∃ byte, d[1]? = some byte ∧ ∃ tag, d[1 + skipped byte]? = some tag ∧
    if tag = 0x02 then IsIntegerSequence d
    else 1 + skipped byte + 15 ≤ d.length ∧ (slice d (1 + skipped byte) 15 = seqiod →
      ∃ tag', d[1 + skipped byte + 15]? = some tag' ∧ (tag' = 0x03 →
        ∃ byte', d[1 + skipped byte + 16]? = some byte' ∧
          ∃ unused, d[1 + skipped byte + 16 + skipped byte']? = some unused ∧
            (unused = 0 → IsRsaPublicKey (d.drop (1 + skipped byte + 16 + skipped byte' + 1)) d)))

variable {tag : UInt8} {content d key : Bytes}

theorem length_octets {byte : UInt8} {octets : Bytes} {n : Nat} (h : IsDerLength (byte :: octets) n) :
    octets.length + 1 = skipped byte := by
  unfold skipped
  rcases h with ⟨hlt, rfl, -⟩ | ⟨hbyte, -, -, hval, hle⟩
  · rw [if_neg hlt.le.not_gt]
    rfl
  · have hpos : 0 < octets.length := by
      rw [length_pos_iff]
      rintro rfl
      rw [← hval] at hle
      exact absurd hle (by decide)
    rw [if_pos (by omega)]
    omega

theorem IsElement.head (h : IsElement tag content d) : d[0]? = some tag := by
  obtain ⟨octets, -, rfl⟩ := h
  rfl

variable {byte : UInt8}

theorem IsElement.drop (h : IsElement tag content d) (h1 : d[1]? = some byte) :
    d.drop (1 + skipped byte) = content := by
  obtain ⟨octets, hlen, rfl⟩ := h
  cases octets with
  | nil => exact hlen.elim
  | cons first octets =>
    cases h1
    rw [← length_octets hlen, Nat.add_comm 1, cons_append, drop_succ_cons, cons_append,
      drop_succ_cons, drop_left]

theorem IsIntegerSequence.head (h : IsIntegerSequence d) : d[0]? = some 0x30 := by
  obtain ⟨value, integer, rest, -, -, hd⟩ := h
  exact hd.head

theorem IsIntegerSequence.fields (h : IsIntegerSequence d) (h1 : d[1]? = some byte) :
    d[1 + skipped byte]? = some 0x02 := by
  obtain ⟨value, integer, rest, -, hinteger, hd⟩ := h
  rw [← Nat.add_zero (1 + skipped byte), ← getElem?_drop, hd.drop h1]
  obtain ⟨octets, -, rfl⟩ := hinteger
  rfl

theorem IsRsaPublicKey.head (h : IsRsaPublicKey key d) : d[0]? = some 0x30 := by
  obtain ⟨bits, -, hd⟩ := h
  exact hd.head

theorem IsRsaPublicKey.fields (h : IsRsaPublicKey key d) (h1 : d[1]? = some byte) :
    d[1 + skipped byte]? = some 0x30 ∧ slice d (1 + skipped byte) 15 = seqiod ∧
      d[1 + skipped byte + 15]? = some 0x03 ∧ ∀ byte', d[1 + skipped byte + 16]? = some byte' →
        d.drop (1 + skipped byte + 16 + skipped byte') = 0 :: key := by
  obtain ⟨bits, hbits, hd⟩ := h
  have hdrop := hd.drop h1
  have hat : ∀ i, d[1 + skipped byte + (15 + i)]? = bits[i]? := fun i => by
    rw [← getElem?_drop, hdrop, getElem?_append_right (by simp [seqiod])]
    simp [seqiod]
  refine ⟨?_, ?_, (hat 0).trans hbits.head, fun byte' hbyte' => ?_⟩
  · rw [← Nat.add_zero (1 + skipped byte), ← getElem?_drop, hdrop]
    rfl
  · rw [slice, hdrop]
    rfl
  · rw [show 1 + skipped byte + 16 + skipped byte' = 1 + skipped byte + (15 + (1 + skipped byte')) by omega,
      ← drop_drop, hdrop, ← drop_drop, drop_left' (by rfl), hbits.drop ((hat 1).symm.trans hbyte')]

theorem meets_byteAt {i : Nat} {f : UInt8 → Except KeyFault (Option Bytes)} :
    Meets d (byteAt d i >>= f) ↔ ∃ byte, d[i]? = some byte ∧ Meets d (f byte) := by
  unfold byteAt
  cases d[i]? with
  | none => simp [Meets, bind, Except.bind]
  | some byte => simp [bind, Except.bind]

theorem meets_memcmp {i : Nat} {f : Bool → Except KeyFault (Option Bytes)} :
    Meets d (memcmpSeqiod d i >>= f) ↔ i + 15 ≤ d.length ∧ Meets d (f (slice d i 15 ≠ seqiod)) := by
  unfold memcmpSeqiod
  split
  · next h => simp [h, bind, Except.bind]
  · next h => simp [h, Meets, bind, Except.bind]

theorem meets_ite {c : Prop} [Decidable c] {p q : Except KeyFault (Option Bytes)} :
    Meets d (if c then p else q) ↔ (c → Meets d p) ∧ (¬ c → Meets d q) := by
  split
  · next h => simp [h]
  · next h => simp [h]

theorem meets_none (hinteger : ¬ IsIntegerSequence d) (hrsa : ∀ key, ¬ IsRsaPublicKey key d) : Meets d (pure none) :=
  ⟨none, rfl, fun key => ⟨nofun, fun h => h.elim (fun h => absurd h.2 hinteger) fun h => absurd h (hrsa key)⟩⟩

theorem meets_some {result : Bytes} :
    Meets d (pure (some result)) ↔ ∀ key, result = key ↔ key = d ∧ IsIntegerSequence d ∨ IsRsaPublicKey key d := by
  constructor
  · rintro ⟨result', hres, hexact⟩
    cases hres
    simpa using hexact
  · intro h
    exact ⟨_, rfl, by simpa using h⟩

/-- **The parser** is exact when the bytes of the header lead to positions in the data, and the lengths are right. -/
theorem exactFormat_iff (d : Bytes) : ExactFormat d ↔ LaidOut d := by
  unfold ExactFormat LaidOut stripPublicKeyHeader
  simp only [meets_ite, meets_byteAt, meets_memcmp, decide_eq_true_eq]
  by_cases h0 : d[0]? = some 0x30
  swap
  · have hnone : Meets d (pure none) := meets_none (fun h => h0 h.head) fun key h => h0 h.head
    refine iff_of_true ⟨fun _ => hnone, fun hlen => ?_⟩ fun h => absurd h h0
    have hpos : 0 < d.length := Nat.pos_of_ne_zero hlen
    have hbyte := getElem?_eq_getElem hpos
    exact ⟨d[0], hbyte, fun _ => hnone, fun h => absurd (hbyte.trans (congrArg some (not_not.mp h))) h0⟩
  have hlen : d.length ≠ 0 := fun h => by simp [length_eq_zero_iff.mp h] at h0
  simp only [h0, hlen, Option.some.injEq, exists_eq_left', ne_eq, not_true, false_imp_iff, true_and, not_false_eq_true,
    true_imp_iff]
  refine exists_congr fun byte => and_congr_right fun h1 => exists_congr fun tag => and_congr_right fun htag => ?_
  have hinteger (h : IsIntegerSequence d) : tag = 0x02 := Option.some.inj (htag.symm.trans (h.fields h1))
  by_cases h2 : tag = 0x02
  · -- The data is returned unchanged.
    subst h2
    have hnot (key : Bytes) : ¬ IsRsaPublicKey key d := fun h => by cases htag.symm.trans (h.fields h1).1
    simp only [true_imp_iff, not_true, false_imp_iff, and_true, meets_some, if_true, hnot, or_false]
    exact ⟨fun h => ((h d).mp rfl).2, fun h key => ⟨fun hkey => ⟨hkey.symm, h⟩, fun hkey => hkey.1.symm⟩⟩
  have hnone (hkey : ∀ key, ¬ IsRsaPublicKey key d) : Meets d (pure none) := meets_none (fun h => h2 (hinteger h)) hkey
  simp only [h2, false_imp_iff, true_and, not_false_eq_true, true_imp_iff, if_false]
  refine and_congr_right fun hle => ?_
  by_cases hoid : slice d (1 + skipped byte) 15 = seqiod
  swap
  · exact iff_of_true ⟨fun _ => hnone fun key h => hoid (h.fields h1).2.1, fun h => absurd h (not_not_intro hoid)⟩
      fun h => absurd h hoid
  simp only [hoid, not_true, false_imp_iff, true_and, not_false_eq_true, true_imp_iff]
  refine exists_congr fun tag' => and_congr_right fun htag' => ?_
  by_cases h3 : tag' = 0x03
  swap
  · refine iff_of_true ⟨fun _ => hnone fun key h => h3 ?_, fun h => absurd h (not_not_intro h3)⟩ fun h => absurd h h3
    exact Option.some.inj (htag'.symm.trans (h.fields h1).2.2.1)
  simp only [h3, not_true, false_imp_iff, true_and, not_false_eq_true, true_imp_iff]
  refine exists_congr fun byte' => and_congr_right fun hbyte' => exists_congr fun unused =>
    and_congr_right fun hunused => ?_
  have hlt := (List.getElem?_eq_some_iff.mp hunused).1
  by_cases hzero : unused = 0
  swap
  · refine iff_of_true ⟨fun _ => hnone fun key h => hzero ?_, fun h => absurd h (not_not_intro hzero)⟩
      fun h => absurd h hzero
    rw [← Nat.add_zero (1 + skipped byte + 16 + skipped byte'), ← getElem?_drop,
      (h.fields h1).2.2.2 byte' hbyte'] at hunused
    exact (Option.some.inj hunused).symm
  have hnot : ¬ IsIntegerSequence d := fun h => h2 (hinteger h)
  simp only [hzero, not_true, false_imp_iff, true_and, not_false_eq_true, true_imp_iff, Nat.not_lt.mpr hlt, meets_some,
    hnot, and_false, false_or]
  refine ⟨fun h => (h _).mp rfl, fun h key => ⟨fun heq => heq ▸ h, fun h' => ?_⟩⟩
  rw [← drop_drop, (h'.fields h1).2.2.2 byte' hbyte']
  rfl

/-- **Public keys**: the range between the markers is in the string exactly if the first begin marker does not end
behind the start of the first end marker, and the parser is exact for well laid out data. -/
theorem publicKey_safe_iff (search : StringSearch) (decode : NSString → Option Bytes) (key : NSString)
    (hlength : key.length < addressSpace) (d : Bytes) :
    (addPublicKey search decode key ≠ none ↔
      ∀ spos epos, search.rangeOfString key beginMarker = some spos →
        search.rangeOfString key endMarker = some epos → spos.location + spos.length ≤ epos.location) ∧
    (ExactFormat d ↔ LaidOut d) := by
  refine ⟨?_, exactFormat_iff d⟩
  rw [addPublicKey, ne_eq, Option.map_eq_none_iff, keyBetweenMarkers]
  split
  · next spos epos hs he =>
      have hspos := search.inside hs
      have hepos := search.inside he
      have hiff : spos.location + spos.length + (epos.location + addressSpace - (spos.location + spos.length)) %
          addressSpace ≤ key.length ↔ spos.location + spos.length ≤ epos.location := by
        rcases Nat.lt_or_ge epos.location (spos.location + spos.length) with hlt | hle
        · rw [Nat.mod_eq_of_lt (by omega)]
          omega
        · rw [show epos.location + addressSpace - (spos.location + spos.length) =
            epos.location - (spos.location + spos.length) + addressSpace by omega, Nat.add_mod_right,
            Nat.mod_eq_of_lt (by omega)]
          omega
      simp [hs, he, hiff]
  · next hnone =>
      simp only [reduceCtorEq, not_false_eq_true, true_iff]
      exact fun spos epos hs he => absurd he (hnone spos epos hs)

/-! ### A literal search -/

def literalSearch : StringSearch where
  rangeOfString text pattern :=
    ((List.range (text.length + 1)).find? fun i => pattern.isPrefixOf (text.drop i)).map (⟨·, pattern.length⟩)
  inside {text pattern range} h := by
    obtain ⟨i, hi, rfl⟩ := Option.map_eq_some_iff.mp h
    have hmem := mem_range.mp (mem_of_find?_eq_some hi)
    have hprefix : pattern.isPrefixOf (text.drop i) = true := by simpa using find?_some hi
    have hle := (List.isPrefixOf_iff_prefix.mp hprefix).length_le
    rw [length_drop] at hle
    dsimp only
    omega

theorem publicKey_safe_markers :
    addPublicKey literalSearch (fun _ => none) (beginMarker ++ [65] ++ endMarker) ≠ none :=
  (publicKey_safe_iff literalSearch (fun _ => none) (beginMarker ++ [65] ++ endMarker) (by decide) []).1.mpr (by
    intro spos epos hs he
    obtain rfl := Option.some.inj (hs.symm.trans (by decide +kernel : _ = some ⟨0, 26⟩))
    obtain rfl := Option.some.inj (he.symm.trans (by decide +kernel : _ = some ⟨27, 24⟩))
    decide)

theorem markers_swapped :
    addPublicKey literalSearch (fun _ => none) (endMarker ++ beginMarker) = none ∧ ¬ ExactFormat [0x30] :=
  ⟨by decide +kernel, fun ⟨_, h, _⟩ => nomatch h⟩

end TelegramClient.Passport
