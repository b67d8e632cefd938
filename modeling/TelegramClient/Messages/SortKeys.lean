import Mathlib.Data.List.GetD
import TelegramClient.Database.ChannelHoles
import TelegramClient.Lib.ByteOrder

/-!
# Sort keys of messages

A key is a string of 17 bytes: the peer as it lies in memory, the space, and the time and the id with the most significant
byte first. In a transparent key the space comes last. Keys are compared with `memcmp`, by the code and by the database.

* `messageSortKeyCompare`, `messageSortKeyLowerBound`, `messageSortKeyUpperBound` and the accessors : `TGMessageSortKey`;
* `sortKeys_order` : **keys are ordered as messages are, and a range has the keys of its peer**.
-/

namespace TelegramClient.Messages
open List
open Database
open Int32 (maxValue toInt_inj)

/-! ## `TGMessageSortKey` -/

def messageSortKeyCompare (lhs rhs : Bytes) : Int := memcmp lhs rhs

def messageSortKeyLowerBound (peerId : Int64) (space : UInt8) : Bytes := messageSortKeyMake peerId space 0 0

def messageSortKeyUpperBound (peerId : Int64) (space : UInt8) : Bytes :=
  messageSortKeyMake peerId space maxValue maxValue

/-- The integer of which `NSSwapInt` lies at `offset`. -/
def swappedIntAt (key : Bytes) (offset : Nat) : Int32 := Int32.ofBitVec (ofLeBits 32 (slice key offset 4).reverse)

def messageSortKeyPeerId (key : Bytes) : Int64 := Int64.ofBitVec (ofLeBits 64 (slice key 0 8))

def messageSortKeySpace (key : Bytes) : UInt8 := key.getD 8 0

def messageSortKeyTimestamp (key : Bytes) : Int32 := swappedIntAt key (8 + 1)

def messageSortKeyMid (key : Bytes) : Int32 := swappedIntAt key (8 + 1 + 4)

/-! ## `TGMessageTransparentSortKey` -/

def messageTransparentSortKeyCompare (lhs rhs : Bytes) : Int := memcmp lhs rhs

def messageTransparentSortKeyLowerBound (peerId : Int64) : Bytes := messageTransparentSortKeyMake peerId 0 0 0

def messageTransparentSortKeyUpperBound (peerId : Int64) : Bytes :=
  messageTransparentSortKeyMake peerId maxValue maxValue 127

def messageTransparentSortKeyPeerId (key : Bytes) : Int64 := Int64.ofBitVec (ofLeBits 64 (slice key 0 8))

def messageTransparentSortKeySpace (key : Bytes) : UInt8 := key.getD (8 + 4 + 4) 0

def messageTransparentSortKeyTimestamp (key : Bytes) : Int32 := swappedIntAt key 8

def messageTransparentSortKeyMid (key : Bytes) : Int32 := swappedIntAt key (8 + 4)

/-- `transparentSortKey` of a message. -/
def transparentSortKey (sortKey : Bytes) : Bytes :=
  messageTransparentSortKeyMake (messageSortKeyPeerId sortKey) (messageSortKeyTimestamp sortKey)
    (messageSortKeyMid sortKey) (messageSortKeySpace sortKey)

def Between (compare : Bytes → Bytes → Int) (lower upper key : Bytes) : Prop := compare lower key ≤ 0 ∧ compare key upper ≤ 0

/-! ## The bytes of a key -/

variable (peerId : Int64) (x : Int32)

@[simp] theorem length_swapInt : (swapInt x).length = 4 := by
  rw [swapInt, length_reverse, length_leBits]

variable (timestamp : Int32) (space : UInt8)

@[simp] theorem length_messageSortKeyMake (timestamp mid : Int32) :
    (messageSortKeyMake peerId space timestamp mid).length = 17 := by
  simp [messageSortKeyMake]

variable (mid : Int32)

@[simp] theorem length_messageTransparentSortKeyMake (space : UInt8) :
    (messageTransparentSortKeyMake peerId timestamp mid space).length = 17 := by
  simp [messageTransparentSortKeyMake]

theorem ofBe_swapInt : ofBe (swapInt x) = x.toBitVec.toNat := by
  have h := ofBe_beBytes 4 x.toBitVec.toNat
  rwa [Nat.mod_eq_of_lt (show _ < 256 ^ 4 from x.toBitVec.isLt)] at h

theorem swappedIntAt_append {pre : Bytes} (rest : Bytes) {offset : Nat} (h : pre.length = offset) :
    swappedIntAt (pre ++ swapInt x ++ rest) offset = x := by
  have hslice := slice_append_middle pre (swapInt x) rest
  rw [length_swapInt, h] at hslice
  rw [swappedIntAt, hslice, swapInt, reverse_reverse, ofLeBits_leBits (by decide), Int32.ofBitVec_toBitVec]

theorem peerIdAt_append (rest : Bytes) :
    Int64.ofBitVec (ofLeBits 64 (slice (leBits peerId.toBitVec ++ rest) 0 8)) = peerId := by
  have h := ofLeBits_slice (by decide) [] peerId.toBitVec rest
  rw [nil_append] at h
  exact congrArg Int64.ofBitVec h

/-- The number that the bytes of a peer are in front of a key. -/
def peerNumber (peerId : Int64) : Nat := ofBe (leBits peerId.toBitVec)

theorem peerNumber_inj {peerId peerId' : Int64} (h : peerNumber peerId = peerNumber peerId') : peerId = peerId' := by
  have hbs := ofBe_inj (by rw [length_leBits, length_leBits]) h
  have hread := peerIdAt_append peerId []
  rw [← hread, hbs, peerIdAt_append]

theorem messageSortKey_accessors (timestamp mid : Int32) :
    messageSortKeyPeerId (messageSortKeyMake peerId space timestamp mid) = peerId ∧
      messageSortKeySpace (messageSortKeyMake peerId space timestamp mid) = space ∧
      messageSortKeyTimestamp (messageSortKeyMake peerId space timestamp mid) = timestamp ∧
      messageSortKeyMid (messageSortKeyMake peerId space timestamp mid) = mid := by
  unfold messageSortKeyMake
  refine ⟨?_, ?_, ?_, ?_⟩
  · rw [append_assoc, append_assoc]
    exact peerIdAt_append peerId _
  · rw [messageSortKeySpace, append_assoc, append_assoc, getD_append_right _ _ _ _ (by rw [length_leBits]),
      length_leBits]
    rfl
  · exact swappedIntAt_append timestamp _ (by simp)
  · have hlen : (leBits peerId.toBitVec ++ [space] ++ swapInt timestamp).length = 13 := by simp
    have h := swappedIntAt_append mid [] hlen
    rwa [append_nil] at h

theorem messageTransparentSortKey_accessors (space : UInt8) :
    messageTransparentSortKeyPeerId (messageTransparentSortKeyMake peerId timestamp mid space) = peerId ∧
      messageTransparentSortKeyTimestamp (messageTransparentSortKeyMake peerId timestamp mid space) = timestamp ∧
      messageTransparentSortKeyMid (messageTransparentSortKeyMake peerId timestamp mid space) = mid ∧
      messageTransparentSortKeySpace (messageTransparentSortKeyMake peerId timestamp mid space) = space := by
  unfold messageTransparentSortKeyMake
  refine ⟨?_, ?_, ?_, ?_⟩
  · rw [append_assoc, append_assoc]
    exact peerIdAt_append peerId _
  · rw [append_assoc]
    exact swappedIntAt_append timestamp _ (by simp)
  · exact swappedIntAt_append mid _ (by simp)
  · rw [messageTransparentSortKeySpace, getD_append_right _ _ _ _ (by simp)]
    simp

/-! ## The order -/

theorem toNat_of_nonneg {x : Int32} (h : 0 ≤ x.toInt) : (x.toBitVec.toNat : Int) = x.toInt := by
  rw [← Int32.toInt_toBitVec] at h ⊢
  rw [BitVec.toInt_eq_toNat_cond] at h ⊢
  split_ifs at h ⊢ with hlt
  · rfl
  · have := x.toBitVec.isLt
    omega

theorem compare_toNat {x y : Int32} (hx : 0 ≤ x.toInt) (hy : 0 ≤ y.toInt) :
    compare x.toBitVec.toNat y.toBitVec.toNat = compare x.toInt y.toInt := by
  rw [← toNat_of_nonneg hx, ← toNat_of_nonneg hy, Nat.compare_eq_ite_lt, Int.compare_eq_ite_lt]
  simp only [Nat.cast_lt]

theorem ofBe_messageSortKeyMake (timestamp mid : Int32) : ofBe (messageSortKeyMake peerId space timestamp mid) =
      ((peerNumber peerId * 2 ^ 8 + space.toNat) * 2 ^ 32 + timestamp.toBitVec.toNat) * 2 ^ 32 + mid.toBitVec.toNat := by
  rw [messageSortKeyMake, ofBe_append, ofBe_append, ofBe_append, ofBe_swapInt, ofBe_swapInt, length_swapInt, length_swapInt]
  rfl

theorem ofBe_messageTransparentSortKeyMake (space : UInt8) :
    ofBe (messageTransparentSortKeyMake peerId timestamp mid space) =
      ((peerNumber peerId * 2 ^ 32 + timestamp.toBitVec.toNat) * 2 ^ 32 + mid.toBitVec.toNat) * 2 ^ 8 + space.toNat := by
  rw [messageTransparentSortKeyMake, ofBe_append, ofBe_append, ofBe_append, ofBe_swapInt, ofBe_swapInt, length_swapInt,
    length_swapInt]
  rfl

section
variable {space space' : UInt8} {timestamp timestamp' mid mid' : Int32}

variable (peerId : Int64)

theorem messageSortKeyCompare_make (hts : 0 ≤ timestamp.toInt) (htimestamp' : 0 ≤ timestamp'.toInt)
    (hmid : 0 ≤ mid.toInt) (hmid' : 0 ≤ mid'.toInt) :
    compare (messageSortKeyCompare (messageSortKeyMake peerId space timestamp mid)
        (messageSortKeyMake peerId space' timestamp' mid')) 0 =
      compare (toLex (space.toNat, toLex (timestamp.toInt, mid.toInt)))
        (toLex (space'.toNat, toLex (timestamp'.toInt, mid'.toInt))) := by
  rw [messageSortKeyCompare, compare_memcmp (by simp), ofBe_messageSortKeyMake, ofBe_messageSortKeyMake,
    compare_mul_add _ _ mid.toBitVec.isLt mid'.toBitVec.isLt,
    compare_mul_add _ _ timestamp.toBitVec.isLt timestamp'.toBitVec.isLt,
    compare_mul_add _ _ space.toNat_lt space'.toNat_lt, Nat.compare_eq_eq.mpr rfl, compare_toNat hts htimestamp',
    compare_toNat hmid hmid']
  show ((compare space.toNat space'.toNat).then (compare timestamp.toInt timestamp'.toInt)).then _ = _
  rw [Ordering.then_assoc]
  rfl

theorem messageTransparentSortKeyCompare_make (hts : 0 ≤ timestamp.toInt) (htimestamp' : 0 ≤ timestamp'.toInt)
    (hmid : 0 ≤ mid.toInt) (hmid' : 0 ≤ mid'.toInt) :
    compare (messageTransparentSortKeyCompare (messageTransparentSortKeyMake peerId timestamp mid space)
        (messageTransparentSortKeyMake peerId timestamp' mid' space')) 0 =
      compare (toLex (timestamp.toInt, toLex (mid.toInt, space.toNat)))
        (toLex (timestamp'.toInt, toLex (mid'.toInt, space'.toNat))) := by
  rw [messageTransparentSortKeyCompare, compare_memcmp (by simp), ofBe_messageTransparentSortKeyMake,
    ofBe_messageTransparentSortKeyMake, compare_mul_add _ _ space.toNat_lt space'.toNat_lt,
    compare_mul_add _ _ mid.toBitVec.isLt mid'.toBitVec.isLt,
    compare_mul_add _ _ timestamp.toBitVec.isLt timestamp'.toBitVec.isLt, Nat.compare_eq_eq.mpr rfl,
    compare_toNat hts htimestamp', compare_toNat hmid hmid']
  show ((compare timestamp.toInt timestamp'.toInt).then (compare mid.toInt mid'.toInt)).then _ = _
  rw [Ordering.then_assoc]
  rfl

/-! ## The bounds -/

theorem between_messageSortKey (peerId' : Int64) (space' : UInt8) (hts : 0 ≤ timestamp.toInt) (hmid : 0 ≤ mid.toInt) :
    Between messageSortKeyCompare (messageSortKeyLowerBound peerId' space') (messageSortKeyUpperBound peerId' space')
        (messageSortKeyMake peerId space timestamp mid) ↔ peerId = peerId' ∧ space = space' := by
  have htime := toNat_of_nonneg hts
  have hid := toNat_of_nonneg hmid
  have htimestamp_lt := timestamp.toInt_lt
  have hmid_lt := mid.toInt_lt
  have hspace := space.toNat_lt
  have hspace' := space'.toNat_lt
  have hzero : (0 : Int32).toBitVec.toNat = 0 := rfl
  have hmax : maxValue.toBitVec.toNat = 2 ^ 31 - 1 := rfl
  unfold Between messageSortKeyCompare messageSortKeyLowerBound messageSortKeyUpperBound
  rw [memcmp_nonpos (by simp), memcmp_nonpos (by simp), ofBe_messageSortKeyMake, ofBe_messageSortKeyMake,
    ofBe_messageSortKeyMake, hzero, hmax]
  constructor
  · intro ⟨hlower, hupper⟩
    exact ⟨peerNumber_inj (by omega), UInt8.toNat_inj.mp (by omega)⟩
  · rintro ⟨rfl, rfl⟩
    omega

/-- A range of transparent keys has the keys of its peer, but for those that differ from the last one in the space and have
a space above it. -/
theorem between_messageTransparentSortKey (peerId' : Int64) (hts : 0 ≤ timestamp.toInt) (hmid : 0 ≤ mid.toInt) :
    Between messageTransparentSortKeyCompare (messageTransparentSortKeyLowerBound peerId')
        (messageTransparentSortKeyUpperBound peerId') (messageTransparentSortKeyMake peerId timestamp mid space) ↔
      peerId = peerId' ∧ ¬(timestamp = maxValue ∧ mid = maxValue ∧ messageSpaceHole < space) := by
  have htime := toNat_of_nonneg hts
  have hid := toNat_of_nonneg hmid
  have htimestamp_lt := timestamp.toInt_lt
  have hmid_lt := mid.toInt_lt
  have hspace := space.toNat_lt
  have hzero : (0 : Int32).toBitVec.toNat = 0 := rfl
  have hmax : maxValue.toBitVec.toNat = 2 ^ 31 - 1 := rfl
  unfold Between messageTransparentSortKeyCompare messageTransparentSortKeyLowerBound messageTransparentSortKeyUpperBound
  rw [memcmp_nonpos (by simp), memcmp_nonpos (by simp), ofBe_messageTransparentSortKeyMake,
    ofBe_messageTransparentSortKeyMake, ofBe_messageTransparentSortKeyMake, hzero, hmax,
    show timestamp = maxValue ↔ timestamp.toInt = 2 ^ 31 - 1 from toInt_inj.symm,
    show mid = maxValue ↔ mid.toInt = 2 ^ 31 - 1 from toInt_inj.symm,
    show messageSpaceHole < space ↔ 127 < space.toNat from Iff.rfl, show (127 : UInt8).toNat = 127 from rfl,
    show (0 : UInt8).toNat = 0 from rfl]
  constructor
  · intro ⟨hlower, hupper⟩
    exact ⟨peerNumber_inj (by omega), by omega⟩
  · rintro ⟨rfl, hlast⟩
    omega

/-- **Keys are ordered as messages are**, have the components they were made of, and are between the bounds of their peer
and of no other, but for a transparent key with the last time and the last id of all, whose space is above that of holes. -/
theorem sortKeys_order (peerId peerId' : Int64) (htimestamp : 0 ≤ timestamp.toInt) (htimestamp' : 0 ≤ timestamp'.toInt)
    (hmid : 0 ≤ mid.toInt) (hmid' : 0 ≤ mid'.toInt) :
    (compare (messageSortKeyCompare (messageSortKeyMake peerId space timestamp mid)
          (messageSortKeyMake peerId space' timestamp' mid')) 0 =
        compare (toLex (space.toNat, toLex (timestamp.toInt, mid.toInt)))
          (toLex (space'.toNat, toLex (timestamp'.toInt, mid'.toInt))) ∧
      compare (messageTransparentSortKeyCompare (messageTransparentSortKeyMake peerId timestamp mid space)
          (messageTransparentSortKeyMake peerId timestamp' mid' space')) 0 =
        compare (toLex (timestamp.toInt, toLex (mid.toInt, space.toNat)))
          (toLex (timestamp'.toInt, toLex (mid'.toInt, space'.toNat)))) ∧
    (messageSortKeyPeerId (messageSortKeyMake peerId space timestamp mid) = peerId ∧
      messageSortKeySpace (messageSortKeyMake peerId space timestamp mid) = space ∧
      messageSortKeyTimestamp (messageSortKeyMake peerId space timestamp mid) = timestamp ∧
      messageSortKeyMid (messageSortKeyMake peerId space timestamp mid) = mid) ∧
    (messageTransparentSortKeyPeerId (messageTransparentSortKeyMake peerId timestamp mid space) = peerId ∧
      messageTransparentSortKeyTimestamp (messageTransparentSortKeyMake peerId timestamp mid space) = timestamp ∧
      messageTransparentSortKeyMid (messageTransparentSortKeyMake peerId timestamp mid space) = mid ∧
      messageTransparentSortKeySpace (messageTransparentSortKeyMake peerId timestamp mid space) = space) ∧
    (Between messageSortKeyCompare (messageSortKeyLowerBound peerId' space') (messageSortKeyUpperBound peerId' space')
        (messageSortKeyMake peerId space timestamp mid) ↔ peerId = peerId' ∧ space = space') ∧
    (Between messageTransparentSortKeyCompare (messageTransparentSortKeyLowerBound peerId')
        (messageTransparentSortKeyUpperBound peerId') (messageTransparentSortKeyMake peerId timestamp mid space) ↔
      peerId = peerId' ∧ ¬(timestamp = maxValue ∧ mid = maxValue ∧ messageSpaceHole < space)) ∧
    transparentSortKey (messageSortKeyMake peerId space timestamp mid) =
      messageTransparentSortKeyMake peerId timestamp mid space := by
  have haccessors := messageSortKey_accessors peerId space timestamp mid
  refine ⟨⟨messageSortKeyCompare_make peerId htimestamp htimestamp' hmid hmid',
    messageTransparentSortKeyCompare_make peerId htimestamp htimestamp' hmid hmid'⟩, haccessors,
    messageTransparentSortKey_accessors peerId timestamp mid space, between_messageSortKey peerId peerId' space' htimestamp hmid,
    between_messageTransparentSortKey peerId peerId' htimestamp hmid, ?_⟩
  obtain ⟨hpeer, hspace, htime, hid⟩ := haccessors
  rw [transparentSortKey, hpeer, hspace, htime, hid]

/-- Two messages of one peer. -/
theorem sortKeys_order_two :
    transparentSortKey (messageSortKeyMake 5 1 300 7) = messageTransparentSortKeyMake 5 300 7 1 :=
  (@sortKeys_order 1 0 300 300 7 300 5 (-1) (by decide) (by decide) (by decide) (by decide)).2.2.2.2.2

/-- A key that is above the upper bound of its peer. -/
theorem last_transparentKey_above :
    ¬Between messageTransparentSortKeyCompare (messageTransparentSortKeyLowerBound 5) (messageTransparentSortKeyUpperBound 5)
      (messageTransparentSortKeyMake 5 maxValue maxValue 128) := by
  unfold Between
  decide

end

end TelegramClient.Messages
