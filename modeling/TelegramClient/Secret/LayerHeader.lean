import TelegramClient.Secret.MessageRoundTrip

/-!
# The header of a decrypted message, read twice

A message from layer 17 on is a `decryptedMessageLayer`: its constructor, `random_bytes`, the layer, two sequence
numbers and the message. The client reads the header twice: `decryptEncryptedMessageData:` scans the bytes for the
numbers that order the message, and the parser of the layer reads the object later.

* `parseBytes`, `parseInt`, `parseDecryptedMessageLayer` : the parsers, the same in every layer;
* `scannedHeader_iff` : exactly when the scan reports the header of the object.
-/

namespace TelegramClient.Secret
open List

open MtProto

/-! ## The parsers -/

/-- The parser of an `int`, `0xa8509bda`: the value and the offset behind it. -/
def parseInt (data : Bytes) (offset : Nat) : Option (BitVec 32 × Nat) :=
  if data.length < offset + 4 then none else some (ofLeBits 32 (slice data offset 4), offset + 4)

/-- The second half of the parser of a byte string. A length that is not positive gives `[NSData data]`. -/
def parseContents (data : Bytes) (offset : Nat) (length paddingBytes : Int) : Option (Bytes × Nat) :=
  if 0 < length then
    if data.length < offset + length.toNat then none
    else some (slice data offset length.toNat, offset + length.toNat + paddingBytes.toNat)
  else some ([], offset + paddingBytes.toNat)

/-- The parser of a byte string, `0xb5286e24`. -/
def parseBytes (data : Bytes) (offset : Nat) : Option (Bytes × Nat) :=
  if data.length < offset + 1 then none
  else
    let tmp := (data.getD offset 0).toNat
    if tmp = 254 then
      if data.length < offset + 1 + 3 then none
      else
        -- the three bytes go to the upper bytes of the `int32_t`, which is then shifted down
        let length := ((ofLeBits 32 (0 :: slice data (offset + 1) 3)).sshiftRight 8).toInt
        parseContents data (offset + 1 + 3) length (roundUp length 4 - length)
    else
      let length : Int := tmp
      parseContents data (offset + 1) length (roundUp (length + 1) 4 - (length + 1))

/-- The layer and the sequence numbers of a `decryptedMessageLayer`. -/
structure LayerFields where
  layer : BitVec 32
  inSeqNo : BitVec 32
  outSeqNo : BitVec 32
  deriving DecidableEq

/-- `parseObject:` of a `decryptedMessageLayer`, up to its message: `random_bytes`, the fields and the offset of the
message. -/
def parseDecryptedMessageLayer (data : Bytes) : Option (Bytes × LayerFields × Nat) :=
  if data.length < 4 then none
  else if ofLeBits 32 (slice data 0 4) = 0x1be31789 then do
    let (randomBytes, offset) ← parseBytes data 4
    let (layer, offset) ← parseInt data offset
    let (inSeqNo, offset) ← parseInt data offset
    let (outSeqNo, offset) ← parseInt data offset
    return (randomBytes, ⟨layer, inSeqNo, outSeqNo⟩, offset)
  else none

/-! ## The objects -/

/-- A `decryptedMessageLayer` that can be written. The message is any object, as its bytes. -/
structure DecryptedMessageLayer extends LayerFields where
  randomBytes : Bytes
  message : Bytes
  length_lt : randomBytes.length < 2 ^ 24

def LayerFields.serialize (fields : LayerFields) : Bytes :=
  leBits fields.layer ++ leBits fields.inSeqNo ++ leBits fields.outSeqNo

/-- What lies behind `random_bytes`. -/
def DecryptedMessageLayer.rest (object : DecryptedMessageLayer) : Bytes :=
  object.toLayerFields.serialize ++ object.message

def DecryptedMessageLayer.serialize (object : DecryptedMessageLayer) : Bytes :=
  leBits (0x1be31789 : BitVec 32) ++ (tlBytes object.randomBytes ++ object.rest)

/-- What the sequencing of messages uses of a header: the layer as an `NSUInteger` and half of each sequence number. -/
structure ReportedHeader where
  layer : Nat
  seqIn : Int
  seqOut : Int
  deriving DecidableEq

/-- An `int32_t` as an `NSUInteger`. -/
def unsignedLayer (layer : BitVec 32) : Nat := (layer.signExtend 64).toNat

def LayerFields.reported (fields : LayerFields) : ReportedHeader :=
  ⟨unsignedLayer fields.layer, fields.inSeqNo.toInt.tdiv 2, fields.outSeqNo.toInt.tdiv 2⟩

/-- What the scan makes of the fields that it reads: `layer = MAX(1U, layer)`. -/
def LayerFields.scanned (fields : LayerFields) : ReportedHeader :=
  { fields.reported with layer := max 1 (unsignedLayer fields.layer) }

/-- What `decryptEncryptedMessageData:` says. -/
def scannedHeader (content : Bytes) : ReportedHeader :=
  let header := readLayerHeader content
  ⟨header.layer, header.seqIn.toInt.tdiv 2, header.seqOut.toInt.tdiv 2⟩

/-! ## Fields at an offset -/

def fieldsAt (bytes : Bytes) (offset : Nat) : LayerFields :=
  ⟨ofLeBits 32 (slice bytes offset 4), ofLeBits 32 (slice bytes (offset + 4) 4),
    ofLeBits 32 (slice bytes (offset + 8) 4)⟩

variable (object : DecryptedMessageLayer) (pre bytes : Bytes)

theorem slice_append_right (offset n : Nat) : slice (pre ++ bytes) (pre.length + offset) n = slice bytes offset n := by
  unfold slice
  rw [drop_length_add_append]

theorem fieldsAt_append (offset : Nat) : fieldsAt (pre ++ bytes) (pre.length + offset) = fieldsAt bytes offset := by
  simp only [fieldsAt, Nat.add_assoc, slice_append_right]

theorem length_serialize (fields : LayerFields) : fields.serialize.length = 12 := by
  simp [LayerFields.serialize]

theorem fieldsAt_serialize (fields : LayerFields) (message : Bytes) :
    fieldsAt (fields.serialize ++ message) 0 = fields := by
  obtain ⟨layer, inSeqNo, outSeqNo⟩ := fields
  have hlayer := ofLeBits_slice (by decide) [] layer (leBits inSeqNo ++ leBits outSeqNo ++ message)
  have hin := ofLeBits_slice (by decide) (leBits layer) inSeqNo (leBits outSeqNo ++ message)
  have hout := ofLeBits_slice (by decide) (leBits layer ++ leBits inSeqNo) outSeqNo message
  simp only [append_assoc, nil_append, length_append, length_nil, length_leBits] at hlayer hin hout
  simp only [fieldsAt, LayerFields.serialize, append_assoc]
  rw [hlayer, hin, hout]

theorem fieldsAt_rest : fieldsAt (pre ++ object.rest) pre.length = object.toLayerFields := by
  have h := fieldsAt_append pre object.rest 0
  rw [Nat.add_zero] at h
  rw [h]
  exact fieldsAt_serialize object.toLayerFields object.message

theorem length_rest : object.rest.length = 12 + object.message.length := by
  rw [DecryptedMessageLayer.rest, length_append, length_serialize]

/-! ## The parser reads what was written -/

variable (rest : Bytes)

theorem parseInt_append (value : BitVec 32) :
    parseInt (pre ++ (leBits value ++ rest)) pre.length = some (value, pre.length + 4) := by
  have hval : ofLeBits 32 (slice (pre ++ leBits value ++ rest) pre.length 4) = value :=
    ofLeBits_slice (by decide) pre value rest
  rw [append_assoc] at hval
  have hlen : (pre ++ (leBits value ++ rest)).length = pre.length + (4 + rest.length) := by
    simp only [length_append, length_leBits]
  rw [parseInt, if_neg (by omega), hval]

theorem parseContents_append (padding : Nat) : parseContents (pre ++ (bytes ++ rest)) pre.length bytes.length padding =
      some (bytes, pre.length + bytes.length + padding) := by
  unfold parseContents
  have hlen : (pre ++ (bytes ++ rest)).length = pre.length + (bytes.length + rest.length) := by
    simp only [length_append]
  split
  · have hslice := slice_append_middle pre bytes rest
    rw [append_assoc] at hslice
    rw [Int.toNat_natCast, Int.toNat_natCast, if_neg (by omega), hslice]
  · next h =>
    have hnil : bytes = [] := eq_nil_of_length_eq_zero (by omega)
    subst hnil
    rw [Int.toNat_natCast]
    rfl

theorem getD_append_cons (b : UInt8) : (pre ++ b :: rest).getD pre.length 0 = b := by
  rw [getD_eq_getElem?_getD, getElem?_append_right (le_refl _), Nat.sub_self]
  rfl

theorem toNat_ofNat_of_lt {n : Nat} (h : n < 256) : (UInt8.ofNat n).toNat = n := by
  rw [UInt8.toNat_ofNat', Nat.mod_eq_of_lt h]

theorem length_tlPadding (n : Nat) : (tlPadding n).length = (4 - n % 4) % 4 := by
  rw [tlPadding, length_replicate]

theorem parseBytes_short {bytes padding : Bytes} (h : bytes.length < 254)
    (hlen : padding.length = (4 - (bytes.length + 1) % 4) % 4) :
    parseBytes (pre ++ (UInt8.ofNat bytes.length :: (bytes ++ (padding ++ rest)))) pre.length =
      some (bytes, pre.length + 1 + bytes.length + padding.length) := by
  set data := pre ++ (UInt8.ofNat bytes.length :: (bytes ++ (padding ++ rest))) with hdata
  have hbyte : data.getD pre.length 0 = UInt8.ofNat bytes.length := getD_append_cons pre _ _
  have htotal : data.length = pre.length + 1 + (bytes.length + (padding.length + rest.length)) := by
    simp only [hdata, length_append, length_cons]
    omega
  have hround : roundUp ((bytes.length : Int) + 1) 4 - (bytes.length + 1) = (padding.length : Int) := by
    rw [hlen]
    exact_mod_cast roundUp_four_sub (bytes.length + 1)
  have hcontents : parseContents data (pre.length + 1) bytes.length padding.length =
      some (bytes, pre.length + 1 + bytes.length + padding.length) := by
    have := parseContents_append (pre ++ [UInt8.ofNat bytes.length]) bytes (padding ++ rest) padding.length
    simpa [hdata] using this
  rw [parseBytes, hbyte, toNat_ofNat_of_lt (by omega), if_neg (by omega)]
  dsimp only
  rw [if_neg (by omega), hround, hcontents]

/-- A string of less than `2^23` bytes, with its length in three bytes. -/
theorem parseBytes_long {count bytes padding : Bytes} (hcountLen : count.length = 3)
    (hcnt : ofLe count = bytes.length) (h : bytes.length < 2 ^ 23)
    (hlen : padding.length = (4 - bytes.length % 4) % 4) :
    parseBytes (pre ++ (254 :: (count ++ (bytes ++ (padding ++ rest))))) pre.length =
      some (bytes, pre.length + 1 + 3 + bytes.length + padding.length) := by
  set data := pre ++ (254 :: (count ++ (bytes ++ (padding ++ rest)))) with hdata
  have hbyte : data.getD pre.length 0 = 254 := getD_append_cons pre _ _
  have htotal : data.length = pre.length + 1 + 3 + (bytes.length + (padding.length + rest.length)) := by
    simp only [hdata, length_append, length_cons]
    omega
  have hslice : slice data (pre.length + 1) 3 = count := by
    have := slice_append_middle (pre ++ [254]) count (bytes ++ (padding ++ rest))
    simpa [hdata, hcountLen] using this
  have hlength := @toInt_upper_shift count (by omega)
  rw [hcnt, if_pos h] at hlength
  have hround : roundUp (bytes.length : Int) 4 - bytes.length = (padding.length : Int) := by
    rw [hlen]
    exact roundUp_four_sub bytes.length
  have hcontents : parseContents data (pre.length + 1 + 3) bytes.length padding.length =
      some (bytes, pre.length + 1 + 3 + bytes.length + padding.length) := by
    have := parseContents_append (pre ++ [254] ++ count) bytes (padding ++ rest) padding.length
    simpa [hdata, hcountLen] using this
  rw [parseBytes, hbyte, if_neg (by omega)]
  dsimp only
  rw [if_pos (show (254 : UInt8).toNat = 254 from rfl), if_neg (by omega), hslice, hlength, hround, hcontents]

theorem parseBytes_append {bytes : Bytes} (h : bytes.length < 2 ^ 23) :
    parseBytes (pre ++ (tlBytes bytes ++ rest)) pre.length = some (bytes, pre.length + (tlBytes bytes).length) := by
  unfold tlBytes
  split
  · next hshort =>
    simp only [cons_append, append_assoc, length_cons, length_append]
    rw [parseBytes_short pre rest hshort (length_tlPadding _)]
    congr 2
    omega
  · have hcnt : ofLe (leBytes 3 bytes.length) = bytes.length := by
      rw [ofLe_leBytes]
      exact Nat.mod_eq_of_lt (by omega)
    simp only [cons_append, append_assoc, length_cons, length_append, length_leBytes]
    rw [parseBytes_long pre rest (length_leBytes 3 _) hcnt h (length_tlPadding _)]
    congr 2
    omega

/-- **The parser reads an object back**, if `random_bytes` has less than `2^23` bytes: from there on the three bytes of
the length are read as a negative number. -/
theorem parseDecryptedMessageLayer_serialize (h : object.randomBytes.length < 2 ^ 23) :
    ∃ offset, parseDecryptedMessageLayer object.serialize =
      some (object.randomBytes, object.toLayerFields, offset) := by
  obtain ⟨⟨layer, inSeqNo, outSeqNo⟩, randomBytes, message, hlt⟩ := object
  set signature : BitVec 32 := 0x1be31789 with hsig
  set random := tlBytes randomBytes with hrandom
  set data := leBits signature ++ (random ++ (leBits layer ++ (leBits inSeqNo ++ (leBits outSeqNo ++ message))))
    with hdata
  have heq : (DecryptedMessageLayer.mk ⟨layer, inSeqNo, outSeqNo⟩ randomBytes message hlt).serialize = data := by
    simp [DecryptedMessageLayer.serialize, DecryptedMessageLayer.rest, LayerFields.serialize, hdata, hrandom,
      hsig]
  have hword (x : BitVec 32) : (leBits x).length = 4 := length_leBits x
  have hfirst : ofLeBits 32 (slice data 0 4) = signature :=
    ofLeBits_slice (by decide) [] signature (random ++ (leBits layer ++ (leBits inSeqNo ++ (leBits outSeqNo ++ message))))
  have hbs : parseBytes data 4 = some (randomBytes, 4 + random.length) :=
    parseBytes_append (leBits signature) (leBits layer ++ (leBits inSeqNo ++ (leBits outSeqNo ++ message))) h
  have hlayer : parseInt data (4 + random.length) = some (layer, 4 + random.length + 4) := by
    have := parseInt_append (leBits signature ++ random) (leBits inSeqNo ++ (leBits outSeqNo ++ message)) layer
    simpa only [append_assoc, length_append, hword] using this
  have hin : parseInt data (4 + random.length + 4) = some (inSeqNo, 4 + random.length + 4 + 4) := by
    have := parseInt_append (leBits signature ++ random ++ leBits layer) (leBits outSeqNo ++ message) inSeqNo
    simpa only [append_assoc, length_append, hword, Nat.add_assoc] using this
  have hout : parseInt data (4 + random.length + 4 + 4) = some (outSeqNo, 4 + random.length + 4 + 4 + 4) := by
    have := parseInt_append (leBits signature ++ random ++ leBits layer ++ leBits inSeqNo) message outSeqNo
    simpa only [append_assoc, length_append, hword, Nat.add_assoc] using this
  have hlen : ¬data.length < 4 := by
    rw [hdata, length_append, hword]
    omega
  refine ⟨4 + random.length + 4 + 4 + 4, ?_⟩
  rw [heq, parseDecryptedMessageLayer, if_neg hlen, if_pos hfirst, hbs]
  simp only [Option.bind_eq_bind, Option.bind_some, hlayer, hin, hout]
  rfl

/-! ## The scan -/

theorem roundUpLength_spec (rounds randomBytesLength : Nat) (h : (4 - (randomBytesLength + 1) % 4) % 4 ≤ rounds) :
    roundUpLength rounds randomBytesLength = randomBytesLength + (4 - (randomBytesLength + 1) % 4) % 4 := by
  induction rounds generalizing randomBytesLength with
  | zero =>
    rw [roundUpLength]
    omega
  | succ rounds ih =>
    rw [roundUpLength]
    split
    · rw [ih _ (by omega)]
      omega
    · omega

theorem scannedHeader_eq (b : UInt8) (bytes : Bytes) {randomBytesLength : Nat}
    (hround : roundUpLength 3 b.toNat = randomBytesLength) (hlen : randomBytesLength + 12 ≤ bytes.length) :
    scannedHeader (leBits (0x1be31789 : BitVec 32) ++ b :: bytes) = (fieldsAt bytes randomBytesLength).scanned := by
  set signature : BitVec 32 := 0x1be31789 with hsig
  set content := leBits signature ++ b :: bytes with hcont
  have hword : (leBits signature).length = 4 := length_leBits signature
  have htotal : content.length = 4 + (1 + bytes.length) := by
    rw [hcont, length_append, length_cons, hword]
    omega
  have hfirst : ofLeBits 32 (slice content 0 4) = signature := ofLeBits_slice (by decide) [] signature (b :: bytes)
  have hbyte : content.getD 4 0 = b := getD_append_cons (leBits signature) bytes b
  have hfields : fieldsAt content (4 + 1 + randomBytesLength) = fieldsAt bytes randomBytesLength := by
    have h := fieldsAt_append (leBits signature ++ [b]) bytes randomBytesLength
    simpa [hcont] using h
  have hread : readLayerHeader content = ⟨max 1 (unsignedLayer (fieldsAt content (4 + 1 + randomBytesLength)).layer),
      (fieldsAt content (4 + 1 + randomBytesLength)).inSeqNo,
      (fieldsAt content (4 + 1 + randomBytesLength)).outSeqNo⟩ := by
    unfold readLayerHeader
    rw [if_pos ⟨by omega, hfirst⟩, if_pos (by omega), hbyte, hround]
    dsimp only
    rw [if_pos (by omega)]
    rfl
  rw [scannedHeader, hread, hfields]
  rfl

theorem scannedHeader_short (h : object.randomBytes.length < 254) :
    scannedHeader object.serialize = object.scanned := by
  set bytes := object.randomBytes ++ tlPadding (object.randomBytes.length + 1) with hbs
  have hlen : bytes.length = object.randomBytes.length + (4 - (object.randomBytes.length + 1) % 4) % 4 := by
    rw [hbs, length_append, length_tlPadding]
  have hserialize : object.serialize =
      leBits (0x1be31789 : BitVec 32) ++ UInt8.ofNat object.randomBytes.length :: (bytes ++ object.rest) := by
    rw [DecryptedMessageLayer.serialize, tlBytes, if_pos h, cons_append]
  have hround : roundUpLength 3 (UInt8.ofNat object.randomBytes.length).toNat = bytes.length := by
    rw [toNat_ofNat_of_lt (by omega), roundUpLength_spec 3 _ (by omega), hlen]
  have htotal : bytes.length + 12 ≤ (bytes ++ object.rest).length := by
    have hrest := length_rest object
    have happend : (bytes ++ object.rest).length = bytes.length + object.rest.length := length_append
    omega
  rw [hserialize, scannedHeader_eq _ _ hround htotal, fieldsAt_rest]

/-- What lies behind the prefix of the long form. -/
def DecryptedMessageLayer.longTail (object : DecryptedMessageLayer) : Bytes :=
  object.randomBytes ++ (tlPadding object.randomBytes.length ++ object.rest)

/-- The scan has no long form: 255 bytes behind the byte 254 are skipped, which are the three bytes of the length and
252 bytes of `random_bytes`. -/
theorem scannedHeader_long (h : 254 ≤ object.randomBytes.length) :
    scannedHeader object.serialize = (fieldsAt object.longTail 252).scanned := by
  set count := leBytes 3 object.randomBytes.length with hcnt
  have hcountLen : count.length = 3 := length_leBytes 3 _
  have hserialize : object.serialize = leBits (0x1be31789 : BitVec 32) ++ 254 :: (count ++ object.longTail) := by
    rw [DecryptedMessageLayer.serialize, tlBytes, if_neg (by omega), DecryptedMessageLayer.longTail]
    simp only [cons_append, append_assoc, hcnt]
  have hround : roundUpLength 3 (254 : UInt8).toNat = 255 := by decide
  have htotal : 255 + 12 ≤ (count ++ object.longTail).length := by
    simp only [DecryptedMessageLayer.longTail, length_append, hcountLen, length_tlPadding, length_rest]
    omega
  have hfields : fieldsAt (count ++ object.longTail) 255 = fieldsAt object.longTail 252 := by
    have := fieldsAt_append count object.longTail 252
    rwa [hcountLen] at this
  rw [hserialize, scannedHeader_eq _ _ hround htotal, hfields]

/-- The bytes from 252 on, counted from the first random byte, happen to hold the numbers of the header. -/
def DecryptedMessageLayer.RepeatsHeader (object : DecryptedMessageLayer) : Prop :=
  let fields := fieldsAt object.longTail 252
  max 1 (unsignedLayer fields.layer) = unsignedLayer object.layer ∧
    fields.inSeqNo.toInt.tdiv 2 = object.inSeqNo.toInt.tdiv 2 ∧
    fields.outSeqNo.toInt.tdiv 2 = object.outSeqNo.toInt.tdiv 2

theorem scanned_eq_reported_iff : (fieldsAt object.longTail 252).scanned = object.reported ↔ object.RepeatsHeader := by
  simp only [LayerFields.scanned, LayerFields.reported, ReportedHeader.mk.injEq, DecryptedMessageLayer.RepeatsHeader]

theorem unsignedLayer_eq_zero_iff (layer : BitVec 32) : unsignedLayer layer = 0 ↔ layer = 0 := by
  unfold unsignedLayer
  constructor
  · intro h
    have hext : layer.signExtend 64 = 0#64 := BitVec.eq_of_toNat_eq h
    apply BitVec.eq_of_toInt_eq
    rw [← BitVec.toInt_signExtend_of_le (show 32 ≤ 64 by decide), hext]
    rfl
  · intro h
    rw [h]
    decide

/-- The scan reports the header of the object exactly if `random_bytes` has the short form and the layer is not 0, or
the bytes that the scan takes for the header repeat it; the parser, if `random_bytes` is within its reach. -/
theorem scannedHeader_iff (object : DecryptedMessageLayer) :
    (object.randomBytes.length < 2 ^ 23 → ∃ offset, parseDecryptedMessageLayer object.serialize =
        some (object.randomBytes, object.toLayerFields, offset)) ∧
      (scannedHeader object.serialize = object.reported ↔
        (object.randomBytes.length < 254 ∧ object.layer ≠ 0) ∨
          (254 ≤ object.randomBytes.length ∧ object.RepeatsHeader)) := by
  refine ⟨parseDecryptedMessageLayer_serialize object, ?_⟩
  by_cases h : object.randomBytes.length < 254
  · have hlayer := unsignedLayer_eq_zero_iff object.layer
    have hscanned : object.scanned = object.reported ↔ object.layer ≠ 0 := by
      simp only [LayerFields.scanned, LayerFields.reported, ReportedHeader.mk.injEq, and_true, ne_eq, ← hlayer]
      omega
    rw [scannedHeader_short object h, hscanned]
    constructor
    · intro hne
      exact .inl ⟨h, hne⟩
    · rintro (⟨-, hne⟩ | ⟨hle, -⟩)
      · exact hne
      · omega
  · rw [scannedHeader_long object (by omega), scanned_eq_reported_iff]
    constructor
    · intro heq
      exact .inr ⟨by omega, heq⟩
    · rintro (⟨hlt, -⟩ | ⟨-, heq⟩)
      · exact absurd hlt h
      · exact heq

/-- A message of layer 73 with 254 random bytes, the first that the long form is for. -/
def longObject : DecryptedMessageLayer where
  layer := 73
  inSeqNo := 5
  outSeqNo := 8
  randomBytes := List.replicate 254 7
  message := [1, 2, 3, 4]
  length_lt := by rw [length_replicate]; decide

/-- The last random bytes are taken for the layer, the layer for a sequence number, and that for the other one. -/
theorem scannedHeader_longObject :
    scannedHeader longObject.serialize = ⟨1799, 36, 2⟩ ∧ longObject.reported = ⟨73, 2, 4⟩ ∧
      scannedHeader longObject.serialize ≠ longObject.reported := by
  decide +kernel

end TelegramClient.Secret
