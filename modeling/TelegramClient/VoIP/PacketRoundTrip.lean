import TelegramClient.Secret.MessageRoundTrip
import TelegramClient.VoIP.PacketCrypto

/-!
# A call packet comes to the other side

* `inner_spec` : the plaintext fills whole blocks;
* **`callPacket_roundTrip`** : the other side reads the plaintext, and the sender does not accept its own datagram.
-/

namespace TelegramClient.VoIP
open List (append_assoc length_append replicate)

open MtProto Secret

/-! ## The plaintext -/

variable (v2 : Bool)

theorem padLen_spec (length : Nat) :
    (length + padLen v2 length) % 16 = 0 ∧ padLen v2 length ≤ 27 ∧ (v2 = true → 12 ≤ padLen v2 length) ∧
      (v2 = false → padLen v2 length ≤ 15) := by
  cases v2 with
  | true =>
    have hlong : padLen true length = if 16 - length % 16 < 12 then 16 - length % 16 + 16 else 16 - length % 16 := rfl
    rw [hlong]
    split <;> exact ⟨by omega, by omega, fun _ => by omega, fun h => absurd h (by decide)⟩
  | false =>
    have hshort : padLen false length = if length % 16 ≠ 0 then 16 - length % 16 else 0 := rfl
    rw [hshort]
    split <;> exact ⟨by omega, by omega, fun h => absurd h (by decide), fun _ => by omega⟩

variable (padding : Block 28) (data : Bytes)

theorem inner_spec : ∃ count : Nat, inner v2 padding data = withLength data ++ padding.toList.take count ∧
      (inner v2 padding data).length = 4 + data.length + count ∧ (4 + data.length + count) % 16 = 0 ∧ count ≤ 27 ∧
      (v2 = true → 12 ≤ count) ∧ (v2 = false → count ≤ 15) := by
  obtain ⟨hmod, hle, hmin, hmax⟩ := padLen_spec v2 (withLength data).length
  refine ⟨padLen v2 (withLength data).length, rfl, ?_, ?_, hle, hmin, hmax⟩
  · rw [inner, length_append, List.length_take, Vector.length_toList, length_withLength,
      Nat.min_eq_left (by rw [← length_withLength]; omega)]
  · rwa [← length_withLength]

theorem inner_ne_nil : inner v2 padding data ≠ [] := by
  obtain ⟨count, -, hlen, -⟩ := inner_spec v2 padding data
  intro hnil
  rw [hnil, List.length_nil] at hlen
  omega

theorem take_inner : (inner v2 padding data).take (data.length + 4) = withLength data := by
  have hlen : (withLength data).length = data.length + 4 := by rw [length_withLength, Nat.add_comm]
  rw [inner, ← hlen, List.take_left]

theorem drop_inner : (inner v2 padding data).drop 4 =
      data ++ padding.toList.take (padLen v2 (withLength data).length) := drop_withLength data _

theorem length_in_inner {data : Bytes} (hlen : data.length ≤ 1400) :
    (ofLeBits 32 (slice (inner v2 padding data) 0 4)).toNat = data.length := by
  rw [inner, slice_withLength, ofLeBits_leBits (by decide), BitVec.toNat_ofNat]
  exact Nat.mod_eq_of_lt (by omega)

theorem hashedPrefix_inner {data : Bytes} (hlen : data.length ≤ 1400) :
    hashedPrefix (inner v2 padding data) = withLength data := by
  obtain ⟨count, -, hlength, -⟩ := inner_spec v2 padding data
  unfold hashedPrefix
  dsimp only
  rw [length_in_inner v2 padding hlen, Nat.min_eq_left (by omega), take_inner]

section
variable (crypto : SecretCrypto)

/-! ## A datagram -/

inductive HashInput where
  | sha1 (bytes : Bytes)
  | sha256 (bytes : Bytes)
deriving DecidableEq

/-- The 16 bytes of the digest that are the message key. -/
def HashInput.msgKey : HashInput → Bytes
  | sha1 bytes => slice (crypto.mtSha1 bytes).toList (20 - 16) 16
  | sha256 bytes => slice (crypto.mtSha256 bytes).toList 8 16

@[simp] theorem length_msgKey (input : HashInput) : (input.msgKey crypto).length = 16 := by
  cases input with
  | sha1 bytes | sha256 bytes => exact length_slice_block _ (by decide)

def offset (isOutgoing : Bool) : Nat := if isOutgoing then 0 else 8

theorem offset_not (isOutgoing : Bool) : offset (!isOutgoing) = if isOutgoing then 8 else 0 := by
  cases isOutgoing <;> rfl

def packetKeys (v2 : Bool) (key : Block 256) (msgKey : Bytes) (x : Nat) : MTMessageEncryptionKey :=
  if v2 then kdf2 crypto key msgKey x else kdf crypto key msgKey x

/-- The part of the key that is hashed in MTProto 2, and the bytes behind the length. -/
def hashInput2 (key : Block 256) (x : Nat) (plaintext : Bytes) : HashInput :=
  .sha256 (slice key.toList (88 + x) 32 ++ plaintext.drop 4)

namespace CallCipher

def sentInput (c : CallCipher) (padding : Block 28) (data : Bytes) : HashInput :=
  if c.useMTProto2 then hashInput2 c.encryptionKey (offset c.isOutgoing) (inner true padding data)
  else .sha1 (withLength data)

def sentBody (c : CallCipher) (padding : Block 28) (data : Bytes) : Bytes :=
  let keys := packetKeys crypto c.useMTProto2 c.encryptionKey ((c.sentInput padding data).msgKey crypto)
    (offset c.isOutgoing)
  mtAesEncryptInplace crypto.aes (inner c.useMTProto2 padding data) keys.key keys.iv

def parts (c : CallCipher) (tag msgKey body : Bytes) : Bytes :=
  tag ++ (keyFingerprint crypto c.encryptionKey ++ msgKey ++ body)

def decrypted (r : CallCipher) (v2 : Bool) (msgKey body : Bytes) : Bytes :=
  let keys := packetKeys crypto v2 r.encryptionKey msgKey (offset (!r.isOutgoing))
  mtAesDecrypt crypto.aes body keys.key keys.iv

variable {data : Bytes} (c : CallCipher)

theorem sendPacket_eq (ep : Endpoint) (padding : Block 28) {datagram : Bytes} (hpos : 0 < data.length)
    (h : sendPacket crypto c ep padding data = some datagram) :
    datagram = c.parts crypto (c.tag crypto ep) ((c.sentInput padding data).msgKey crypto)
      (c.sentBody crypto padding data) := by
  unfold sendPacket at h
  rw [if_pos hpos] at h
  split at h
  · cases h
  split at h
  · cases h
  obtain rfl := Option.some.inj h
  unfold parts sentBody sentInput packetKeys
  cases c.useMTProto2 with
  | true => rfl
  | false =>
    simp only [Bool.false_eq_true, if_false, sealPacket]
    rw [take_inner]
    rfl

variable (padding : Block 28)

theorem length_sentBody (data : Bytes) :
    (c.sentBody crypto padding data).length = (inner c.useMTProto2 padding data).length := by
  obtain ⟨count, -, hlen, hmod, -⟩ := inner_spec c.useMTProto2 padding data
  exact length_mtAesEncryptInplace crypto.aes (inner_ne_nil _ padding data) (hlen ▸ hmod) _ _

theorem decrypted_sentBody {c r : CallCipher} (hkey : r.encryptionKey = c.encryptionKey)
    (hdir : r.isOutgoing = !c.isOutgoing) (padding : Block 28) (data : Bytes) :
    r.decrypted crypto c.useMTProto2 ((c.sentInput padding data).msgKey crypto) (c.sentBody crypto padding data) =
      inner c.useMTProto2 padding data := by
  obtain ⟨count, -, hlen, hmod, -⟩ := inner_spec c.useMTProto2 padding data
  unfold decrypted sentBody
  rw [hkey, hdir, Bool.not_not]
  exact mtAesDecrypt_mtAesEncryptInplace crypto.aes (inner_ne_nil _ padding data) (hlen ▸ hmod) _ _

/-! ## What a receiver does with it -/

section
variable {tag msgKey : Bytes} (body : Bytes) (htag : tag.length = 16) (hmsgKey : msgKey.length = 16)
include htag hmsgKey

theorem slice_parts (c : CallCipher) : slice (c.parts crypto tag msgKey body) 0 16 = tag ∧
      slice (c.parts crypto tag msgKey body) 16 8 = keyFingerprint crypto c.encryptionKey ∧
      slice (c.parts crypto tag msgKey body) (16 + 8) 16 = msgKey ∧
      (c.parts crypto tag msgKey body).drop (16 + 8 + 16) = body := by
  have hfp : (keyFingerprint crypto c.encryptionKey).length = 8 := length_slice_block _ (by decide)
  unfold parts
  generalize keyFingerprint crypto c.encryptionKey = fingerprint at hfp
  refine ⟨?_, ?_, ?_, ?_⟩
  · have h := slice_append_middle [] tag (fingerprint ++ msgKey ++ body)
    rwa [htag] at h
  · have h := slice_append_middle tag fingerprint (msgKey ++ body)
    rwa [htag, hfp, append_assoc, ← append_assoc fingerprint] at h
  · have h := slice_append_middle (tag ++ fingerprint) msgKey body
    rwa [length_append, htag, hfp, hmsgKey, append_assoc, append_assoc,
      ← append_assoc fingerprint] at h
  · rw [← append_assoc, ← append_assoc]
    exact List.drop_left' (by rw [length_append, length_append, htag, hfp, hmsgKey])

variable {c r : CallCipher}

theorem openPacket2_parts (hkey : r.encryptionKey = c.encryptionKey) (hbody : body.length ≤ 1500) :
    openPacket2 crypto r (c.parts crypto tag msgKey body) =
      checkDecrypted2 crypto r msgKey (r.decrypted crypto true msgKey body) := by
  obtain ⟨-, hfp, hslice, hdrop⟩ := slice_parts crypto body htag hmsgKey c
  unfold openPacket2
  dsimp only
  rw [hfp, hslice, hdrop, hkey, if_neg (not_not.mpr rfl), if_neg (Nat.not_lt.mpr hbody), ← hkey, ← offset_not]
  rfl

theorem openPacket_parts (hkey : r.encryptionKey = c.encryptionKey) :
    openPacket crypto r (c.parts crypto tag msgKey body) =
      if msgKey ≠ (HashInput.sha1 (hashedPrefix (r.decrypted crypto false msgKey body))).msgKey crypto then
        if r.state = .waitInit ∨ r.state = .waitInitAck then openPacket2 crypto r (c.parts crypto tag msgKey body)
        else .dropped .wrongHash else .opened ((r.decrypted crypto false msgKey body).drop 4) false := by
  obtain ⟨-, hfp, hslice, hdrop⟩ := slice_parts crypto body htag hmsgKey c
  unfold openPacket
  dsimp only
  rw [hfp, hslice, hdrop, hkey, if_neg (not_not.mpr rfl), ← hkey, ← offset_not]
  rfl

theorem processIncomingPacket_parts {srcEndpoint : Endpoint} (hright : r.tag crypto srcEndpoint = tag)
    (hmark : srcEndpoint.isRelay = true → slice (c.parts crypto tag msgKey body) 16 12 ≠ replicate 12 0xFF)
    (hbody : 16 ≤ body.length) : processIncomingPacket crypto r srcEndpoint (c.parts crypto tag msgKey body) =
      if r.useMTProto2 then openPacket2 crypto r (c.parts crypto tag msgKey body)
      else openPacket crypto r (c.parts crypto tag msgKey body) := by
  obtain ⟨hslice, -, -, -⟩ := slice_parts crypto body htag hmsgKey c
  have hfp : (keyFingerprint crypto c.encryptionKey).length = 8 := length_slice_block _ (by decide)
  have hlen : (c.parts crypto tag msgKey body).length = 16 + 8 + 16 + body.length := by
    unfold parts
    simp only [length_append, htag, hfp, hmsgKey]
    omega
  unfold processIncomingPacket
  rw [hslice, hright, if_neg (not_not.mpr rfl), if_neg fun h => hmark h.2.1 h.2.2, if_neg (by omega)]

end

theorem checkDecrypted2_of_ne (r : CallCipher) {msgKey plaintext : Bytes}
    (h : (hashInput2 r.encryptionKey (offset (!r.isOutgoing)) plaintext).msgKey crypto ≠ msgKey) :
    checkDecrypted2 crypto r msgKey plaintext = .dropped .wrongHash := by
  unfold checkDecrypted2
  rw [← offset_not]
  exact if_pos h.symm

theorem checkDecrypted2_inner (r : CallCipher) {msgKey : Bytes} (padding : Block 28) (hlen : data.length ≤ 1400)
    (h : (hashInput2 r.encryptionKey (offset (!r.isOutgoing)) (inner true padding data)).msgKey crypto = msgKey) :
    checkDecrypted2 crypto r msgKey (inner true padding data) = .opened data true := by
  obtain ⟨count, -, hlength, -, -, hmin, -⟩ := inner_spec true padding data
  have hmin := hmin rfl
  have hdata : slice (inner true padding data) 4 data.length = data := by rw [slice, drop_inner, List.take_left]
  have hhash : ¬msgKey ≠ messageKeyV2 crypto r.encryptionKey.toList (offset (!r.isOutgoing))
      ((inner true padding data).drop 4) := not_not.mpr h.symm
  unfold checkDecrypted2
  rw [← offset_not]
  dsimp only
  rw [if_neg hhash, length_in_inner true padding hlen, if_neg (by omega), if_neg (by omega), hdata]

/-! ## The way of a packet -/

theorem length_sentBody_bounds (hlen : data.length ≤ 1400) :
    16 ≤ (c.sentBody crypto padding data).length ∧ (c.sentBody crypto padding data).length ≤ 1500 := by
  obtain ⟨count, -, hlength, hmod, hle, -, -⟩ := inner_spec c.useMTProto2 padding data
  rw [length_sentBody]
  omega

@[simp] theorem length_tag (ep : Endpoint) : (c.tag crypto ep).length = 16 := by
  unfold tag
  split
  · exact Vector.length_toList
  · exact length_slice_block _ (by decide)

structure IsPeer (c r : CallCipher) : Prop where
  encryptionKey : r.encryptionKey = c.encryptionKey
  isOutgoing : r.isOutgoing = !c.isOutgoing
  useMTProto2 : r.useMTProto2 = c.useMTProto2

/-- Only in the older mode something follows the plaintext. -/
def streamRest (c : CallCipher) (padding : Block 28) (data : Bytes) : Bytes :=
  if c.useMTProto2 then [] else padding.toList.take (padLen false (withLength data).length)

theorem IsPeer.opens {c r : CallCipher} (h : c.IsPeer r) {ep srcEndpoint : Endpoint} (padding : Block 28)
    (hlen : data.length ≤ 1400) (htag : r.tag crypto srcEndpoint = c.tag crypto ep)
    (hmark : srcEndpoint.isRelay = true → slice (c.parts crypto (c.tag crypto ep)
      ((c.sentInput padding data).msgKey crypto) (c.sentBody crypto padding data)) 16 12 ≠ replicate 12 0xFF) :
    processIncomingPacket crypto r srcEndpoint (c.parts crypto (c.tag crypto ep)
        ((c.sentInput padding data).msgKey crypto) (c.sentBody crypto padding data)) =
      .opened (data ++ c.streamRest padding data) c.useMTProto2 := by
  obtain ⟨hmin, hmax⟩ := length_sentBody_bounds crypto c padding hlen
  have hplain := decrypted_sentBody crypto h.encryptionKey h.isOutgoing padding data
  have hdir : offset (!r.isOutgoing) = offset c.isOutgoing := by rw [h.isOutgoing, Bool.not_not]
  rw [processIncomingPacket_parts crypto _ (length_tag crypto c ep) (length_msgKey crypto _) htag hmark hmin,
    h.useMTProto2]
  cases hmode : c.useMTProto2 with
  | true =>
    rw [hmode] at hplain
    have hinput : c.sentInput padding data =
        hashInput2 r.encryptionKey (offset (!r.isOutgoing)) (inner true padding data) := by
      rw [sentInput, if_pos hmode, h.encryptionKey, hdir]
    rw [if_pos rfl, openPacket2_parts crypto _ (length_tag crypto c ep) (length_msgKey crypto _) h.encryptionKey hmax,
      hplain, checkDecrypted2_inner crypto r padding hlen (by rw [hinput]), streamRest, if_pos hmode, List.append_nil]
  | false =>
    rw [hmode] at hplain
    have hinput : c.sentInput padding data = .sha1 (withLength data) := by
      rw [sentInput, if_neg (by rw [hmode]; exact Bool.false_ne_true)]
    rw [if_neg Bool.false_ne_true, openPacket_parts crypto _ (length_tag crypto c ep) (length_msgKey crypto _)
      h.encryptionKey, hplain, hashedPrefix_inner false padding hlen, if_neg (not_not.mpr (by rw [hinput])),
      drop_inner, streamRest, if_neg (by rw [hmode]; exact Bool.false_ne_true)]

/-! ## A datagram that comes back -/

/-- What the sender decrypts its own datagram to. -/
def reflected (c : CallCipher) (v2 : Bool) (padding : Block 28) (data : Bytes) : Bytes :=
  c.decrypted crypto v2 ((c.sentInput padding data).msgKey crypto) (c.sentBody crypto padding data)

/-- What the sender hashes then: a second time before the peer is known. -/
def reflectedInputs (c : CallCipher) (padding : Block 28) (data : Bytes) : List HashInput :=
  let input2 := hashInput2 c.encryptionKey (offset (!c.isOutgoing)) (c.reflected crypto true padding data)
  if c.useMTProto2 then [input2]
  else .sha1 (hashedPrefix (c.reflected crypto false padding data)) ::
    if c.state = .waitInit ∨ c.state = .waitInitAck then [input2] else []

/-- The parts of the key for the two directions do not differ for this packet. -/
def DirectionsAgree (c : CallCipher) (padding : Block 28) (data : Bytes) : Prop :=
  if c.useMTProto2 then
    slice c.encryptionKey.toList 88 32 = slice c.encryptionKey.toList 96 32 ∧
      (c.reflected crypto true padding data).drop 4 = (inner true padding data).drop 4
  else (c.reflected crypto false padding data).take (data.length + 4) = withLength data

instance (c : CallCipher) (padding : Block 28) (data : Bytes) : Decidable (c.DirectionsAgree crypto padding data) :=
  inferInstanceAs (Decidable (if c.useMTProto2 then _ else _))

theorem hashInput2_injective {key : Block 256} {isOutgoing : Bool} {plaintext plaintext' : Bytes}
    (h : hashInput2 key (offset isOutgoing) plaintext = hashInput2 key (offset (!isOutgoing)) plaintext') :
    slice key.toList 88 32 = slice key.toList 96 32 ∧ plaintext.drop 4 = plaintext'.drop 4 := by
  have hlen : ∀ b, (slice key.toList (88 + offset b) 32).length = 32 := fun b => by
    cases b <;> exact length_slice_block key (by decide)
  obtain ⟨hslice, hdrop⟩ := List.append_inj (HashInput.sha256.inj h) (by rw [hlen, hlen])
  refine ⟨?_, hdrop⟩
  cases isOutgoing with
  | true => exact hslice
  | false => exact hslice.symm

theorem take_of_hashedPrefix {aesOut : Bytes} (h : hashedPrefix aesOut = withLength data) :
    aesOut.take (data.length + 4) = withLength data := by
  unfold hashedPrefix at h
  dsimp only at h
  have hle := Nat.min_le_right (ofLeBits 32 (slice aesOut 0 4)).toNat (aesOut.length - 4)
  generalize min (ofLeBits 32 (slice aesOut 0 4)).toNat (aesOut.length - 4) = len at h hle
  have hlen := congrArg List.length h
  rw [List.length_take, length_withLength] at hlen
  have hsame : len = data.length := by omega
  rwa [hsame] at h

theorem directionsAgree_of_mem {c : CallCipher} {padding : Block 28}
    (h : c.sentInput padding data ∈ c.reflectedInputs crypto padding data) : c.DirectionsAgree crypto padding data := by
  unfold sentInput reflectedInputs at h
  unfold DirectionsAgree
  cases hmode : c.useMTProto2 with
  | true =>
    rw [hmode, if_pos rfl, if_pos rfl] at h
    rw [if_pos rfl]
    obtain ⟨hslice, hdrop⟩ := hashInput2_injective (List.mem_singleton.mp h)
    exact ⟨hslice, hdrop.symm⟩
  | false =>
    rw [hmode, if_neg Bool.false_ne_true, if_neg Bool.false_ne_true] at h
    rw [if_neg Bool.false_ne_true]
    rcases List.mem_cons.mp h with heq | hm
    · exact take_of_hashedPrefix (HashInput.sha1.inj heq).symm
    · split at hm
      · cases List.mem_singleton.mp hm
      · exact absurd hm List.not_mem_nil

theorem reflection_dropped {ep srcEndpoint : Endpoint} (hlen : data.length ≤ 1400)
    (htag : c.tag crypto srcEndpoint = c.tag crypto ep)
    (hmark : srcEndpoint.isRelay = true → slice (c.parts crypto (c.tag crypto ep)
      ((c.sentInput padding data).msgKey crypto) (c.sentBody crypto padding data)) 16 12 ≠ replicate 12 0xFF)
    (hne : ∀ input ∈ c.reflectedInputs crypto padding data,
      input.msgKey crypto ≠ (c.sentInput padding data).msgKey crypto) :
    processIncomingPacket crypto c srcEndpoint (c.parts crypto (c.tag crypto ep)
      ((c.sentInput padding data).msgKey crypto) (c.sentBody crypto padding data)) = .dropped .wrongHash := by
  obtain ⟨hmin, hmax⟩ := length_sentBody_bounds crypto c padding hlen
  have hopen2 :
      (hashInput2 c.encryptionKey (offset (!c.isOutgoing)) (c.reflected crypto true padding data)).msgKey crypto ≠
        (c.sentInput padding data).msgKey crypto →
      openPacket2 crypto c (c.parts crypto (c.tag crypto ep) ((c.sentInput padding data).msgKey crypto)
        (c.sentBody crypto padding data)) = .dropped .wrongHash := by
    intro hhash
    rw [openPacket2_parts crypto _ (length_tag crypto c ep) (length_msgKey crypto _) rfl hmax]
    exact checkDecrypted2_of_ne crypto c hhash
  rw [processIncomingPacket_parts crypto _ (length_tag crypto c ep) (length_msgKey crypto _) htag hmark hmin]
  unfold reflectedInputs at hne
  cases hmode : c.useMTProto2 with
  | true =>
    rw [hmode, if_pos rfl] at hne
    rw [if_pos rfl]
    exact hopen2 (hne _ (List.mem_singleton_self _))
  | false =>
    rw [hmode, if_neg Bool.false_ne_true] at hne
    obtain ⟨hsha1, hretry⟩ := List.forall_mem_cons.mp hne
    unfold reflected at hsha1
    rw [if_neg Bool.false_ne_true, openPacket_parts crypto _ (length_tag crypto c ep) (length_msgKey crypto _) rfl,
      if_pos hsha1.symm]
    split
    case isTrue hwait =>
      rw [if_pos hwait] at hretry
      exact hopen2 (hretry _ (List.mem_singleton_self _))
    case isFalse => rfl

/-- The other side reads the plaintext, with nothing behind it or random padding only, and the sender drops its own
datagram: unless the digests collide, or the two directions agree. -/
theorem callPacket_roundTrip (c : CallCipher) (ep srcEndpoint : Endpoint) (padding : Block 28) {data datagram : Bytes}
    (hpos : 0 < data.length) (hlen : data.length ≤ 1400) (hsend : sendPacket crypto c ep padding data = some datagram)
    (hmark : srcEndpoint.isRelay = true → slice datagram 16 12 ≠ List.replicate 12 0xFF) :
    (∀ r, c.IsPeer r → r.tag crypto srcEndpoint = c.tag crypto ep →
      processIncomingPacket crypto r srcEndpoint datagram =
        .opened (data ++ c.streamRest padding data) c.useMTProto2) ∧
    (c.tag crypto srcEndpoint = c.tag crypto ep →
      (∀ input ∈ c.reflectedInputs crypto padding data,
        input.msgKey crypto = (c.sentInput padding data).msgKey crypto → input = c.sentInput padding data) →
      ¬c.DirectionsAgree crypto padding data →
      processIncomingPacket crypto c srcEndpoint datagram = .dropped .wrongHash) := by
  obtain rfl := sendPacket_eq crypto c ep padding hpos hsend
  refine ⟨fun r hpeer htag => hpeer.opens crypto padding hlen htag hmark, fun htag hinjective hdiffer => ?_⟩
  refine reflection_dropped crypto c padding hlen htag hmark fun input hmem hsame => hdiffer ?_
  exact directionsAgree_of_mem crypto (hinjective input hmem hsame ▸ hmem)

end CallCipher

end

/-! ## Values for evaluation -/

/-- A number for the bytes, less than `2 ^ 127`. -/
def residue (bytes : Bytes) : Nat := 0x9E3779B97F4A7C15F39CC0605CEDC835 * ofLe bytes % (2 ^ 127 - 1)

/-- Digests that are residues, and a cipher that changes nothing. -/
def residueCrypto : SecretCrypto where
  mtSha256 bytes := blockOf 32 (leBytes 32 (2 ^ 64 * residue bytes)) (length_leBytes _ _)
  aes := identityAes (Block 32)
  mtSha1 bytes := blockOf 20 (leBytes 20 (2 ^ 32 * residue bytes)) (length_leBytes _ _)

def onesCrypto : SecretCrypto where
  mtSha256 _ := Vector.replicate 32 0xFF
  aes := identityAes (Block 32)
  mtSha1 _ := Vector.replicate 20 0xFF

/-- A key with one bit, in the part that is hashed. -/
def oneBitKey : Block 256 := (Vector.replicate 256 0).set 88 1

def cipherWith (key : Block 256) (isOutgoing useMTProto2 : Bool) : CallCipher :=
  ⟨key, isOutgoing, useMTProto2, .waitInitAck, false, true⟩

def directEndpoint : Endpoint := ⟨.udpP2pInet, Vector.replicate 16 0⟩
def relayEndpoint : Endpoint := ⟨.udpRelay, Vector.replicate 16 3⟩

namespace CallCipher

/-- In both modes. -/
theorem callPacket_roundTrip_short :
    (∃ datagram, sendPacket residueCrypto (cipherWith oneBitKey true true) relayEndpoint (Vector.replicate 28 9)
        [1, 2, 3] = some datagram ∧
      processIncomingPacket residueCrypto (cipherWith oneBitKey false true) relayEndpoint datagram =
        .opened [1, 2, 3] true ∧
      processIncomingPacket residueCrypto (cipherWith oneBitKey true true) relayEndpoint datagram =
        .dropped .wrongHash) ∧
    ∃ datagram, sendPacket residueCrypto (cipherWith oneBitKey false false) directEndpoint (Vector.replicate 28 9)
        [1, 2, 3] = some datagram ∧
      processIncomingPacket residueCrypto (cipherWith oneBitKey true false) directEndpoint datagram =
        .opened [1, 2, 3, 9, 9, 9, 9, 9, 9, 9, 9, 9] false ∧
      processIncomingPacket residueCrypto (cipherWith oneBitKey false false) directEndpoint datagram =
        .dropped .wrongHash := by
  refine ⟨⟨_, rfl, ?_⟩, ⟨_, rfl, ?_⟩⟩
  · obtain ⟨hopen, hdrop⟩ := callPacket_roundTrip residueCrypto (cipherWith oneBitKey true true) relayEndpoint
      relayEndpoint (Vector.replicate 28 9) (show 0 < ([1, 2, 3] : Bytes).length by decide) (by decide) rfl
      (by decide +kernel)
    exact ⟨hopen (cipherWith oneBitKey false true) ⟨rfl, rfl, rfl⟩ rfl,
      hdrop rfl (by decide +kernel) (by decide +kernel)⟩
  · obtain ⟨hopen, hdrop⟩ := callPacket_roundTrip residueCrypto (cipherWith oneBitKey false false) directEndpoint
      directEndpoint (Vector.replicate 28 9) (show 0 < ([1, 2, 3] : Bytes).length by decide) (by decide) rfl
      (by decide +kernel)
    exact ⟨hopen (cipherWith oneBitKey true false) ⟨rfl, rfl, rfl⟩ rfl,
      hdrop rfl (by decide +kernel) (by decide +kernel)⟩

def zeroKey : Block 256 := Vector.replicate 256 0

/-- A key that is the same for both directions: the sender opens its own datagram in both modes. And a datagram that
begins like an answer of a relay is not opened. -/
theorem own_datagram_opened :
    (∃ datagram, sendPacket residueCrypto (cipherWith zeroKey true true) directEndpoint (Vector.replicate 28 9)
        [1, 2, 3] = some datagram ∧
      (cipherWith zeroKey true true).reflectedInputs residueCrypto (Vector.replicate 28 9) [1, 2, 3] =
        [(cipherWith zeroKey true true).sentInput (Vector.replicate 28 9) [1, 2, 3]] ∧
      processIncomingPacket residueCrypto (cipherWith zeroKey true true) directEndpoint datagram =
        .opened [1, 2, 3] true) ∧
    (∃ datagram, sendPacket residueCrypto (cipherWith zeroKey true false) directEndpoint (Vector.replicate 28 9)
        [1, 2, 3] = some datagram ∧
      processIncomingPacket residueCrypto (cipherWith zeroKey true false) directEndpoint datagram =
        .opened [1, 2, 3, 9, 9, 9, 9, 9, 9, 9, 9, 9] false) ∧
    ∃ datagram, sendPacket onesCrypto (cipherWith oneBitKey true true) relayEndpoint (Vector.replicate 28 9) [1, 2, 3] =
        some datagram ∧
      processIncomingPacket onesCrypto (cipherWith oneBitKey false true) relayEndpoint datagram = .relayResponse :=
  ⟨⟨_, rfl, by decide +kernel, by decide +kernel⟩, ⟨_, rfl, by decide +kernel⟩, ⟨_, rfl, by decide +kernel⟩⟩

end CallCipher

end TelegramClient.VoIP
