import TelegramClient.Secret.MessageCrypto

/-!
# A secret message comes to the other client

* `readLayerHeader_layerHeader`, `wrongParity_iff` : the header as it was sent, with a parity that only the other role
  accepts;
* `requestForAction_roundTrip` : the whole way, for both roles and both versions.
-/

namespace TelegramClient.Secret
open BitVec (ofNat toNat_add toNat_mul)
open List (append_assoc length_append length_nil nil_append)

open MtProto

/-! ## The plaintext -/

theorem fillCount_spec (length rounds take : Nat) (h : (16 - (length + take) % 16) % 16 ≤ rounds) :
    (length + fillCount length rounds take) % 16 = 0 ∧ take ≤ fillCount length rounds take ∧
      fillCount length rounds take ≤ take + rounds := by
  induction rounds generalizing take with
  | zero =>
    rw [fillCount]
    omega
  | succ rounds ih =>
    rw [fillCount]
    split
    · next hne =>
        obtain ⟨hmod, hle, hrounds⟩ := ih (take + 1) (by omega)
        exact ⟨hmod, by omega, by omega⟩
    · next heq => exact ⟨by omega, Nat.le_refl take, Nat.le_add_right take _⟩

variable (draws : MessageDraws) (v2 : Bool)

theorem paddingCount_spec (uniform length : Nat) :
    (length + paddingCount v2 uniform length) % 16 = 0 ∧ paddingCount v2 uniform length ≤ 72 ∧
      (v2 = true → 12 ≤ paddingCount v2 uniform length) := by
  cases v2 with
  | false =>
    obtain ⟨hmod, -, hle⟩ := fillCount_spec length 15 0 (by omega)
    exact ⟨hmod, hle.trans (by decide), fun h => absurd h Bool.false_ne_true⟩
  | true =>
    obtain ⟨hmod, hge, hle⟩ := fillCount_spec length 15 12 (by omega)
    unfold paddingCount
    rw [if_pos rfl]
    dsimp only
    generalize fillCount length 15 12 = take at hmod hge hle
    obtain ⟨hround, hdown⟩ := roundDownCount_spec (uniform % (72 + 1 - take))
    have hlt := Nat.mod_lt uniform (show 0 < 72 + 1 - take by omega)
    exact ⟨by omega, by omega, fun _ => by omega⟩

variable (m : Bytes)

theorem length_withLength : (withLength m).length = 4 + m.length := by
  simp [withLength]

theorem paddedMessage_spec :
    ∃ padding : Bytes, paddedMessage draws v2 m = withLength m ++ padding ∧ padding.length ≤ 72 ∧
      (v2 = true → 12 ≤ padding.length) ∧ (paddedMessage draws v2 m).length % 16 = 0 := by
  obtain ⟨hmod, hle, hge⟩ := paddingCount_spec v2 draws.uniform (withLength m).length
  set count := paddingCount v2 draws.uniform (withLength m).length with hcnt
  have hlen : (draws.randomBytes.toList.take count).length = count := by
    rw [List.length_take, Vector.length_toList]
    omega
  refine ⟨draws.randomBytes.toList.take count, rfl, ?_, ?_, ?_⟩
  · rwa [hlen]
  · rwa [hlen]
  · show (withLength m ++ draws.randomBytes.toList.take count).length % 16 = 0
    rwa [length_append, hlen]

theorem paddedMessage_ne_nil : paddedMessage draws v2 m ≠ [] := by
  obtain ⟨padding, heq, -⟩ := paddedMessage_spec draws v2 m
  intro hnil
  have hlen := congrArg List.length (heq.symm.trans hnil)
  rw [length_append, length_withLength, length_nil] at hlen
  omega

section
variable (crypto : SecretCrypto)

/-! ## Encryption and decryption -/

@[simp] theorem length_messageKeyV2 (key : Bytes) (xValue : Nat) (data : Bytes) :
    (messageKeyV2 crypto key xValue data).length = 16 := length_slice_block _ (by decide)

@[simp] theorem length_messageKeyV1 (data : Bytes) : (messageKeyV1 crypto data).length = 16 :=
  length_slice_block _ (by decide)

variable (draws : MessageDraws) (x : BitVec 32) (m : Bytes)

@[simp] theorem length_sentMessageKey (key : Bytes) (isCreator v2 : Bool) :
    (sentMessageKey crypto draws m key isCreator v2).length = 16 := by
  unfold sentMessageKey
  split
  · exact length_messageKeyV2 crypto _ _ _
  · exact length_messageKeyV1 crypto _

def sealedMessage (keyId : BitVec 64) (messageKey : Bytes) (keyData : MTMessageEncryptionKey) (plaintext : Bytes) :
    Bytes :=
  leBits keyId ++ messageKey ++ mtAesEncryptInplace crypto.aes plaintext keyData.key keyData.iv

variable {key : Bytes}

theorem encryptMessage_eq (hkey : key ≠ []) (keyId : BitVec 64) (isCreator v2 : Bool)
    (hlen : (paddedMessage draws v2 m).length < 2 ^ 31) :
    ∃ keyData, generateMessageKeyData crypto (sentMessageKey crypto draws m key isCreator v2) (!isCreator) key v2 =
        some keyData ∧ encryptMessage crypto draws m (some key) keyId isCreator v2 =
        .ok (some (sealedMessage crypto keyId (sentMessageKey crypto draws m key isCreator v2) keyData
          (paddedMessage draws v2 m))) := by
  obtain ⟨keyData, hdata⟩ := generateMessageKeyData_isSome crypto
    (sentMessageKey crypto draws m key isCreator v2) (!isCreator) v2 hkey
  refine ⟨keyData, hdata, ?_⟩
  unfold encryptMessage
  simp only [Option.isNone_some, Bool.and_false, Bool.false_eq_true, if_false, Option.getD_some, hdata]
  rw [if_neg (Nat.not_le.mpr hlen)]
  rfl

section
variable (keyId : BitVec 64) {messageKey : Bytes} (keyData : MTMessageEncryptionKey) (plaintext : Bytes)

theorem sealedMessage_parts (hmsgKey : messageKey.length = 16) :
    ofLeBits 64 (slice (sealedMessage crypto keyId messageKey keyData plaintext) 0 8) = keyId ∧
      slice (sealedMessage crypto keyId messageKey keyData plaintext) 8 16 = messageKey ∧
      (sealedMessage crypto keyId messageKey keyData plaintext).drop (8 + 16) =
        mtAesEncryptInplace crypto.aes plaintext keyData.key keyData.iv := by
  have hid : (leBits keyId).length = 8 := length_leBits keyId
  unfold sealedMessage
  refine ⟨?_, ?_, ?_⟩
  · have h := ofLeBits_slice (by decide) [] keyId
      (messageKey ++ mtAesEncryptInplace crypto.aes plaintext keyData.key keyData.iv)
    rwa [nil_append, ← append_assoc] at h
  · have h := slice_append_middle (leBits keyId) messageKey
      (mtAesEncryptInplace crypto.aes plaintext keyData.key keyData.iv)
    rwa [hid, hmsgKey] at h
  · exact List.drop_left' (by rw [length_append, hid, hmsgKey])

variable {keyData plaintext}

theorem decryptMessageData_sealed (hmsgKey : messageKey.length = 16) (hne : plaintext ≠ [])
    (hblocks : plaintext.length % 16 = 0) {isCreator v2 : Bool}
    (hdata : generateMessageKeyData crypto messageKey isCreator key v2 = some keyData) :
    decryptMessageData crypto (sealedMessage crypto keyId messageKey keyData plaintext) key isCreator v2 =
      checkMessageData crypto key messageKey isCreator v2 plaintext := by
  obtain ⟨-, hkey, hdrop⟩ := sealedMessage_parts crypto keyId keyData plaintext hmsgKey
  unfold decryptMessageData
  dsimp only
  rw [hkey, hdrop, hdata, Option.bind_some, mtAesDecrypt_mtAesEncryptInplace crypto.aes hne hblocks]

end

variable {authKey messageKey : Bytes} {isCreator v2 : Bool}

theorem checkMessageData_eq_some {data data' : Bytes}
    (h : checkMessageData crypto authKey messageKey isCreator v2 data = some data') : data' = data := by
  unfold checkMessageData at h
  dsimp only at h
  split at h
  · cases h
  · split at h
    · cases h
    · split at h
      · exact (Option.some.inj h).symm
      · cases h

theorem slice_withLength (padding : Bytes) : slice (withLength m ++ padding) 0 4 = leBits (ofNat 32 m.length) := by
  have hword : (leBits (ofNat 32 m.length)).length = 4 := length_leBits _
  have h := slice_append_middle [] (leBits (ofNat 32 m.length)) (m ++ padding)
  rw [nil_append, length_nil, hword, ← append_assoc] at h
  exact h

theorem drop_withLength (rest : Bytes) : (withLength m ++ rest).drop 4 = m ++ rest := by
  rw [withLength, append_assoc]
  exact List.drop_left' (length_leBits _)

theorem checkMessageData_padded {m padding : Bytes} (hm : m ≠ []) (hlen : (withLength m ++ padding).length < 2 ^ 31)
    (hmax : padding.length ≤ 1024) (hmin : v2 = true → 12 ≤ padding.length)
    (hkey : localMessageKey crypto authKey isCreator v2 (withLength m ++ padding) = messageKey) :
    checkMessageData crypto authKey messageKey isCreator v2 (withLength m ++ padding) =
      some (withLength m ++ padding) := by
  have hpos : 0 < m.length := List.length_pos_iff.mpr hm
  have htotal : (withLength m ++ padding).length = 4 + m.length + padding.length := by
    rw [length_append, length_withLength]
  have hrest : ofNat 32 (withLength m ++ padding).length - 4 = ofNat 32 (m.length + padding.length) := by
    rw [htotal]
    bv_omega
  have hpad : ofNat 32 (withLength m ++ padding).length - (ofNat 32 m.length + 4) = ofNat 32 padding.length := by
    rw [htotal]
    bv_omega
  have haccept : ¬((v2 = true ∧ (padding.length : Int) < 12) ∨ 1024 < (padding.length : Int)) := by
    rintro (⟨hv2, hlt⟩ | hgt)
    · have := hmin hv2
      omega
    · omega
  unfold checkMessageData
  dsimp only
  rw [slice_withLength, ofLeBits_leBits (by decide), hrest, hpad, toInt_ofNat_of_lt (by omega),
    toInt_ofNat_of_lt (by omega), toInt_ofNat_of_lt (by omega), if_neg (by omega), if_neg haccept, if_pos hkey]

/-- The receiver makes the message key that the sender made: from the other role in version 2, and without the padding
in version 1. -/
theorem localMessageKey_paddedMessage (key : Bytes) (isCreator v2 : Bool)
    (hlen : (paddedMessage draws v2 m).length < 2 ^ 31) :
    localMessageKey crypto key (!isCreator) v2 (paddedMessage draws v2 m) =
      sentMessageKey crypto draws m key isCreator v2 := by
  unfold localMessageKey sentMessageKey
  cases v2 with
  | true =>
    rw [if_pos rfl, if_pos rfl]
    cases isCreator with
    | true => simp only [Bool.not_true, Bool.false_eq_true, if_false, if_true]
    | false => simp only [Bool.not_false, Bool.false_eq_true, if_false, if_true]
  | false =>
    obtain ⟨padding, hpadded, -⟩ := paddedMessage_spec draws false m
    have htotal : (paddedMessage draws false m).length = 4 + m.length + padding.length := by
      rw [hpadded, length_append, length_withLength]
    have hword : (ofNat 32 m.length + 4).toNat = (withLength m).length := by
      rw [length_withLength]
      bv_omega
    dsimp only
    rw [if_neg Bool.false_ne_true, if_neg Bool.false_ne_true, hpadded, slice_withLength,
      ofLeBits_leBits (by decide), hword]
    have h := slice_append_middle [] (withLength m) padding
    rw [nil_append, length_nil] at h
    rw [h]

section
variable {draws : MessageDraws} {m key : Bytes} {isCreator : Bool} {keyData : MTMessageEncryptionKey}

variable (keyId : BitVec 64)

theorem decryptMessageData_peer (hm : m ≠ []) (hlen : (paddedMessage draws v2 m).length < 2 ^ 31) (hdata : generateMessageKeyData crypto (sentMessageKey crypto draws m key isCreator v2) (!isCreator) key v2 =
      some keyData) :
    decryptMessageData crypto (sealedMessage crypto keyId (sentMessageKey crypto draws m key isCreator v2) keyData
      (paddedMessage draws v2 m)) key (!isCreator) v2 = some (paddedMessage draws v2 m) := by
  obtain ⟨padding, hpadded, hmax, hmin, hblocks⟩ := paddedMessage_spec draws v2 m
  have hkey := localMessageKey_paddedMessage crypto draws m key isCreator v2 hlen
  rw [decryptMessageData_sealed crypto keyId (length_sentMessageKey crypto _ _ _ _ _)
    (paddedMessage_ne_nil draws v2 m) hblocks hdata]
  rw [hpadded] at hlen hkey ⊢
  exact checkMessageData_padded crypto hm hlen (by omega) hmin hkey

theorem decryptMessageData_own_v1 {messageData : Bytes} (hdata : generateMessageKeyData crypto (sentMessageKey crypto draws m key isCreator false) (!isCreator) key false =
      some keyData) (h : decryptMessageData crypto (sealedMessage crypto keyId (sentMessageKey crypto draws m key isCreator false)
      keyData (paddedMessage draws false m)) key isCreator false = some messageData) :
    messageData = paddedMessage draws false m := by
  obtain ⟨-, -, -, -, hblocks⟩ := paddedMessage_spec draws false m
  rw [generateMessageKeyData_v1 crypto _ _ isCreator] at hdata
  rw [decryptMessageData_sealed crypto keyId (length_sentMessageKey crypto _ _ _ _ _)
    (paddedMessage_ne_nil draws false m) hblocks hdata] at h
  exact checkMessageData_eq_some crypto h

end

/-! ## The header -/

theorem roundUpLength_15 : roundUpLength 3 15 = 15 := by decide

/-- The header is read as it was written, except for a layer that an `int32_t` does not hold. -/
theorem readLayerHeader_layerHeader (headerBytes : Block 15) (layer : Nat) (isCreator : Bool) (seqIn seqOut : BitVec 32)
    (rest : Bytes) : readLayerHeader (layerHeader headerBytes layer isCreator seqIn seqOut ++ rest) =
      ⟨max 1 ((ofNat 32 layer).signExtend 64).toNat, seqIn * 2 + (if isCreator then 0 else 1),
        seqOut * 2 + (if isCreator then 1 else 0)⟩ := by
  set signature : BitVec 32 := 0x1be31789 with hsig
  set inSeqNo := seqIn * 2 + (if isCreator then 0 else 1) with hin
  set outSeqNo := seqOut * 2 + (if isCreator then 1 else 0) with hout
  set random := leBits signature ++ [15] ++ headerBytes.toList with hrandom
  set content := layerHeader headerBytes layer isCreator seqIn seqOut ++ rest with hcont
  have heq : content = random ++ leBits (ofNat 32 layer) ++ leBits inSeqNo ++ leBits outSeqNo ++ rest := rfl
  have hword (x : BitVec 32) : (leBits x).length = 4 := length_leBits x
  have hlen : content.length = 32 + rest.length := by
    simp only [heq, hrandom, length_append, hword, List.length_singleton, Vector.length_toList]
  have hfirst : ofLeBits 32 (slice content 0 4) = signature := by
    have h := ofLeBits_slice (by decide) [] signature ([15] ++ headerBytes.toList ++ leBits (ofNat 32 layer) ++
      leBits inSeqNo ++ leBits outSeqNo ++ rest)
    simpa [heq, hrandom, append_assoc] using h
  have hcnt : (content.getD 4 0).toNat = 15 := by
    have hsplit : content = leBits signature ++ ([15] ++ (headerBytes.toList ++ leBits (ofNat 32 layer) ++
        leBits inSeqNo ++ leBits outSeqNo ++ rest)) := by
      simp only [heq, hrandom, append_assoc]
    rw [hsplit, List.getD_eq_getElem?_getD, List.getElem?_append_right (by rw [hword]), hword]
    rfl
  have hlayer : ofLeBits 32 (slice content 20 4) = ofNat 32 layer := by
    have h := ofLeBits_slice (by decide) random (ofNat 32 layer) (leBits inSeqNo ++ leBits outSeqNo ++ rest)
    simpa [heq, hrandom, hword, append_assoc] using h
  have hseqIn : ofLeBits 32 (slice content 24 4) = inSeqNo := by
    have h := ofLeBits_slice (by decide) (random ++ leBits (ofNat 32 layer)) inSeqNo (leBits outSeqNo ++ rest)
    simpa [heq, hrandom, hword, append_assoc] using h
  have hseqOut : ofLeBits 32 (slice content 28 4) = outSeqNo := by
    have h := ofLeBits_slice (by decide) (random ++ leBits (ofNat 32 layer) ++ leBits inSeqNo) outSeqNo rest
    simpa [heq, hrandom, hword, append_assoc] using h
  unfold readLayerHeader
  rw [if_pos ⟨by omega, hfirst⟩, if_pos (by omega), hcnt, roundUpLength_15]
  dsimp only
  rw [if_pos (by omega)]
  simp only [Nat.reduceAdd, hlayer, hseqIn, hseqOut]

theorem toNat_and_one : (x &&& 1#32).toNat = x.toNat % 2 := by
  rw [BitVec.toNat_and]
  exact Nat.and_one_is_mod x.toNat

theorem and_one_double : x * 2#32 &&& 1#32 = 0#32 := by
  apply BitVec.eq_of_toNat_eq
  rw [toNat_and_one, toNat_mul]
  show x.toNat * 2 % 2 ^ 32 % 2 = 0
  omega

theorem and_one_double_add_one : x * 2#32 + 1#32 &&& 1#32 = 1#32 := by
  apply BitVec.eq_of_toNat_eq
  rw [toNat_and_one, toNat_add, toNat_mul]
  show (x.toNat * 2 % 2 ^ 32 + 1) % 2 ^ 32 % 2 = 1
  omega

theorem wrongParity_iff (layer : Nat) (isCreator role : Bool) (seqIn seqOut : BitVec 32) :
    (LayerHeader.mk layer (seqIn * 2 + (if isCreator then 0 else 1))
      (seqOut * 2 + (if isCreator then 1 else 0))).wrongParity role ↔ role = isCreator := by
  unfold LayerHeader.wrongParity
  cases role <;> cases isCreator <;> simp [and_one_double, and_one_double_add_one]

theorem tdiv_two_double {x bit : BitVec 32} (h : x.toNat < 2 ^ 30) (hbit : bit.toNat < 2) :
    (x * 2 + bit).toInt.tdiv 2 = x.toInt := by
  have hx : x.toInt = x.toNat := BitVec.toInt_eq_toNat_of_lt (by omega)
  have hnat : (x * 2 + bit).toNat = 2 * x.toNat + bit.toNat := by
    rw [toNat_add, toNat_mul]
    show (x.toNat * 2 % 2 ^ 32 + bit.toNat) % 2 ^ 32 = _
    omega
  rw [BitVec.toInt_eq_toNat_of_lt (by omega), hx, hnat, Int.tdiv_eq_ediv_of_nonneg (by omega)]
  omega

/-! ## The whole way -/

/-- The chat is known, with its participant, and has the key. -/
structure SecretChatRecord.Opens (chat : SecretChatRecord) (keyId : BitVec 64) (key : Bytes) : Prop where
  conversationId_ne : chat.conversationId ≠ 0
  participantId_ne : chat.participantId ≠ 0
  record : ∃ record, encryptionKeyForConversationId chat.keys keyId = some record ∧ record.keyId = keyId ∧
    record.key = key

section
variable {chat : SecretChatRecord} {keyId : BitVec 64} {key messageKey plaintext : Bytes}
  {keyData : MTMessageEncryptionKey}

theorem decryptEncryptedMessageData_sealed (hchat : chat.Opens keyId key) (hmsgKey : messageKey.length = 16)
    (hne : plaintext ≠ []) (hblocks : plaintext.length % 16 = 0) :
    decryptEncryptedMessageData crypto chat (sealedMessage crypto keyId messageKey keyData plaintext) =
      openMessage crypto chat key (sealedMessage crypto keyId messageKey keyData plaintext) := by
  obtain ⟨hknown, -, record, hrec, hid, rfl⟩ := hchat
  obtain ⟨hkeyId, -, -⟩ := sealedMessage_parts crypto keyId keyData plaintext hmsgKey
  have hpos : 0 < plaintext.length := List.length_pos_iff.mpr hne
  have hlen : (sealedMessage crypto keyId messageKey keyData plaintext).length = 24 + plaintext.length := by
    unfold sealedMessage
    rw [length_append, length_append, length_leBits, hmsgKey,
      length_mtAesEncryptInplace crypto.aes hne hblocks]
  unfold decryptEncryptedMessageData
  dsimp only
  rw [if_neg (by omega), if_neg hknown, hkeyId, hrec]
  dsimp only
  rw [if_neg (by rw [hid]; simp)]

end

section
variable (draws : MessageDraws) (isCreator : Bool) (action : SecretAction) (seqIn seqOut : BitVec 32)

/-- The plaintext of an action that carries a header. -/
def actionPlaintext : Bytes :=
  paddedMessage draws (73 ≤ action.layer) (serializedAction draws isCreator action seqIn seqOut)

theorem actionPlaintext_content : ∃ padding, (actionPlaintext draws isCreator action seqIn seqOut).drop 4 =
      layerHeader draws.headerBytes action.layer isCreator seqIn seqOut ++ (action.data ++ padding) := by
  obtain ⟨padding, hpadded, -⟩ :=
    paddedMessage_spec draws (73 ≤ action.layer) (serializedAction draws isCreator action seqIn seqOut)
  exact ⟨padding, by rw [actionPlaintext, hpadded, drop_withLength, serializedAction, append_assoc]⟩

variable {draws isCreator action seqIn seqOut} {chat : SecretChatRecord} (h17 : 17 ≤ action.layer)
  (hlayer : ((BitVec.ofNat 32 action.layer).signExtend 64).toNat = action.layer)

include h17 hlayer

theorem acceptMessageData_own (hchat : chat.isCreator = isCreator) (decryptedByV2 : Bool) :
    acceptMessageData chat decryptedByV2 (actionPlaintext draws isCreator action seqIn seqOut) = none := by
  obtain ⟨padding, hcont⟩ := actionPlaintext_content draws isCreator action seqIn seqOut
  have hmax : max 1 action.layer = action.layer := by omega
  unfold acceptMessageData
  dsimp only
  rw [hcont, readLayerHeader_layerHeader, hlayer, hmax,
    if_pos ⟨h17, (wrongParity_iff action.layer isCreator chat.isCreator seqIn seqOut).mpr hchat⟩]

theorem acceptMessageData_peer (hchat : chat.isCreator = !isCreator) (hparticipant : chat.participantId ≠ 0)
    (hin : seqIn.toNat < 2 ^ 30) (hout : seqOut.toNat < 2 ^ 30) :
    ∃ message, acceptMessageData chat (73 ≤ action.layer) (actionPlaintext draws isCreator action seqIn seqOut) =
        some message ∧ message.layer = action.layer ∧ message.seqIn = seqIn.toInt ∧ message.seqOut = seqOut.toInt ∧
      layerHeader draws.headerBytes action.layer isCreator seqIn seqOut ++ action.data <+: message.content := by
  obtain ⟨padding, hcont⟩ := actionPlaintext_content draws isCreator action seqIn seqOut
  have hmax : max 1 action.layer = action.layer := by omega
  have hparity := (wrongParity_iff action.layer isCreator chat.isCreator seqIn seqOut).not.mpr (by
    rw [hchat]
    exact Bool.not_ne_self isCreator)
  refine ⟨⟨layerHeader draws.headerBytes action.layer isCreator seqIn seqOut ++ (action.data ++ padding), action.layer,
    seqIn.toInt, seqOut.toInt⟩, ?_, rfl, rfl, rfl, ⟨padding, by rw [append_assoc]⟩⟩
  unfold acceptMessageData
  dsimp only
  rw [hcont, readLayerHeader_layerHeader, hlayer, hmax, if_neg (fun h => hparity h.2),
    if_neg (by simp), if_neg hparticipant, tdiv_two_double hin (by split <;> decide),
    tdiv_two_double hout (by split <;> decide)]

omit h17 hlayer

variable {key bytes : Bytes}

theorem openMessage_own (h17 : 17 ≤ action.layer)
    (hlayer : ((ofNat 32 action.layer).signExtend 64).toNat = action.layer) (hchat : chat.isCreator = isCreator)
    (h : ∀ v2 messageData, decryptMessageData crypto bytes key isCreator v2 = some messageData →
      messageData = actionPlaintext draws isCreator action seqIn seqOut) :
    openMessage crypto chat key bytes = none := by
  subst hchat
  unfold openMessage
  cases h2 : decryptMessageData crypto bytes key chat.isCreator true with
  | some messageData =>
    rw [h true messageData h2]
    dsimp only
    exact acceptMessageData_own h17 hlayer rfl true
  | none =>
    cases h1 : decryptMessageData crypto bytes key chat.isCreator false with
    | none => rfl
    | some messageData =>
      rw [h false messageData h1]
      dsimp only
      rw [Option.bind_some]
      exact acceptMessageData_own h17 hlayer rfl false

theorem openMessage_eq {messageData : Bytes}
    (hv1 : v2 = false → decryptMessageData crypto bytes key chat.isCreator true = none)
    (h : decryptMessageData crypto bytes key chat.isCreator v2 = some messageData) :
    openMessage crypto chat key bytes = acceptMessageData chat v2 messageData := by
  unfold openMessage
  cases v2 with
  | true => rw [h]
  | false =>
    rw [hv1 rfl, h]
    rfl

theorem requestForAction_eq {keys : List EncryptionKeyData} {record : EncryptionKeyData}
    (hrec : encryptionKeyForConversationId keys action.keyId = some record) (h17 : 17 ≤ action.layer) :
    requestForAction crypto draws keys isCreator action seqIn seqOut =
      encryptMessage crypto draws (serializedAction draws isCreator action seqIn seqOut) (some record.key) record.keyId
        isCreator (73 ≤ action.layer) := by
  unfold requestForAction
  dsimp only
  rw [if_pos h17, hrec]
  rfl

/-- **Secret messages arrive.** The bytes of an action of layer 17 or more are opened by the other role, with the layer
and the counts of the sender and with content that starts with its header and its data, and by the sender's own role
they are refused: there the sequence numbers have the wrong parity, as long as no other plaintext is found. -/
theorem requestForAction_roundTrip (draws : MessageDraws) (keys : List EncryptionKeyData) (isCreator : Bool)
    (action : SecretAction) (seqIn seqOut : BitVec 32) (record : EncryptionKeyData)
    (hrecord : encryptionKeyForConversationId keys action.keyId = some record) (hkey : record.key.length = 256)
    (h17 : 17 ≤ action.layer) (hlayer : ((BitVec.ofNat 32 action.layer).signExtend 64).toNat = action.layer)
    (hin : seqIn.toNat < 2 ^ 30) (hout : seqOut.toNat < 2 ^ 30)
    (hlen : (actionPlaintext draws isCreator action seqIn seqOut).length < 2 ^ 31) :
    ∃ bytes, requestForAction crypto draws keys isCreator action seqIn seqOut = .ok (some bytes) ∧
      ∀ chat : SecretChatRecord, chat.Opens record.keyId record.key →
        (action.layer < 73 → decryptMessageData crypto bytes record.key chat.isCreator true = none) →
        (chat.isCreator = !isCreator → ∃ message, decryptEncryptedMessageData crypto chat bytes = some message ∧
          message.layer = action.layer ∧ message.seqIn = seqIn.toInt ∧ message.seqOut = seqOut.toInt ∧
          layerHeader draws.headerBytes action.layer isCreator seqIn seqOut ++ action.data <+: message.content) ∧
        (chat.isCreator = isCreator →
          (73 ≤ action.layer → ∀ v2 messageData,
            decryptMessageData crypto bytes record.key isCreator v2 = some messageData →
              messageData = actionPlaintext draws isCreator action seqIn seqOut) →
          decryptEncryptedMessageData crypto chat bytes = none) := by
  have hne : record.key ≠ [] := List.length_pos_iff.mp (by omega)
  have hserialized : serializedAction draws isCreator action seqIn seqOut ≠ [] := by
    simp [serializedAction, layerHeader]
  obtain ⟨-, -, -, -, hblocks⟩ :=
    paddedMessage_spec draws (73 ≤ action.layer) (serializedAction draws isCreator action seqIn seqOut)
  obtain ⟨keyData, hdata, hencrypt⟩ := encryptMessage_eq crypto draws
    (serializedAction draws isCreator action seqIn seqOut) hne record.keyId isCreator (73 ≤ action.layer) hlen
  refine ⟨_, (requestForAction_eq crypto hrecord h17).trans hencrypt, ?_⟩
  intro chat hchat hv1
  rw [decryptEncryptedMessageData_sealed crypto hchat (length_sentMessageKey crypto _ _ _ _ _)
    (paddedMessage_ne_nil draws _ _) hblocks]
  constructor
  · intro hrole
    have hpeer := decryptMessageData_peer crypto record.keyId hserialized hlen hdata
    rw [← hrole] at hpeer
    rw [openMessage_eq crypto (fun h => hv1 (by simpa using h)) hpeer]
    exact acceptMessageData_peer h17 hlayer hrole hchat.participantId_ne hin hout
  · intro hrole hother
    apply openMessage_own crypto h17 hlayer hrole
    intro v2 messageData h
    by_cases h73 : 73 ≤ action.layer
    · exact hother h73 v2 messageData h
    · have hfalse : decide (73 ≤ action.layer) = false := decide_eq_false h73
      have hold := hv1 (by omega)
      unfold actionPlaintext
      rw [hfalse] at hdata h hold ⊢
      cases v2 with
      | true =>
          rw [hrole, h] at hold
          cases hold
      | false => exact decryptMessageData_own_v1 crypto record.keyId hdata h

end

theorem encryptMessage_tooLong (hkey : key ≠ []) (keyId : BitVec 64) (isCreator v2 : Bool) (hlen : 2 ^ 31 ≤ m.length) :
    encryptMessage crypto draws m (some key) keyId isCreator v2 = .error .tooLong := by
  obtain ⟨padding, hpadded, -⟩ := paddedMessage_spec draws v2 m
  obtain ⟨keyData, hdata⟩ := generateMessageKeyData_isSome crypto
    (sentMessageKey crypto draws m key isCreator v2) (!isCreator) v2 hkey
  have htotal : 2 ^ 31 ≤ (paddedMessage draws v2 m).length := by
    rw [hpadded, length_append, length_withLength]
    omega
  unfold encryptMessage
  simp only [Option.isNone_some, Bool.and_false, Bool.false_eq_true, if_false, Option.getD_some, hdata]
  rw [if_pos htotal]

theorem requestForAction_tooLong (keys : List EncryptionKeyData) (isCreator : Bool) (action : SecretAction)
    (seqIn seqOut : BitVec 32) (record : EncryptionKeyData)
    (hrec : encryptionKeyForConversationId keys action.keyId = some record) (hkey : record.key ≠ [])
    (h17 : 17 ≤ action.layer) (hlen : 2 ^ 31 ≤ action.data.length) :
    requestForAction crypto draws keys isCreator action seqIn seqOut = .error .tooLong := by
  rw [requestForAction_eq crypto hrec h17]
  apply encryptMessage_tooLong crypto draws _ hkey
  rw [serializedAction, length_append]
  omega

end

/-! ## A message of the creator -/

/-- Digests that do not depend on the data, and a cipher that changes nothing. -/
def fixedCrypto : SecretCrypto where
  mtSha256 _ := Vector.replicate 32 1
  aes := identityAes (Block 32)
  mtSha1 _ := Vector.replicate 20 0

/-- A SHA-256 that tells the two directions of `markedKey` apart, in the fifth byte only. -/
def markedCrypto : SecretCrypto where
  mtSha256 data := if data.getD 0 0 = 1 then (Vector.replicate 32 0).set 4 1 else Vector.replicate 32 0
  aes := identityAes (Block 32)
  mtSha1 _ := Vector.replicate 20 0

def markedKey : Bytes := List.replicate 48 0 ++ [1] ++ List.replicate 207 0

/-- A client of a chat with the key `markedKey`. -/
def markedChat (isCreator : Bool) : SecretChatRecord := ⟨1, [⟨5, markedKey, 0⟩], isCreator, 9⟩

theorem markedChat_opens (isCreator : Bool) : (markedChat isCreator).Opens 5 markedKey where
  conversationId_ne := show (1 : BitVec 64) ≠ 0 by decide
  participantId_ne := show (9 : BitVec 32) ≠ 0 by decide
  record := ⟨⟨5, markedKey, 0⟩, rfl, rfl, rfl⟩

def fixedDraws : MessageDraws := ⟨Vector.replicate 15 3, Vector.replicate 128 4, 50⟩

def shortAction (layer : Nat) : SecretAction := ⟨layer, 5, [1, 2, 3, 4]⟩

def sentBytes (crypto : SecretCrypto) (layer : Nat) : Bytes :=
  match requestForAction crypto fixedDraws (markedChat true).keys true (shortAction layer) 11 12 with
  | .ok (some bytes) => bytes
  | _ => []

/-- In layer 46, with version 1, and in layer 73, with version 2. -/
theorem shortAction_roundTrip :
    (∃ message, decryptEncryptedMessageData fixedCrypto (markedChat false) (sentBytes fixedCrypto 46) = some message ∧
      message.layer = 46 ∧ message.seqIn = 11 ∧ message.seqOut = 12) ∧
    decryptEncryptedMessageData fixedCrypto (markedChat true) (sentBytes fixedCrypto 46) = none ∧
    (∃ message, decryptEncryptedMessageData fixedCrypto (markedChat false) (sentBytes fixedCrypto 73) = some message ∧
      message.layer = 73 ∧ message.seqIn = 11 ∧ message.seqOut = 12) ∧
    decryptEncryptedMessageData fixedCrypto (markedChat true) (sentBytes fixedCrypto 73) = none := by
  obtain ⟨bytes46, hbytes46, h46⟩ := requestForAction_roundTrip fixedCrypto fixedDraws (markedChat true).keys true
    (shortAction 46) 11 12 ⟨5, markedKey, 0⟩ rfl (by decide +kernel) (by decide) (by decide) (by decide) (by decide)
    (by decide +kernel)
  obtain ⟨bytes73, hbytes73, h73⟩ := requestForAction_roundTrip fixedCrypto fixedDraws (markedChat true).keys true
    (shortAction 73) 11 12 ⟨5, markedKey, 0⟩ rfl (by decide +kernel) (by decide) (by decide) (by decide) (by decide)
    (by decide +kernel)
  have hsent46 : sentBytes fixedCrypto 46 = bytes46 := by
    unfold sentBytes
    rw [hbytes46]
  have hsent73 : sentBytes fixedCrypto 73 = bytes73 := by
    unfold sentBytes
    rw [hbytes73]
  rw [← hsent46] at h46
  rw [← hsent73] at h73
  have hv1 : ∀ isCreator, decryptMessageData fixedCrypto (sentBytes fixedCrypto 46) markedKey isCreator true = none := by
    decide +kernel
  have hother : ∀ v2, (decryptMessageData fixedCrypto (sentBytes fixedCrypto 73) markedKey true v2).getD
      (actionPlaintext fixedDraws true (shortAction 73) 11 12) =
        actionPlaintext fixedDraws true (shortAction 73) 11 12 := by
    decide +kernel
  obtain ⟨message46, hopen46, hlayer46, hin46, hout46, -⟩ :=
    (h46 (markedChat false) (markedChat_opens false) fun _ => hv1 false).1 rfl
  obtain ⟨message73, hopen73, hlayer73, hin73, hout73, -⟩ :=
    (h73 (markedChat false) (markedChat_opens false) fun h => absurd h (by decide)).1 rfl
  refine ⟨⟨message46, hopen46, hlayer46, hin46, hout46⟩, ?_, ⟨message73, hopen73, hlayer73, hin73, hout73⟩, ?_⟩
  · exact (h46 (markedChat true) (markedChat_opens true) fun _ => hv1 true).2 rfl fun h => absurd h (by decide)
  · refine (h73 (markedChat true) (markedChat_opens true) fun h => absurd h (by decide)).2 rfl fun _ v2 data h => ?_
    have hdata := hother v2
    rwa [h] at hdata

/-- The sender's own role opens a message: it finds a plaintext with another signature and the same message key, so that
no header is checked. A layer beyond an `int32_t` is reported as another one, and no message of 2^31 bytes is sent. -/
theorem own_role_opens :
    markedKey.length = 256 ∧ (markedChat true).Opens 5 markedKey ∧
    (decryptEncryptedMessageData markedCrypto (markedChat true) (sentBytes markedCrypto 73)).isSome = true ∧
    (decryptEncryptedMessageData fixedCrypto (markedChat false) (sentBytes fixedCrypto (2 ^ 32 + 17))).map
      OpenedMessage.layer = some 17 ∧
    requestForAction fixedCrypto fixedDraws (markedChat true).keys true ⟨73, 5, List.replicate (2 ^ 31) 0⟩ 11 12 =
      .error .tooLong := by
  refine ⟨by decide +kernel, markedChat_opens true, by decide +kernel, by decide +kernel, ?_⟩
  apply requestForAction_tooLong fixedCrypto fixedDraws (markedChat true).keys true _ 11 12 ⟨5, markedKey, 0⟩ rfl
  · simp [markedKey]
  · decide
  · show 2 ^ 31 ≤ (List.replicate (2 ^ 31) (0 : UInt8)).length
    rw [List.length_replicate]

end TelegramClient.Secret
