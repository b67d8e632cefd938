import TelegramClient.VoIP.PacketRoundTrip

/-!
# What the message key of a call packet says about its payload

The message key of MTProto 2 is a digest of the bytes behind the length field, for the sender and for the receiver. The
receiver reads the length from the field that the digest leaves out.

* `receivedMsgKey`, `received2` : the message key of a datagram, and what it is decrypted to;
* `Opened2`, `opened2_of_processIncomingPacket` : an accepted datagram, in MTProto 2 or after the fallback to it;
* **`payload_bound`** : two accepted datagrams with one message key deliver prefixes of the same bytes.
-/

namespace TelegramClient.VoIP.CallCipher

open MtProto Secret

def receivedMsgKey (buffer : Bytes) : Bytes := slice buffer (16 + 8) 16

/-- `innerLen`, as the receiver reads it. -/
def innerLen (decrypted : Bytes) : Nat := (ofLeBits 32 (slice decrypted 0 4)).toNat

section
variable (crypto : SecretCrypto)

/-- `decrypted` in the part for MTProto 2. -/
def received2 (r : CallCipher) (buffer : Bytes) : Bytes :=
  r.decrypted crypto true (receivedMsgKey buffer) (buffer.drop (16 + 8 + 16))

def receivedInput (r : CallCipher) (buffer : Bytes) : HashInput :=
  hashInput2 r.encryptionKey (offset (!r.isOutgoing)) (r.received2 crypto buffer)

structure Opened2 (r : CallCipher) (buffer payload : Bytes) : Prop where
  msgKey : receivedMsgKey buffer = (r.receivedInput crypto buffer).msgKey crypto
  innerLen_le : innerLen (r.received2 crypto buffer) ≤ (r.received2 crypto buffer).length - 4
  payload_eq : payload = slice (r.received2 crypto buffer) 4 (innerLen (r.received2 crypto buffer))

variable {r : CallCipher} {plaintext payload : Bytes} {v2 : Bool}

theorem checkDecrypted2_opened {msgKey : Bytes} (h : checkDecrypted2 crypto r msgKey plaintext = .opened payload v2) :
    msgKey = (hashInput2 r.encryptionKey (offset (!r.isOutgoing)) plaintext).msgKey crypto ∧
      innerLen plaintext ≤ plaintext.length - 4 ∧ payload = slice plaintext 4 (innerLen plaintext) := by
  unfold checkDecrypted2 at h
  rw [← offset_not] at h
  dsimp only at h
  split at h
  case isTrue => cases h
  case isFalse hhash =>
    split at h
    case isTrue => cases h
    case isFalse hlen =>
      split at h
      · cases h
      · injection h with hpay
        exact ⟨not_not.mp hhash, Nat.not_lt.mp hlen, hpay.symm⟩

variable {buffer : Bytes}

theorem opened2_of_openPacket2 (h : openPacket2 crypto r buffer = .opened payload v2) :
    r.Opened2 crypto buffer payload := by
  unfold openPacket2 at h
  rw [← offset_not] at h
  dsimp only at h
  split at h
  · cases h
  split at h
  · cases h
  obtain ⟨hmsgKey, hlen, hpay⟩ := checkDecrypted2_opened crypto h
  exact ⟨hmsgKey, hlen, hpay⟩

theorem opened2_of_processIncomingPacket {srcEndpoint : Endpoint}
    (h : processIncomingPacket crypto r srcEndpoint buffer = .opened payload true) :
    r.Opened2 crypto buffer payload := by
  unfold processIncomingPacket at h
  split at h
  · cases h
  split at h
  · cases h
  split at h
  · cases h
  split at h
  · exact opened2_of_openPacket2 crypto h
  · -- The older mode gives way to MTProto 2 before the peer is known.
    unfold openPacket at h
    rw [← offset_not] at h
    dsimp only at h
    split at h
    · cases h
    split at h
    · split at h
      · exact opened2_of_openPacket2 crypto h
      · cases h
    · cases h

theorem Opened2.payload_eq_take (h : r.Opened2 crypto buffer payload) :
    payload = ((r.received2 crypto buffer).drop 4).take (innerLen (r.received2 crypto buffer)) := h.payload_eq

theorem drop_received2_of_receivedInput {r' : CallCipher} (hkey : r'.encryptionKey = r.encryptionKey)
    (hdir : r'.isOutgoing = r.isOutgoing) {buffer' : Bytes}
    (h : r.receivedInput crypto buffer = r'.receivedInput crypto buffer') :
    (r.received2 crypto buffer).drop 4 = (r'.received2 crypto buffer').drop 4 := by
  unfold receivedInput hashInput2 at h
  rw [hkey, hdir] at h
  exact List.append_cancel_left (HashInput.sha256.inj h)

/-- Two datagrams with the same message key that one side accepts, possibly in different states of the call: where the
digests of the two do not collide, the payloads are prefixes of the same bytes, as long as the length fields say. Equal
length fields make them equal. -/
theorem payload_bound {r r' : CallCipher} (hkey : r'.encryptionKey = r.encryptionKey)
    (hdirection : r'.isOutgoing = r.isOutgoing) {srcEndpoint srcEndpoint' : Endpoint}
    {buffer buffer' payload payload' : Bytes}
    (hopened : processIncomingPacket crypto r srcEndpoint buffer = .opened payload true)
    (hopened' : processIncomingPacket crypto r' srcEndpoint' buffer' = .opened payload' true)
    (hmsgKey : receivedMsgKey buffer = receivedMsgKey buffer')
    (hinjective : (r.receivedInput crypto buffer).msgKey crypto = (r'.receivedInput crypto buffer').msgKey crypto →
      r.receivedInput crypto buffer = r'.receivedInput crypto buffer') :
    ∃ bytes, bytes = (r.received2 crypto buffer).drop 4 ∧ bytes = (r'.received2 crypto buffer').drop 4 ∧
      payload = bytes.take (innerLen (r.received2 crypto buffer)) ∧
      payload' = bytes.take (innerLen (r'.received2 crypto buffer')) ∧
      (payload <+: payload' ∨ payload' <+: payload) ∧
      (innerLen (r.received2 crypto buffer) = innerLen (r'.received2 crypto buffer') → payload = payload') := by
  have h := opened2_of_processIncomingPacket crypto hopened
  have h' := opened2_of_processIncomingPacket crypto hopened'
  have hsame : (r.receivedInput crypto buffer).msgKey crypto = (r'.receivedInput crypto buffer').msgKey crypto := by
    rw [← h.msgKey, ← h'.msgKey, hmsgKey]
  have hbytes := drop_received2_of_receivedInput crypto hkey hdirection (hinjective hsame)
  have hpayload := h.payload_eq_take
  have hpayload' := h'.payload_eq_take
  rw [← hbytes] at hpayload'
  refine ⟨_, rfl, hbytes, hpayload, hpayload', ?_, fun hlen => ?_⟩
  · rw [hpayload, hpayload']
    exact List.prefix_or_prefix_of_prefix (List.take_prefix _ _) (List.take_prefix _ _)
  · rw [hpayload, hpayload', hlen]

/-! ## A datagram for every plaintext -/

/-- The message key under which the receiver accepts these bytes. -/
def msgKeyFor (r : CallCipher) (plaintext : Bytes) : Bytes :=
  (hashInput2 r.encryptionKey (offset (!r.isOutgoing)) plaintext).msgKey crypto

def bodyFor (r : CallCipher) (plaintext : Bytes) : Bytes :=
  let keys := kdf2 crypto r.encryptionKey (r.msgKeyFor crypto plaintext) (offset (!r.isOutgoing))
  mtAesEncryptInplace crypto.aes plaintext keys.key keys.iv

/-- A datagram that the receiver decrypts to these bytes. -/
def datagramFor (r : CallCipher) (srcEndpoint : Endpoint) (plaintext : Bytes) : Bytes :=
  r.parts crypto (r.tag crypto srcEndpoint) (r.msgKeyFor crypto plaintext) (r.bodyFor crypto plaintext)

@[simp] theorem length_msgKeyFor (r : CallCipher) (plaintext : Bytes) : (r.msgKeyFor crypto plaintext).length = 16 :=
  length_msgKey crypto _

theorem receivedMsgKey_datagramFor (r : CallCipher) (srcEndpoint : Endpoint) (plaintext : Bytes) :
    receivedMsgKey (r.datagramFor crypto srcEndpoint plaintext) = r.msgKeyFor crypto plaintext :=
  (slice_parts crypto _ (length_tag crypto r srcEndpoint) (length_msgKeyFor crypto r plaintext) r).2.2.1

section
variable (r : CallCipher) (srcEndpoint : Endpoint) {plaintext : Bytes} (hne : plaintext ≠ [])
  (hmod : plaintext.length % 16 = 0)
include hne hmod

theorem length_bodyFor : (r.bodyFor crypto plaintext).length = plaintext.length :=
  length_mtAesEncryptInplace crypto.aes hne hmod _ _

theorem decrypted_bodyFor :
    r.decrypted crypto true (r.msgKeyFor crypto plaintext) (r.bodyFor crypto plaintext) = plaintext :=
  mtAesDecrypt_mtAesEncryptInplace crypto.aes hne hmod _ _

theorem received2_datagramFor : r.received2 crypto (r.datagramFor crypto srcEndpoint plaintext) = plaintext := by
  unfold received2
  rw [receivedMsgKey_datagramFor, datagramFor,
    (slice_parts crypto _ (length_tag crypto r srcEndpoint) (length_msgKeyFor crypto r plaintext) r).2.2.2,
    decrypted_bodyFor crypto r hne hmod]

theorem processIncomingPacket_datagramFor (hmode : r.useMTProto2 = true) (hdirect : srcEndpoint.isRelay = false)
    (hlen : plaintext.length ≤ 1500) :
    processIncomingPacket crypto r srcEndpoint (r.datagramFor crypto srcEndpoint plaintext) =
      checkDecrypted2 crypto r (r.msgKeyFor crypto plaintext) plaintext := by
  have hbody := length_bodyFor crypto r hne hmod
  have hpos := List.length_pos_iff.mpr hne
  have htag := length_tag crypto r srcEndpoint
  have hmsgKey := length_msgKeyFor crypto r plaintext
  have hmark : srcEndpoint.isRelay = true → slice (r.datagramFor crypto srcEndpoint plaintext) 16 12 ≠
      List.replicate 12 0xFF := fun h => absurd (hdirect.symm.trans h) Bool.false_ne_true
  rw [datagramFor] at hmark ⊢
  rw [processIncomingPacket_parts crypto _ htag hmsgKey rfl hmark (by omega), if_pos hmode,
    openPacket2_parts crypto _ htag hmsgKey rfl (by omega), decrypted_bodyFor crypto r hne hmod]

end

theorem checkDecrypted2_of_innerLen (r : CallCipher) (hlen : innerLen plaintext ≤ plaintext.length - 4)
    (hpad : 12 ≤ plaintext.length - innerLen plaintext) :
    checkDecrypted2 crypto r (r.msgKeyFor crypto plaintext) plaintext =
      .opened (slice plaintext 4 (innerLen plaintext)) true := by
  have hhash : ¬r.msgKeyFor crypto plaintext ≠
      messageKeyV2 crypto r.encryptionKey.toList (offset (!r.isOutgoing)) (plaintext.drop 4) := not_not.mpr rfl
  unfold checkDecrypted2
  unfold innerLen at hlen hpad ⊢
  rw [← offset_not]
  dsimp only
  rw [if_neg hhash, if_neg (Nat.not_lt.mpr hlen), if_neg (Nat.not_lt.mpr hpad)]

end

/-! ## Two datagrams with one message key -/

def plaintextOf (innerLen : Nat) : Bytes := leBytes 4 innerLen ++ List.replicate 28 7

def receiver : CallCipher := cipherWith oneBitKey false true

def datagramOf (innerLen : Nat) : Bytes := receiver.datagramFor residueCrypto directEndpoint (plaintextOf innerLen)

theorem plaintextOf_ne_nil (innerLen : Nat) : plaintextOf innerLen ≠ [] := by simp [plaintextOf]

@[simp] theorem length_plaintextOf (innerLen : Nat) : (plaintextOf innerLen).length = 32 := by simp [plaintextOf]

theorem received2_datagramOf (innerLen : Nat) :
    receiver.received2 residueCrypto (datagramOf innerLen) = plaintextOf innerLen :=
  received2_datagramFor residueCrypto receiver directEndpoint (plaintextOf_ne_nil _) (by rw [length_plaintextOf])

theorem receivedInput_datagramOf (n n' : Nat) :
    receiver.receivedInput residueCrypto (datagramOf n) = receiver.receivedInput residueCrypto (datagramOf n') := by
  rw [receivedInput, receivedInput, received2_datagramOf, received2_datagramOf, hashInput2, hashInput2]
  rfl

theorem receivedMsgKey_datagramOf (n n' : Nat) : receivedMsgKey (datagramOf n) = receivedMsgKey (datagramOf n') := by
  rw [datagramOf, datagramOf, receivedMsgKey_datagramFor, receivedMsgKey_datagramFor]
  rfl

theorem processIncomingPacket_datagramOf {n : Nat} (h : innerLen (plaintextOf n) ≤ 20) :
    processIncomingPacket residueCrypto receiver directEndpoint (datagramOf n) =
      .opened (slice (plaintextOf n) 4 (innerLen (plaintextOf n))) true := by
  have hlen := length_plaintextOf n
  rw [datagramOf, processIncomingPacket_datagramFor residueCrypto receiver directEndpoint (plaintextOf_ne_nil n)
    (by rw [hlen]) rfl rfl (by omega)]
  exact checkDecrypted2_of_innerLen residueCrypto receiver (by omega) (by omega)

theorem payload_bound_short :
    receivedMsgKey (datagramOf 3) = receivedMsgKey (datagramOf 20) ∧
      ∃ bytes, bytes = (receiver.received2 residueCrypto (datagramOf 3)).drop 4 ∧
        slice (plaintextOf 20) 4 20 = bytes.take (innerLen (receiver.received2 residueCrypto (datagramOf 20))) := by
  have hmsgKey := receivedMsgKey_datagramOf 3 20
  obtain ⟨bytes, heq, -, -, htake, -, -⟩ := payload_bound residueCrypto rfl rfl
    (processIncomingPacket_datagramOf (n := 3) (by decide)) (processIncomingPacket_datagramOf (n := 20) (by decide))
    hmsgKey fun _ => receivedInput_datagramOf 3 20
  exact ⟨hmsgKey, bytes, heq, htake⟩

/-- The digests of these two are of the same bytes, and the payloads differ. The longer one has eight bytes of padding. -/
theorem payload_not_bound :
    receivedMsgKey (datagramOf 3) = receivedMsgKey (datagramOf 20) ∧
      receiver.receivedInput residueCrypto (datagramOf 3) = receiver.receivedInput residueCrypto (datagramOf 20) ∧
      processIncomingPacket residueCrypto receiver directEndpoint (datagramOf 3) = .opened (List.replicate 3 7) true ∧
      processIncomingPacket residueCrypto receiver directEndpoint (datagramOf 20) = .opened (List.replicate 20 7) true ∧
      (receiver.received2 residueCrypto (datagramOf 20)).length = 4 + 20 + 8 :=
  ⟨receivedMsgKey_datagramOf 3 20, receivedInput_datagramOf 3 20, processIncomingPacket_datagramOf (n := 3) (by decide),
    processIncomingPacket_datagramOf (n := 20) (by decide), by rw [received2_datagramOf, length_plaintextOf]⟩

end TelegramClient.VoIP.CallCipher
