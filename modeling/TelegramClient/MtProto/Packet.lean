import TelegramClient.MtProto.Encryption
import TelegramClient.MtProto.InternalMessage

/-!
# Incoming packets: `_decryptIncomingTransportData:address:`

* `cutLength` : how much of a packet the function decrypts; below `2^31` bytes it is every whole block
  (`cutLength_of_lt`), from there on the 32-bit length wraps around;
* `returns_iff` : the packets that it returns a plaintext for, with the padding computed as the function does;
* `Misjudged` : where the two differ, and `decryptIncoming_meets_wellFormed_iff`: nowhere else.
-/

namespace TelegramClient.MtProto

/-- `subdataWithRange:` with a signed length: a negative one becomes an `NSUInteger` above every length. -/
def subdataWithRange (data : Bytes) (offset : Nat) (length : Int) : Except Fault Bytes :=
  if length < 0 then .error .raised else dataInRange data offset length.toNat

/-- `((int32_t)(transportData.length - 24)) & (~15)`. -/
def cutLength (transportData : Bytes) : Int :=
  (BitVec.ofNat 32 (transportData.length - 24) &&& ~~~15#32).toInt

/-- `_decryptIncomingTransportData:address:`; `.ok none` is `nil`, a fault a raised exception. -/
def decryptIncomingTransportData (crypto : Crypto) (auth : AuthState) (preferForMedia : Bool)
    (transportData : Bytes) : Except Fault (Option Bytes) :=
  match auth.effectiveAuthKey preferForMedia with
  | none => .ok none
  | some effectiveAuthKey =>
    if transportData.length < 24 + 36 then .ok none
    else if ofLeBits 64 (slice transportData 0 8) ≠ effectiveAuthKey.authKeyId then .ok none
    else
      let embeddedMessageKey := slice transportData 8 16
      match effectiveAuthKey.authKey,
          messageEncryptionKeyV2 crypto effectiveAuthKey.authKey embeddedMessageKey true with
      | some authKey, some encryptionKey => do
        let dataToDecrypt ← subdataWithRange transportData 24 (cutLength transportData)
        let decryptedData := mtAesDecrypt crypto.aes dataToDecrypt encryptionKey.key encryptionKey.iv
        let messageDataLength := ofLeBits 32 (← dataInRange decryptedData 28 4)
        let decryptedLength := BitVec.ofNat 32 decryptedData.length
        let paddingLength := decryptedLength - messageDataLength
        if paddingLength.toInt < 12 ∨ paddingLength.toInt > 1024 then return none
        else if messageDataLength.toInt < 0 ∨ messageDataLength.toInt > decryptedLength.toInt then return none
        else
          let messageKey := slice (msgKeyLarge crypto authKey 8 decryptedData) 8 16
          if messageKey ≠ embeddedMessageKey then return none
          else return some decryptedData
      | _, _ => .ok none

/-! ## What the protocol admits -/

/-- The AES key and iv of a packet for the client. -/
def packetKey (crypto : Crypto) (authKey : Block 256) (packet : Bytes) : MTMessageEncryptionKey :=
  (messageEncryptionKeyV2 crypto (some authKey) (slice packet 8 16) true).getD
    ⟨Vector.replicate 32 0, Vector.replicate 32 0⟩

/-- The decryption of the first `n` bytes after the key id and the message key. -/
def plaintextOf (crypto : Crypto) (authKey : Block 256) (packet : Bytes) (n : Nat) : Bytes :=
  igePlaintext crypto.aes (packetKey crypto authKey packet).key (packetKey crypto authKey packet).iv
    (slice packet 24 n)

/-- The packet carries the key's id, and the message key is that of `plaintext`. -/
structure Authentic (crypto : Crypto) (authKey : Block 256) (authKeyId : BitVec 64) (packet plaintext : Bytes) :
    Prop where
  length_ge : 60 ≤ packet.length
  authKeyId_eq : ofLeBits 64 (slice packet 0 8) = authKeyId
  msgKey_eq : slice (msgKeyLarge crypto authKey 8 plaintext) 8 16 = slice packet 8 16

def messageLength (plaintext : Bytes) : Int := (ofLeBits 32 (slice plaintext 28 4)).toInt

/-- What is left of a plaintext after the header and the message. -/
def realPadding (plaintext : Bytes) : Int := plaintext.length - 32 - messageLength plaintext

/-- The plaintext of all whole blocks of a packet. -/
def wholePlaintext (crypto : Crypto) (authKey : Block 256) (packet : Bytes) : Bytes :=
  plaintextOf crypto authKey packet (16 * ((packet.length - 24) / 16))

/-- **The packets that the protocol admits.** -/
def WellFormed (crypto : Crypto) (auth : AuthState) (preferForMedia : Bool) (packet : Bytes) : Prop :=
  ∃ authKey authKeyId notBound, auth.effectiveAuthKey preferForMedia = some ⟨some authKey, authKeyId, notBound⟩ ∧
    let plaintext := wholePlaintext crypto authKey packet
    Authentic crypto authKey authKeyId packet plaintext ∧ 0 ≤ messageLength plaintext ∧
      12 ≤ realPadding plaintext ∧ realPadding plaintext ≤ 1024

/-- The packets on which the function and the protocol differ. Below 2 GiB of ciphertext their padding is in one window
and not in the other. -/
def Misjudged (crypto : Crypto) (auth : AuthState) (preferForMedia : Bool) (packet : Bytes) : Prop :=
  ∃ authKey authKeyId notBound, auth.effectiveAuthKey preferForMedia = some ⟨some authKey, authKeyId, notBound⟩ ∧
    let whole := wholePlaintext crypto authKey packet
    let wrapped := plaintextOf crypto authKey packet (cutLength packet).toNat
    if packet.length - 24 < 2 ^ 31 then
      Authentic crypto authKey authKeyId packet whole ∧ 0 ≤ messageLength whole ∧
        (-20 ≤ realPadding whole ∧ realPadding whole < 12 ∨ 992 < realPadding whole ∧ realPadding whole ≤ 1024)
    else if packet.length - 24 < 2 ^ 32 then
      Authentic crypto authKey authKeyId packet whole ∧ 0 ≤ messageLength whole ∧
        12 ≤ realPadding whole ∧ realPadding whole ≤ 1024
    else
      Authentic crypto authKey authKeyId packet wrapped ∧ 32 ≤ cutLength packet ∧ 0 ≤ messageLength wrapped ∧
        12 ≤ realPadding wrapped + 32 ∧ realPadding wrapped + 32 ≤ 1024

/-! ## The part that is decrypted -/

theorem and_not_15 (n : Nat) : (BitVec.ofNat 32 n &&& ~~~15#32).toNat = 16 * (n % 2 ^ 32 / 16) := by
  have hshift : BitVec.ofNat 32 n &&& ~~~15#32 = (BitVec.ofNat 32 n >>> 4) <<< 4 := by
    apply BitVec.eq_of_getLsbD_eq
    intro i hi
    simp only [BitVec.getLsbD_and, BitVec.getLsbD_not, BitVec.getLsbD_shiftLeft, BitVec.getLsbD_ushiftRight]
    by_cases h : i < 4
    · have : i = 0 ∨ i = 1 ∨ i = 2 ∨ i = 3 := by omega
      rcases this with rfl | rfl | rfl | rfl <;> simp
    · have hbit : (15#32).getLsbD i = false := by
        rw [BitVec.getLsbD_ofNat]
        have : Nat.testBit 15 i = false := Nat.testBit_lt_two_pow (by
          calc 15 < 2 ^ 4 := by norm_num
            _ ≤ 2 ^ i := Nat.pow_le_pow_right (by norm_num) (by omega))
        simp [this]
      rw [hbit, show 4 + (i - 4) = i by omega]
      simp [hi, h]
  rw [hshift, BitVec.toNat_shiftLeft, BitVec.toNat_ushiftRight, BitVec.toNat_ofNat, Nat.shiftRight_eq_div_pow,
    Nat.shiftLeft_eq]
  omega

/-- The cut as an `int32_t`, from the whole blocks of the length modulo `2^32`. -/
theorem cutLength_eq (packet : Bytes) {c : Nat} (hc : 16 * ((packet.length - 24) % 2 ^ 32 / 16) = c) :
    cutLength packet = if c < 2 ^ 31 then (c : Int) else (c : Int) - 2 ^ 32 := by
  rw [cutLength, BitVec.toInt_eq_toNat_cond, and_not_15, hc]
  by_cases h : c < 2 ^ 31
  · rw [if_pos h, if_pos (by omega)]
  · rw [if_neg h, if_neg (by omega)]
    norm_num

variable {packet : Bytes}

theorem cutLength_of_lt (h : packet.length - 24 < 2 ^ 31) :
    cutLength packet = (16 * ((packet.length - 24) / 16) : Nat) := by
  rw [cutLength_eq packet rfl, Nat.mod_eq_of_lt (by omega), if_pos (by omega)]

theorem cutLength_neg (h : 2 ^ 31 ≤ packet.length - 24) (h' : packet.length - 24 < 2 ^ 32) : cutLength packet < 0 := by
  rw [cutLength_eq packet rfl, Nat.mod_eq_of_lt (by omega), if_neg (by omega)]
  omega

theorem cutLength_bounds (h : 0 ≤ cutLength packet) :
    (cutLength packet).toNat % 16 = 0 ∧ (cutLength packet).toNat < 2 ^ 31 ∧
      (cutLength packet).toNat ≤ packet.length - 24 := by
  have hmod := Nat.mod_le (packet.length - 24) (2 ^ 32)
  have heq := cutLength_eq packet rfl
  by_cases hc : 16 * ((packet.length - 24) % 2 ^ 32 / 16) < 2 ^ 31
  · rw [if_pos hc] at heq
    rw [heq, Int.toNat_natCast]
    omega
  · rw [if_neg hc] at heq
    omega

/-! ## The packets that are returned -/

theorem lengthChecks_iff {a n : BitVec 32} (ha : 0 ≤ a.toInt) :
    (¬ ((a - n).toInt < 12 ∨ (a - n).toInt > 1024) ∧ ¬ (n.toInt < 0 ∨ n.toInt > a.toInt)) ↔
      0 ≤ n.toInt ∧ 12 ≤ a.toInt - n.toInt ∧ a.toInt - n.toInt ≤ 1024 := by
  have halt : a.toInt < 2 ^ 31 := BitVec.toInt_lt
  have hnlt : n.toInt < 2 ^ 31 := BitVec.toInt_lt
  have hsub (hn : 0 ≤ n.toInt) : (a - n).toInt = a.toInt - n.toInt := by
    rw [BitVec.toInt_sub]
    exact Int.bmod_eq_of_le (by omega) (by omega)
  constructor
  · rintro ⟨hpad, hn⟩
    rw [hsub (by omega)] at hpad
    omega
  · rintro ⟨hn, hlow, hhigh⟩
    rw [hsub hn]
    omega

theorem messageEncryptionKeyV2_packet (crypto : Crypto) (authKey : Block 256) (h : 60 ≤ packet.length) :
    messageEncryptionKeyV2 crypto (some authKey) (slice packet 8 16) true = some (packetKey crypto authKey packet) := by
  have hlen : (slice packet 8 16).length = 16 := length_slice (by omega)
  unfold packetKey messageEncryptionKeyV2
  dsimp only
  rw [if_neg (by omega)]
  rfl

theorem length_plaintextOf (crypto : Crypto) (authKey : Block 256) {n : Nat} (h : n ≤ packet.length - 24)
    (h24 : 24 ≤ packet.length) : (plaintextOf crypto authKey packet n).length = 16 * (n / 16) := by
  rw [plaintextOf, length_igePlaintext, length_slice (by omega)]

variable {crypto : Crypto} {auth : AuthState} {preferForMedia : Bool}

variable {authKeyId : BitVec 64} {notBound : Bool}

variable {authKey : Block 256}

section
variable (hkey : auth.effectiveAuthKey preferForMedia = some ⟨some authKey, authKeyId, notBound⟩)
include hkey

theorem decryptIncoming_of_cut (hlen : 60 ≤ packet.length) (hid : ofLeBits 64 (slice packet 0 8) = authKeyId)
    (hcut : 0 ≤ cutLength packet) : decryptIncomingTransportData crypto auth preferForMedia packet =
      let plaintext := plaintextOf crypto authKey packet (cutLength packet).toNat
      if cutLength packet < 32 then .error .raised
      else if 0 ≤ messageLength plaintext ∧ 12 ≤ realPadding plaintext + 32 ∧ realPadding plaintext + 32 ≤ 1024 ∧
          slice (msgKeyLarge crypto authKey 8 plaintext) 8 16 = slice packet 8 16 then .ok (some plaintext)
      else .ok none := by
  obtain ⟨hmod, hlt, hle⟩ := cutLength_bounds hcut
  set c := (cutLength packet).toNat with hc
  set plaintext := plaintextOf crypto authKey packet c with hplain
  have hslice : (slice packet 24 c).length = c := length_slice (by omega)
  have hsub : subdataWithRange packet 24 (cutLength packet) = .ok (slice packet 24 c) := by
    unfold subdataWithRange dataInRange
    rw [if_neg (by omega), if_neg (by omega)]
  have hdecrypt : mtAesDecrypt crypto.aes (slice packet 24 c) (packetKey crypto authKey packet).key
      (packetKey crypto authKey packet).iv = plaintext :=
    mtAesDecrypt_eq crypto.aes (by omega) _ _
  have hplen : plaintext.length = c := by
    rw [hplain, length_plaintextOf crypto authKey hle (by omega)]
    omega
  unfold decryptIncomingTransportData
  rw [hkey]
  dsimp only
  rw [if_neg (by omega), if_neg (by simpa using hid), messageEncryptionKeyV2_packet crypto authKey hlen]
  dsimp only
  rw [hsub]
  change (do
    let messageDataLength := ofLeBits 32 (← dataInRange (mtAesDecrypt crypto.aes (slice packet 24 c) _ _) 28 4)
    _) = _
  rw [hdecrypt]
  by_cases hshort : cutLength packet < 32
  · rw [if_pos hshort, dataInRange, if_pos (by omega)]
    rfl
  · rw [if_neg hshort, dataInRange, if_neg (by omega)]
    set n := ofLeBits 32 (slice plaintext 28 4) with hn
    set a := BitVec.ofNat 32 plaintext.length with ha
    have hatoInt : a.toInt = plaintext.length := by
      rw [ha, hplen]
      exact toInt_ofNat_of_lt hlt
    have hchecks := lengthChecks_iff (a := a) (n := n) (by omega)
    have hpadding : realPadding plaintext + 32 = a.toInt - n.toInt := by
      rw [realPadding, messageLength, hatoInt, ← hn]
      omega
    have hlength : messageLength plaintext = n.toInt := rfl
    change (if (a - n).toInt < 12 ∨ (a - n).toInt > 1024 then Except.ok none
      else if n.toInt < 0 ∨ n.toInt > a.toInt then Except.ok none
      else if slice (msgKeyLarge crypto authKey 8 plaintext) 8 16 ≠ slice packet 8 16 then Except.ok none
      else Except.ok (some plaintext)) = _
    rw [hpadding, hlength]
    by_cases hlaw : 0 ≤ n.toInt ∧ 12 ≤ a.toInt - n.toInt ∧ a.toInt - n.toInt ≤ 1024
    · obtain ⟨hpad, hrange⟩ := hchecks.mpr hlaw
      rw [if_neg hpad, if_neg hrange]
      by_cases hkeyEq : slice (msgKeyLarge crypto authKey 8 plaintext) 8 16 = slice packet 8 16
      · rw [if_neg (not_not_intro hkeyEq), if_pos ⟨hlaw.1, hlaw.2.1, hlaw.2.2, hkeyEq⟩]
      · rw [if_pos hkeyEq, if_neg fun h => hkeyEq h.2.2.2]
    · have hneg : ¬ (0 ≤ n.toInt ∧ 12 ≤ a.toInt - n.toInt ∧ a.toInt - n.toInt ≤ 1024 ∧
          slice (msgKeyLarge crypto authKey 8 plaintext) 8 16 = slice packet 8 16) :=
        fun h => hlaw ⟨h.1, h.2.1, h.2.2.1⟩
      rw [if_neg hneg]
      by_cases hpad : (a - n).toInt < 12 ∨ (a - n).toInt > 1024
      · rw [if_pos hpad]
      · rw [if_neg hpad, if_pos]
        by_contra hrange
        exact hlaw (hchecks.mp ⟨hpad, hrange⟩)

/-- A plaintext is returned where the packet is authentic and its padding, with the header counted to it, is
between 12 and 1024. -/
theorem returns_iff :
    (∃ plaintext, decryptIncomingTransportData crypto auth preferForMedia packet = .ok (some plaintext)) ↔
      let plaintext := plaintextOf crypto authKey packet (cutLength packet).toNat
      Authentic crypto authKey authKeyId packet plaintext ∧ 32 ≤ cutLength packet ∧ 0 ≤ messageLength plaintext ∧
        12 ≤ realPadding plaintext + 32 ∧ realPadding plaintext + 32 ≤ 1024 := by
  dsimp only
  by_cases hlen : 60 ≤ packet.length
  swap
  · constructor
    · rintro ⟨plaintext, h⟩
      unfold decryptIncomingTransportData at h
      rw [hkey] at h
      simp [show packet.length < 24 + 36 by omega] at h
    · rintro ⟨hauth, -⟩
      exact absurd hauth.length_ge hlen
  by_cases hid : ofLeBits 64 (slice packet 0 8) = authKeyId
  swap
  · constructor
    · rintro ⟨plaintext, h⟩
      unfold decryptIncomingTransportData at h
      rw [hkey] at h
      simp [show ¬ packet.length < 24 + 36 by omega, hid] at h
    · rintro ⟨hauth, -⟩
      exact absurd hauth.authKeyId_eq hid
  by_cases hcut : 0 ≤ cutLength packet
  swap
  · constructor
    · rintro ⟨plaintext, h⟩
      unfold decryptIncomingTransportData at h
      rw [hkey] at h
      simp only [subdataWithRange, if_pos (show cutLength packet < 0 by omega),
        messageEncryptionKeyV2_packet crypto authKey hlen, hid] at h
      simp [show ¬ packet.length < 24 + 36 by omega] at h
      cases h
    · rintro ⟨-, h, -⟩
      omega
  rw [decryptIncoming_of_cut hkey hlen hid hcut]
  dsimp only
  set plaintext := plaintextOf crypto authKey packet (cutLength packet).toNat
  by_cases hshort : cutLength packet < 32
  · rw [if_pos hshort]
    constructor
    · rintro ⟨_, h⟩
      cases h
    · rintro ⟨-, h, -⟩
      omega
  · rw [if_neg hshort]
    constructor
    · rintro ⟨_, h⟩
      split at h
      · next hok => exact ⟨⟨hlen, hid, hok.2.2.2⟩, by omega, hok.1, hok.2.1, hok.2.2.1⟩
      · cases h
    · rintro ⟨hauth, -, hn, hlow, hhigh⟩
      exact ⟨plaintext, if_pos ⟨hn, hlow, hhigh, hauth.msgKey_eq⟩⟩

end

theorem key_of_returns {plaintext : Bytes}
    (h : decryptIncomingTransportData crypto auth preferForMedia packet = .ok (some plaintext)) :
    ∃ authKey authKeyId notBound,
      auth.effectiveAuthKey preferForMedia = some ⟨some authKey, authKeyId, notBound⟩ := by
  unfold decryptIncomingTransportData at h
  cases hkey : auth.effectiveAuthKey preferForMedia with
  | none => simp [hkey] at h
  | some key =>
    obtain ⟨authKey, authKeyId, notBound⟩ := key
    cases authKey with
    | none =>
      rw [hkey] at h
      dsimp only at h
      split at h
      · simp at h
      · split at h <;> simp at h
    | some authKey => exact ⟨authKey, authKeyId, notBound, rfl⟩

/-! ## Where the function and the protocol differ -/

theorem exists_key_iff (hkey : auth.effectiveAuthKey preferForMedia = some ⟨some authKey, authKeyId, notBound⟩)
    (P : Block 256 → BitVec 64 → Prop) : (∃ authKey authKeyId notBound, auth.effectiveAuthKey preferForMedia =
        some ⟨some authKey, authKeyId, notBound⟩ ∧ P authKey authKeyId) ↔ P authKey authKeyId := by
  constructor
  · rintro ⟨authKey', authKeyId', notBound', h, hP⟩
    rw [hkey] at h
    cases h
    exact hP
  · intro hP
    exact ⟨authKey, authKeyId, notBound, hkey, hP⟩

theorem realPadding_huge (crypto : Crypto) (authKey : Block 256) (h : 2 ^ 32 ≤ packet.length - 24) :
    1024 < realPadding (wholePlaintext crypto authKey packet) := by
  have hlen : (wholePlaintext crypto authKey packet).length = 16 * ((packet.length - 24) / 16) := by
    rw [wholePlaintext, length_plaintextOf crypto authKey (by omega) (by omega)]
    omega
  have hn : messageLength (wholePlaintext crypto authKey packet) < 2 ^ 31 := BitVec.toInt_lt
  rw [realPadding, hlen]
  omega

/-- **Acceptance of incoming packets.** The function returns a plaintext exactly for the packets that the
protocol admits, except on the misjudged ones: it takes the 32 bytes of the header for padding. -/
theorem decryptIncoming_meets_wellFormed_iff (crypto : Crypto) (auth : AuthState) (preferForMedia : Bool)
    (packet : Bytes) :
    ((∃ plaintext, decryptIncomingTransportData crypto auth preferForMedia packet = .ok (some plaintext)) ↔
        WellFormed crypto auth preferForMedia packet) ↔
      ¬ Misjudged crypto auth preferForMedia packet := by
  rcases Classical.em (∃ authKey authKeyId notBound,
    auth.effectiveAuthKey preferForMedia = some ⟨some authKey, authKeyId, notBound⟩) with hkey | hkey
  swap
  · -- neither side holds without a key
    have hreturns : ¬ ∃ plaintext,
        decryptIncomingTransportData crypto auth preferForMedia packet = .ok (some plaintext) :=
      fun ⟨_, h⟩ => hkey (key_of_returns h)
    have hwell : ¬ WellFormed crypto auth preferForMedia packet :=
      fun ⟨k, i, b, h, _⟩ => hkey ⟨k, i, b, h⟩
    have hmis : ¬ Misjudged crypto auth preferForMedia packet :=
      fun ⟨k, i, b, h, _⟩ => hkey ⟨k, i, b, h⟩
    tauto
  obtain ⟨authKey, authKeyId, notBound, hkey⟩ := hkey
  rw [returns_iff hkey, WellFormed, exists_key_iff hkey, Misjudged, exists_key_iff hkey]
  dsimp only
  set whole := wholePlaintext crypto authKey packet with hwhole
  by_cases hsmall : packet.length - 24 < 2 ^ 31
  · -- the cut is all of the packet: only the window of the padding differs
    have hcut := cutLength_of_lt hsmall
    have heq : plaintextOf crypto authKey packet (cutLength packet).toNat = whole := by
      rw [hcut, Int.toNat_natCast, hwhole, wholePlaintext]
    rw [heq, if_pos hsmall]
    by_cases hauth : Authentic crypto authKey authKeyId packet whole
    · have hlen := hauth.length_ge
      have h32 : 32 ≤ cutLength packet := by omega
      simp only [hauth, h32, true_and]
      omega
    · simp only [hauth, false_and, not_false_eq_true]
  rw [if_neg hsmall]
  by_cases hmiddle : packet.length - 24 < 2 ^ 32
  · -- the length is negative as an `int32_t`: every packet is refused
    have hneg := cutLength_neg (by omega) hmiddle
    rw [if_pos hmiddle]
    constructor
    · intro h hwell
      have := (h.mpr hwell).2.1
      omega
    · intro hmis
      constructor
      · intro h
        have := h.2.1
        omega
      · intro hwell
        exact absurd hwell hmis
  · -- no length is admissible, but the function decrypts a shorter part
    have hhuge : 1024 < realPadding whole := realPadding_huge crypto authKey (by omega)
    rw [if_neg hmiddle]
    constructor
    · intro h hmis
      have := (h.mp hmis).2.2.2
      omega
    · intro hmis
      constructor
      · intro h
        exact absurd h hmis
      · rintro ⟨-, -, -, h⟩
        omega

/-- 60 bytes with the key id 1. Their plaintext is a header of 32 bytes alone, with the length 0. -/
def headerPacket : Bytes := 1 :: List.replicate 59 0

/-- The header alone is returned as a plaintext, though it has no padding at all. -/
theorem not_decryptIncoming_meets_wellFormed_headerPacket :
    ¬ ((∃ plaintext,
          decryptIncomingTransportData (constantCrypto 0) zeroAuth false headerPacket = .ok (some plaintext)) ↔
        WellFormed (constantCrypto 0) zeroAuth false headerPacket) := by
  have hreturns : decryptIncomingTransportData (constantCrypto 0) zeroAuth false headerPacket =
      .ok (some (List.replicate 32 0)) := by
    rfl
  have hpadding : realPadding (wholePlaintext (constantCrypto 0) (Vector.replicate 256 0) headerPacket) = 0 := by
    decide +kernel
  have hkey : zeroAuth.effectiveAuthKey false = some ⟨some (Vector.replicate 256 0), 1, false⟩ := rfl
  intro h
  have hwell := h.mp ⟨_, hreturns⟩
  rw [WellFormed, exists_key_iff hkey] at hwell
  have hlow := hwell.2.2.1
  omega

end TelegramClient.MtProto
