import TelegramClient.MtProto.Outgoing
import TelegramClient.Secret.Rekey

/-!
# The encryption of secret messages

A message of a secret chat carries the id of its key, a message key made from its plaintext, and the plaintext under
AES-IGE. The AES key comes from the chat key and the message key. There are two versions: version 2 from layer 73 on.

* `generateMessageKeyData` : the AES key and iv, for both versions;
* `readLayerHeader`, `acceptMessageData`, `decryptEncryptedMessageData` : the receiver.

SHA-1, SHA-256 and AES are arbitrary functions of the right sizes.
-/

namespace TelegramClient.Secret

open MtProto

/-- `MTSha1`, next to SHA-256 and AES. -/
structure SecretCrypto extends Crypto where
  mtSha1 : Bytes → Block 20

/-! ## Keys of one message -/

theorem length_keyDataV2 (a b : Block 32) (i j k : Nat) (hi : i + 8 ≤ 32) (hj : j + 16 ≤ 32) (hk : k + 8 ≤ 32) :
    (slice a.toList i 8 ++ slice b.toList j 16 ++ slice a.toList k 8).length = 32 := by
  simp only [List.length_append, length_slice_block _ hi, length_slice_block _ hj, length_slice_block _ hk]

def keyDataV2 (a b : Block 32) : MTMessageEncryptionKey where
  key := blockOf 32 (slice a.toList 0 8 ++ slice b.toList 8 16 ++ slice a.toList 24 8)
    (length_keyDataV2 a b 0 8 24 (by decide) (by decide) (by decide))
  iv := blockOf 32 (slice b.toList 0 8 ++ slice a.toList 8 16 ++ slice b.toList 24 8)
    (length_keyDataV2 b a 0 8 24 (by decide) (by decide) (by decide))

def keyDataV1 (a b c d : Block 20) : MTMessageEncryptionKey where
  key := blockOf 32 (slice a.toList 0 8 ++ slice b.toList 8 12 ++ slice c.toList 4 12) (by
    simp only [List.length_append]
    rw [length_slice_block a (by decide), length_slice_block b (by decide), length_slice_block c (by decide)])
  iv := blockOf 32 (slice a.toList 8 12 ++ slice b.toList 0 8 ++ slice c.toList 16 4 ++ slice d.toList 0 8) (by
    simp only [List.length_append]
    rw [length_slice_block a (by decide), length_slice_block b (by decide), length_slice_block c (by decide),
      length_slice_block d (by decide)])

section
variable (crypto : SecretCrypto)

/-- `generateMessageKeyData:incoming:key:v2:`. Version 1 has no direction. -/
def generateMessageKeyData (messageKey : Bytes) (incoming : Bool) (key : Bytes) (v2 : Bool) :
    Option MTMessageEncryptionKey :=
  if key.length = 0 then none
  else if v2 then
    let xValue := if incoming then 8 else 0
    some (keyDataV2 (crypto.mtSha256 (messageKey ++ slice key xValue 36))
      (crypto.mtSha256 (slice key (40 + xValue) 36 ++ messageKey)))
  else
    some (keyDataV1 (crypto.mtSha1 (messageKey ++ slice key 0 32))
      (crypto.mtSha1 (slice key 32 16 ++ messageKey ++ slice key 48 16))
      (crypto.mtSha1 (slice key 64 32 ++ messageKey))
      (crypto.mtSha1 (messageKey ++ slice key 96 32)))

theorem generateMessageKeyData_isSome (messageKey : Bytes) (incoming v2 : Bool) {key : Bytes} (hkey : key ≠ []) :
    ∃ keyData, generateMessageKeyData crypto messageKey incoming key v2 = some keyData := by
  have hlen : key.length ≠ 0 := fun h => hkey (List.length_eq_zero_iff.mp h)
  unfold generateMessageKeyData
  rw [if_neg hlen]
  split
  · exact ⟨_, rfl⟩
  · exact ⟨_, rfl⟩

theorem generateMessageKeyData_v1 (messageKey : Bytes) (incoming incoming' : Bool) (key : Bytes) :
    generateMessageKeyData crypto messageKey incoming key false =
      generateMessageKeyData crypto messageKey incoming' key false := by
  unfold generateMessageKeyData
  rfl

/-- Bytes 8 to 24 of `msgKeyLarge`. -/
def messageKeyV2 (key : Bytes) (xValue : Nat) (data : Bytes) : Bytes :=
  slice (crypto.mtSha256 (slice key (88 + xValue) 32 ++ data)).toList 8 16

def messageKeyV1 (data : Bytes) : Bytes := slice (crypto.mtSha1 data).toList (20 - 16) 16

/-! ## Sending -/

/-- The random bytes of one message. `arc4random_uniform(n)` gives `uniform % n`. -/
structure MessageDraws where
  headerBytes : Block 15
  randomBytes : Block 128
  uniform : Nat

/-- The loop that appends bytes until the length is a multiple of 16. The bytes are those of `randomBytes` in order, so
only `take` counts. -/
def fillCount (length : Nat) : Nat → Nat → Nat
  | 0, take => take
  | rounds + 1, take => if (length + take) % 16 ≠ 0 then fillCount length rounds (take + 1) else take

/-- The number of random bytes behind `length` bytes. -/
def paddingCount (v2 : Bool) (uniform length : Nat) : Nat :=
  if v2 then
    let take := fillCount length 15 12
    take + roundDownCount (uniform % (72 + 1 - take))
  else fillCount length 15 0

/-- `decryptedBytesOriginal`: the length as an `int32_t`, then the message. -/
def withLength (serializedMessage : Bytes) : Bytes :=
  leBits (BitVec.ofNat 32 serializedMessage.length) ++ serializedMessage

/-- `decryptedBytes` before they are encrypted. -/
def paddedMessage (draws : MessageDraws) (v2 : Bool) (serializedMessage : Bytes) : Bytes :=
  let original := withLength serializedMessage
  original ++ draws.randomBytes.toList.take (paddingCount v2 draws.uniform original.length)

/-- The `messageKey` of a message that is sent. In version 2 it depends on the padding and on the direction. -/
def sentMessageKey (draws : MessageDraws) (serializedMessage key : Bytes) (currentClientIsCreator v2 : Bool) : Bytes :=
  if v2 then
    messageKeyV2 crypto key (if currentClientIsCreator then 0 else 8) (paddedMessage draws v2 serializedMessage)
  else messageKeyV1 crypto (withLength serializedMessage)

inductive BadAccess where
  /-- `key.bytes + 88` with a key that is `nil`. -/
  | nilKey
  /-- `MyAesIgeEncrypt` takes the length as an `int`; it has no room for 2^31 bytes. -/
  | tooLong
  deriving DecidableEq

/-- `encryptMessage:key:keyId:currentClientIsCreator:v2:`. -/
def encryptMessage (draws : MessageDraws) (serializedMessage : Bytes) (key : Option Bytes) (keyId : BitVec 64)
    (currentClientIsCreator v2 : Bool) : Except BadAccess (Option Bytes) :=
  let decryptedBytes := paddedMessage draws v2 serializedMessage
  if v2 && key.isNone then .error .nilKey
  else
    let key := key.getD []
    let messageKey := sentMessageKey crypto draws serializedMessage key currentClientIsCreator v2
    match generateMessageKeyData crypto messageKey (!currentClientIsCreator) key v2 with
    | none => .ok none
    | some keyData =>
      if 2 ^ 31 ≤ decryptedBytes.length then .error .tooLong
      else .ok (some (leBits keyId ++ messageKey ++
        mtAesEncryptInplace crypto.aes decryptedBytes keyData.key keyData.iv))

/-- An outgoing action: `TGStoredOutgoingMessageSecretAction` or `TGStoredOutgoingServiceMessageSecretAction`. -/
structure SecretAction where
  layer : Nat
  keyId : BitVec 64
  data : Bytes

/-- The `decryptedMessageLayer` in front of an action. -/
def layerHeader (headerBytes : Block 15) (layer : Nat) (isCreator : Bool) (seqIn seqOut : BitVec 32) : Bytes :=
  let inSeqNo := seqIn * 2 + (if isCreator then 0 else 1)
  let outSeqNo := seqOut * 2 + (if isCreator then 1 else 0)
  leBits (0x1be31789 : BitVec 32) ++ [15] ++ headerBytes.toList ++ leBits (BitVec.ofNat 32 layer) ++ leBits inSeqNo ++
    leBits outSeqNo

/-- The `data` of an action that carries a header. -/
def serializedAction (draws : MessageDraws) (isCreator : Bool) (action : SecretAction) (seqIn seqOut : BitVec 32) :
    Bytes :=
  layerHeader draws.headerBytes action.layer isCreator seqIn seqOut ++ action.data

/-- The data of the request that `requestForAction:` builds. -/
def requestForAction (draws : MessageDraws) (keys : List EncryptionKeyData) (isCreator : Bool) (action : SecretAction)
    (seqIn seqOut : BitVec 32) : Except BadAccess (Option Bytes) :=
  let record := encryptionKeyForConversationId keys action.keyId
  let key := record.map EncryptionKeyData.key
  let keyId := (record.map EncryptionKeyData.keyId).getD 0
  if 17 ≤ action.layer then
    let data := serializedAction draws isCreator action seqIn seqOut
    encryptMessage crypto draws data key keyId isCreator (73 ≤ action.layer)
  else encryptMessage crypto draws action.data key keyId isCreator false

/-! ## Receiving -/

/-- `localMessageKey` of the decrypted data. In version 1 it does not depend on the padding. -/
def localMessageKey (authKey : Bytes) (currentClientIsCreator v2 : Bool) (messageData : Bytes) : Bytes :=
  if v2 then messageKeyV2 crypto authKey (if currentClientIsCreator then 8 else 0) messageData
  else
    let messageLength := ofLeBits 32 (slice messageData 0 4)
    messageKeyV1 crypto (slice messageData 0 (messageLength + 4).toNat)

/-- `decryptMessageData:`, once the data is decrypted. -/
def checkMessageData (authKey messageKey : Bytes) (currentClientIsCreator v2 : Bool) (messageData : Bytes) :
    Option Bytes :=
  let length := BitVec.ofNat 32 messageData.length
  let messageLength := ofLeBits 32 (slice messageData 0 4)
  let paddingLength := length - (messageLength + 4)
  if messageLength.toInt ≤ 0 ∨ (length - 4).toInt < messageLength.toInt then none
  else if (v2 ∧ paddingLength.toInt < 12) ∨ 1024 < paddingLength.toInt then none
  else if localMessageKey crypto authKey currentClientIsCreator v2 messageData = messageKey then some messageData
  else none

/-- `decryptMessageData:authKey:messageKey:keyData:currentClientIsCreator:v2:`, with the `keyData` of its callers. -/
def decryptMessageData (bytes authKey : Bytes) (currentClientIsCreator v2 : Bool) : Option Bytes :=
  let messageKey := slice bytes 8 16
  (generateMessageKeyData crypto messageKey currentClientIsCreator authKey v2).bind fun keyData =>
    checkMessageData crypto authKey messageKey currentClientIsCreator v2
      (mtAesDecrypt crypto.aes (bytes.drop (8 + 16)) keyData.key keyData.iv)

/-- `while ((randomBytesLength + 1) % 4 != 0) randomBytesLength++`. -/
def roundUpLength : Nat → Nat → Nat
  | 0, randomBytesLength => randomBytesLength
  | rounds + 1, randomBytesLength =>
    if (randomBytesLength + 1) % 4 ≠ 0 then roundUpLength rounds (randomBytesLength + 1) else randomBytesLength

/-- `layer`, `seqIn` and `seqOut` of `decryptEncryptedMessageData:`. -/
structure LayerHeader where
  layer : Nat
  seqIn : BitVec 32
  seqOut : BitVec 32
  deriving DecidableEq

def LayerHeader.initial : LayerHeader := ⟨1, 0, 0⟩

def readLayerHeader (content : Bytes) : LayerHeader :=
  if 4 ≤ content.length ∧ ofLeBits 32 (slice content 0 4) = 0x1be31789 then
    let header : LayerHeader :=
      if 4 + 1 ≤ content.length then
        let randomBytesLength := roundUpLength 3 (content.getD 4 0).toNat
        if 4 + 1 + randomBytesLength + 4 + 4 + 4 ≤ content.length then
          let value (offset : Nat) := ofLeBits 32 (slice content (4 + 1 + randomBytesLength + offset) 4)
          -- `layer = value` sign-extends.
          ⟨((value 0).signExtend 64).toNat, value 4, value 8⟩
        else .initial
      else .initial
    { header with layer := max 1 header.layer }
  else .initial

/-- The parity that the sequence numbers of the other client do not have. -/
def LayerHeader.wrongParity (header : LayerHeader) (isCreator : Bool) : Prop :=
  if isCreator then header.seqIn &&& 1 = 0 ∨ header.seqOut &&& 1 ≠ 0
  else header.seqIn &&& 1 ≠ 0 ∨ header.seqOut &&& 1 = 0

instance (header : LayerHeader) (isCreator : Bool) : Decidable (header.wrongParity isCreator) :=
  inferInstanceAs (Decidable (if isCreator then header.seqIn &&& 1 = 0 ∨ header.seqOut &&& 1 ≠ 0
    else header.seqIn &&& 1 ≠ 0 ∨ header.seqOut &&& 1 = 0))

/-- What the database says about the chat of a message. -/
structure SecretChatRecord where
  conversationId : BitVec 64
  keys : List EncryptionKeyData
  isCreator : Bool
  participantId : BitVec 32

/-- The result of `decryptEncryptedMessageData:`, with `decryptedLayer`, `outSeqIn` and `outSeqOut`. -/
structure OpenedMessage where
  content : Bytes
  layer : Nat
  seqIn : Int
  seqOut : Int
  deriving DecidableEq

/-- `decryptEncryptedMessageData:`, once the data is decrypted and has the right message key. -/
def acceptMessageData (chat : SecretChatRecord) (decryptedByV2 : Bool) (messageData : Bytes) : Option OpenedMessage :=
  let content := messageData.drop 4
  let header := readLayerHeader content
  if 17 ≤ header.layer ∧ header.wrongParity chat.isCreator then none
  else if 73 ≤ header.layer ∧ ¬ decryptedByV2 then none
  else if chat.participantId = 0 then none
  else some ⟨content, header.layer, header.seqIn.toInt.tdiv 2, header.seqOut.toInt.tdiv 2⟩

def openMessage (chat : SecretChatRecord) (key bytes : Bytes) : Option OpenedMessage :=
  match decryptMessageData crypto bytes key chat.isCreator true with
  | some messageData => acceptMessageData chat true messageData
  | none => (decryptMessageData crypto bytes key chat.isCreator false).bind (acceptMessageData chat false)

/-- `decryptEncryptedMessageData:`. -/
def decryptEncryptedMessageData (chat : SecretChatRecord) (bytes : Bytes) : Option OpenedMessage :=
  if bytes.length < 8 + 16 + 16 then none
  else if chat.conversationId = 0 then none
  else
    let keyId := ofLeBits 64 (slice bytes 0 8)
    match encryptionKeyForConversationId chat.keys keyId with
    | none => none
    | some record => if record.keyId ≠ keyId then none else openMessage crypto chat record.key bytes

end

end TelegramClient.Secret
