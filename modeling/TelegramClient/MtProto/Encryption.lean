import TelegramClient.MtProto.Aes
import TelegramClient.MtProto.Buffer

/-!
# Authorization keys and the encryption of packets

* `Crypto` : SHA-256 and AES, arbitrary functions of the right sizes;
* `mtAesDecrypt_mtAesEncryptInplace` : it undoes encryption.
-/

namespace TelegramClient.MtProto

/-- `MTSha256` and CommonCrypto's AES with 256-bit keys. -/
structure Crypto where
  mtSha256 : Bytes → Block 32
  aes : Aes (Block 32)

/-! ## Authorization keys -/

structure MTDatacenterAuthKey where
  authKey : Option (Block 256)
  authKeyId : BitVec 64
  notBound : Bool

inductive MTDatacenterAuthTempKeyType where
  | main
  | media

structure MTDatacenterAuthInfo where
  authKey : Block 256
  authKeyId : BitVec 64
  mainTempAuthKey : Option MTDatacenterAuthKey
  mediaTempAuthKey : Option MTDatacenterAuthKey

def MTDatacenterAuthInfo.tempAuthKeyWithType (info : MTDatacenterAuthInfo) :
    MTDatacenterAuthTempKeyType → Option MTDatacenterAuthKey
  | .main => info.mainTempAuthKey
  | .media => info.mediaTempAuthKey

/-- What `MTProto` keeps of its keys. -/
structure AuthState where
  useTempAuthKeys : Bool
  authInfo : Option MTDatacenterAuthInfo

/-- The first lines of every method that encrypts or decrypts. A message to `nil` returns `nil` or 0. -/
def AuthState.effectiveAuthKey (auth : AuthState) (preferForMedia : Bool) : Option MTDatacenterAuthKey :=
  if auth.useTempAuthKeys then
    let tempAuthKeyType : MTDatacenterAuthTempKeyType := if preferForMedia then .media else .main
    auth.authInfo.bind fun info => info.tempAuthKeyWithType tempAuthKeyType
  else
    some ⟨auth.authInfo.map fun info => info.authKey, (auth.authInfo.map fun info => info.authKeyId).getD 0, false⟩

/-! ## Message keys -/

structure MTMessageEncryptionKey where
  key : Block 32
  iv : Block 32

theorem length_slice_block {m : Nat} (b : Block m) {offset n : Nat} (h : offset + n ≤ m) :
    (slice b.toList offset n).length = n :=
  length_slice (by simpa using h)

/-- `messageEncryptionKeyV2ForAuthKey:messageKey:toClient:`. -/
def messageEncryptionKeyV2 (crypto : Crypto) (authKey : Option (Block 256)) (messageKey : Bytes) (toClient : Bool) :
    Option MTMessageEncryptionKey :=
  match authKey with
  | none => none
  | some authKey =>
    if messageKey.length = 0 then none
    else
      let xValue := if toClient then 8 else 0
      let a := crypto.mtSha256 (messageKey ++ slice authKey.toList xValue 36)
      let b := crypto.mtSha256 (slice authKey.toList (40 + xValue) 36 ++ messageKey)
      some {
        key := blockOf 32 (slice a.toList 0 8 ++ slice b.toList 8 16 ++ slice a.toList 24 8) (by
          simp [length_slice_block])
        iv := blockOf 32 (slice b.toList 0 8 ++ slice a.toList 8 16 ++ slice b.toList 24 8) (by
          simp [length_slice_block]) }

/-- `MTSha256(authKey[88 + x ..][..32] || data)`, whose bytes 8 to 24 are the message key. -/
def msgKeyLarge (crypto : Crypto) (authKey : Block 256) (xValue : Nat) (data : Bytes) : Bytes :=
  (crypto.mtSha256 (slice authKey.toList (88 + xValue) 32 ++ data)).toList

/-! ## Data -/

/-- `MTAesDecrypt`: the result is zeroed at its full length, and the whole blocks are written to it. -/
def mtAesDecrypt (aes : Aes (Block 32)) (data : Bytes) (key iv : Block 32) : Bytes :=
  ofBlocks (myAesIgeDecrypt aes key (toBlocks 16 data) iv).1 ++ List.replicate (data.length % 16) 0

/-- `MTAesEncryptInplace`, on data of whole blocks. -/
def mtAesEncryptInplace (aes : Aes (Block 32)) (data : Bytes) (key iv : Block 32) : Bytes :=
  ofBlocks (myAesIgeEncrypt aes key (toBlocks 16 data) iv).1

/-- The textbook decryption of the whole blocks of `data`. -/
def igePlaintext (aes : Aes (Block 32)) (key iv : Block 32) (data : Bytes) : Bytes :=
  ofBlocks (igeDecrypt (aes.decryptBlock key) (ivCipher iv) (ivPlain iv) (toBlocks 16 data))

variable (aes : Aes (Block 32))

@[simp] theorem length_igePlaintext (key iv : Block 32) (data : Bytes) :
    (igePlaintext aes key iv data).length = 16 * (data.length / 16) := by
  simp [igePlaintext]

variable {data : Bytes}

theorem mtAesDecrypt_eq (h : data.length % 16 = 0) (key iv : Block 32) :
    mtAesDecrypt aes data key iv = igePlaintext aes key iv data := by
  rw [mtAesDecrypt, myAesIgeDecrypt_fst, h, List.replicate_zero, List.append_nil, igePlaintext]

theorem length_mtAesEncryptInplace (hne : data ≠ []) (h : data.length % 16 = 0) (key iv : Block 32) :
    (mtAesEncryptInplace aes data key iv).length = data.length := by
  rw [mtAesEncryptInplace, myAesIgeEncrypt_eq aes key iv _ (toBlocks_ne_nil hne h), length_ofBlocks,
    length_igeEncrypt, length_toBlocks]
  omega

theorem mtAesDecrypt_mtAesEncryptInplace (hne : data ≠ []) (h : data.length % 16 = 0) (key iv : Block 32) :
    mtAesDecrypt aes (mtAesEncryptInplace aes data key iv) key iv = data := by
  rw [mtAesDecrypt_eq aes (by rwa [length_mtAesEncryptInplace aes hne h]), igePlaintext, mtAesEncryptInplace,
    myAesIgeEncrypt_eq aes key iv _ (toBlocks_ne_nil hne h), toBlocks_ofBlocks (by omega),
    igeDecrypt_igeEncrypt (aes.decrypt_encrypt key), ofBlocks_toBlocks (by omega) h]

/-! ## Values for evaluation -/

/-- Every digest consists of the byte `b`, and AES does nothing. -/
def constantCrypto (b : UInt8) : Crypto where
  mtSha256 _ := Vector.replicate 32 b
  aes := ⟨fun _ b => b, fun _ b => b, fun _ _ => rfl⟩

def zeroAuth : AuthState := ⟨false, some ⟨Vector.replicate 256 0, 1, none, none⟩⟩

end TelegramClient.MtProto
