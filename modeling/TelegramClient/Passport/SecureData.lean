import TelegramClient.Passport.TwoStepPassword

/-!
# Encrypted passport data

* `paddedDataForEncryption`, `secretWithSecretRandom`, `uploadSecureData` : the data, its secret, and what is uploaded;
* `encryptedSecureSecretWithData`, `decryptedSecureSecretWithData` : the secret of all secrets, under the password;
* `secureData_roundTrip` : **everything that is encrypted is decrypted again**.
-/

namespace TelegramClient.Passport

inductive TGSecurePasswordKdfAlgo
  | unknown
  | pbkdf2HmacSha512Iter100000 (salt : Bytes)
  | sha512 (salt : Bytes)

/-- AES-256 in CBC mode, without padding. -/
structure AesCbc where
  encrypt : Block 32 → Block 16 → Bytes → Bytes
  decrypt : Block 32 → Block 16 → Bytes → Bytes
  length_encrypt : ∀ key iv data, data.length % 16 = 0 → (encrypt key iv data).length = data.length
  decrypt_encrypt : ∀ key iv data, data.length % 16 = 0 → decrypt key iv (encrypt key iv data) = data

variable (hashes : PasswordHashes) (aes : AesCbc)

def securePasswordHashWithPassword (password : Bytes) : TGSecurePasswordKdfAlgo → Option (Block 64)
  | .unknown => none
  | .pbkdf2HmacSha512Iter100000 salt => hashes.pbkdf2HmacSha512 password salt
  | .sha512 salt => some (hashes.sha512 (salt ++ password ++ salt))

/-- `CCCrypt` refuses a nil key and data that is no whole number of blocks. A nil iv is zero. -/
def aes256CBC (data : Bytes) (key : Option (Block 32)) (iv : Option (Block 16)) (decrypt : Bool) : Option Bytes :=
  match key with
  | none => none
  | some key =>
    if data.length % 16 ≠ 0 then none
    else
      let iv := iv.getD (Vector.replicate 16 0)
      some (if decrypt then aes.decrypt key iv data else aes.encrypt key iv data)

def secretKey (hash : Block 64) : Block 32 := hash.extract 0 32

def secretIv (hash : Block 64) : Block 16 := hash.extract 32 48

/-! ## Files -/

def encrypted (encrypting : Bool) (data hash secret : Bytes) : Option Bytes :=
  let secretHash := hashes.sha512 (secret ++ hash)
  aes256CBC aes data (some (secretKey secretHash)) (some (secretIv secretHash)) (!encrypting)

def decryptedDataWithData (data dataHash dataSecret : Bytes) (keepPadding : Bool) : Option Bytes :=
  match encrypted hashes aes false data dataHash dataSecret with
  | none | some [] => none
  | some (paddingLength :: rest) =>
    if paddingLength.toNat ≥ rest.length + 1 then none
    else if keepPadding then some (paddingLength :: rest)
    else some ((paddingLength :: rest).drop paddingLength.toNat)

/-- `while ((data.length + bytesToAdd) % 16 != 0) bytesToAdd++`. -/
def addedBytes (length : Nat) (bytesToAdd : UInt8) : UInt8 :=
  if (length + bytesToAdd.toNat) % 16 ≠ 0 then addedBytes length (bytesToAdd + 1) else bytesToAdd
termination_by (16 - (length + bytesToAdd.toNat) % 16) % 16
decreasing_by
  rw [UInt8.toNat_add]
  simp
  omega

/-- `arc4random_uniform` and `SecRandomCopyBytes`. -/
structure PaddingDraw where
  uniform : Fin (255 - 32 - 16)
  randomData : (n : Nat) → Block n

def paddedDataForEncryption (draw : PaddingDraw) (data : Bytes) : Bytes :=
  let bytesToAdd := addedBytes data.length (32 + UInt8.ofNat draw.uniform)
  bytesToAdd :: (draw.randomData (bytesToAdd.toNat - 1)).toList ++ data

structure SecretDraw where
  randomData : Block 32
  randomByteIndex : Fin 32

def byteSum (bytes : Bytes) : Nat := (bytes.map UInt8.toNat).sum

def secretWithSecretRandom (draw : SecretDraw) : Bytes :=
  let diff : Int := 239 - (byteSum draw.randomData.toList % 255 : Nat)
  let randomByteValue := draw.randomData[draw.randomByteIndex].toNat + diff
  let randomByteValue := if randomByteValue < 0 then 255 + randomByteValue else randomByteValue
  (draw.randomData.set draw.randomByteIndex (UInt8.ofNat (randomByteValue % 255).toNat)).toList

/-- What `uploadSecureData` uploads and keeps; nil where there was no encryption. -/
structure SecureUpload where
  fileHash : Bytes
  fileSecret : Bytes
  encryptedData : Option Bytes
  encryptedFileSecret : Option Bytes
  encryptedThumbnailData : Option Bytes

def uploadSecureData (padding thumbnailPadding : PaddingDraw) (draw : SecretDraw) (data thumbnailData secret : Bytes) :
    SecureUpload :=
  let paddedData := paddedDataForEncryption padding data
  let fileHash := hashes.sha256 paddedData
  let fileSecret := secretWithSecretRandom draw
  let paddedThumbnailData := paddedDataForEncryption thumbnailPadding thumbnailData
  { fileHash := fileHash
    fileSecret := fileSecret
    encryptedData := encrypted hashes aes true paddedData fileHash fileSecret
    encryptedFileSecret := encrypted hashes aes true fileSecret fileHash secret
    encryptedThumbnailData := encrypted hashes aes true paddedThumbnailData fileHash fileSecret }

/-! ## The secure secret -/

/-- The encrypted secret, and the algorithm that is written to `secureAlgoOut`. -/
def encryptedSecureSecretWithData (randomData : Block 32) (data password : Bytes)
    (nextSecureAlgo : TGSecurePasswordKdfAlgo) : Option Bytes × TGSecurePasswordKdfAlgo :=
  let secureAlgo := match nextSecureAlgo with
    | .pbkdf2HmacSha512Iter100000 salt => .pbkdf2HmacSha512Iter100000 (salt ++ randomData.toList.take 8)
    | other => other
  let passwordHash := securePasswordHashWithPassword hashes password secureAlgo
  (aes256CBC aes data (passwordHash.map secretKey) (passwordHash.map secretIv) false, secureAlgo)

def decryptedSecureSecretWithData (data password : Bytes) (secureAlgo : TGSecurePasswordKdfAlgo) : Option Bytes :=
  let passwordHash := securePasswordHashWithPassword hashes password secureAlgo
  aes256CBC aes data (passwordHash.map secretKey) (passwordHash.map secretIv) true

/-! ## The way back -/

variable {hashes aes} {data e : Bytes}

theorem aes256CBC_roundTrip {key : Option (Block 32)} {iv : Option (Block 16)}
    (h : aes256CBC aes data key iv false = some e) : aes256CBC aes e key iv true = some data := by
  cases key with
  | none => cases h
  | some key =>
    rw [aes256CBC] at h
    split at h
    next => cases h
    next hblocks =>
      have hwhole : data.length % 16 = 0 := not_not.mp hblocks
      obtain rfl := Option.some.inj h
      simp only [Bool.false_eq_true, if_false, aes256CBC, aes.length_encrypt _ _ _ hwhole, hwhole, ne_eq,
        not_true_eq_false, if_true, aes.decrypt_encrypt _ _ _ hwhole]

theorem isSome_aes256CBC (key : Option (Block 32)) (iv : Option (Block 16)) (decrypt : Bool) :
    (aes256CBC aes data key iv decrypt).isSome = true ↔ key.isSome = true ∧ data.length % 16 = 0 := by
  cases key with
  | none => simp [aes256CBC]
  | some key =>
    rw [aes256CBC]
    split <;> simp_all

theorem exists_encrypted (hashes : PasswordHashes) (aes : AesCbc) (hash secret : Bytes) (h : data.length % 16 = 0) :
    ∃ e, encrypted hashes aes true data hash secret = some e ∧
      encrypted hashes aes false e hash secret = some data := by
  have hsome : ∃ e, encrypted hashes aes true data hash secret = some e := by
    simp [encrypted, aes256CBC, h]
  obtain ⟨e, he⟩ := hsome
  refine ⟨e, he, ?_⟩
  rw [encrypted, Bool.not_true] at he
  rw [encrypted, Bool.not_false]
  exact aes256CBC_roundTrip he

theorem addedBytes_eq (length : Nat) (b : UInt8) (h : b.toNat + (16 - (length + b.toNat) % 16) % 16 < 256) :
    (addedBytes length b).toNat = b.toNat + (16 - (length + b.toNat) % 16) % 16 := by
  fun_induction addedBytes length b with
  | case1 b hne ih =>
    have hnext : (b + 1).toNat = b.toNat + 1 := by
      rw [UInt8.toNat_add]
      simp
      omega
    rw [hnext] at ih
    rw [ih (by omega)]
    omega
  | case2 b heq => omega

/-- The number of padding bytes, which the first of them tells. -/
theorem paddedDataForEncryption_eq (draw : PaddingDraw) (data : Bytes) :
    ∃ (n : UInt8) (rest : Bytes), paddedDataForEncryption draw data = n :: rest ++ data ∧
      rest.length + 1 = n.toNat ∧ 32 ≤ n.toNat ∧ (n.toNat + data.length) % 16 = 0 := by
  have hdraw := draw.uniform.isLt
  have hfirst : (32 + UInt8.ofNat draw.uniform).toNat = 32 + draw.uniform := by
    rw [UInt8.toNat_add]
    simp
    omega
  have hadded := addedBytes_eq data.length (32 + UInt8.ofNat draw.uniform) (by omega)
  rw [hfirst] at hadded
  refine ⟨_, _, rfl, ?_, ?_, ?_⟩
  · rw [Vector.length_toList]
    omega
  · omega
  · omega

theorem byteSum_set {bytes : Bytes} {i : Nat} (h : i < bytes.length) (b : UInt8) :
    byteSum (bytes.set i b) + bytes[i].toNat = byteSum bytes + b.toNat := by
  induction bytes generalizing i with
  | nil => exact absurd h (Nat.not_lt_zero i)
  | cons first bytes ih =>
    cases i with
    | zero =>
      simp only [byteSum, List.set_cons_zero, List.map_cons, List.sum_cons, List.getElem_cons_zero]
      omega
    | succ i =>
      have hrest := ih (Nat.lt_of_succ_lt_succ h)
      simp only [byteSum, List.set_cons_succ, List.map_cons, List.sum_cons, List.getElem_cons_succ] at hrest ⊢
      omega

theorem byteSum_secretWithSecretRandom (draw : SecretDraw) : byteSum (secretWithSecretRandom draw) % 255 = 239 := by
  have hidx : draw.randomByteIndex.val < draw.randomData.toList.length := by simp
  have hset := byteSum_set hidx
  simp only [Vector.getElem_toList] at hset
  rw [secretWithSecretRandom]
  simp only [Vector.toList_set, Fin.getElem_fin]
  generalize hval : (if (draw.randomData[draw.randomByteIndex.val].toNat : Int) +
      (239 - (byteSum draw.randomData.toList % 255 : Nat)) < 0 then _ else _ : Int) = value
  have hbyte : (UInt8.ofNat (value % 255).toNat).toNat = (value % 255).toNat := by
    rw [UInt8.toNat_ofNat']
    omega
  have hchanged := hset (UInt8.ofNat (value % 255).toNat)
  rw [hbyte] at hchanged
  split at hval <;> omega

theorem length_secretWithSecretRandom (draw : SecretDraw) : (secretWithSecretRandom draw).length = 32 :=
  Vector.length_toList

theorem decryptedDataWithData_padded {draw : PaddingDraw} {hash secret : Bytes} (hdata : data ≠ [])
    (h : encrypted hashes aes false e hash secret = some (paddedDataForEncryption draw data)) :
    decryptedDataWithData hashes aes e hash secret false = some data := by
  obtain ⟨n, rest, heq, hcnt, -, -⟩ := paddedDataForEncryption_eq draw data
  have hpos := List.length_pos_iff.mpr hdata
  rw [heq, List.cons_append] at h
  rw [decryptedDataWithData, h]
  dsimp only
  rw [if_neg (by rw [List.length_append]; omega), if_neg Bool.false_ne_true, ← hcnt, List.drop_succ_cons,
    List.drop_left]

/-- **Passport data**: the padding tells its length and fills whole blocks; a file is decrypted with the secret that is
encrypted beside it; the bytes of a secret sum to 239; and the secure secret is decrypted with what was returned. -/
theorem secureData_roundTrip (hashes : PasswordHashes) (aes : AesCbc) (padding thumbnailPadding : PaddingDraw)
    (draw : SecretDraw) {data : Bytes} (hdata : data ≠ []) (thumbnailData secret : Bytes) :
    (∃ (n : UInt8) (rest : Bytes), paddedDataForEncryption padding data = n :: rest ++ data ∧
      (n :: rest).length = n.toNat ∧ 32 ≤ n.toNat ∧ n.toNat ≤ 255 ∧
      (paddedDataForEncryption padding data).length % 16 = 0) ∧
    (let upload := uploadSecureData hashes aes padding thumbnailPadding draw data thumbnailData secret
      ∃ encryptedData encryptedFileSecret fileSecret, upload.encryptedData = some encryptedData ∧
        upload.encryptedFileSecret = some encryptedFileSecret ∧
        encrypted hashes aes false encryptedFileSecret upload.fileHash secret = some fileSecret ∧
        decryptedDataWithData hashes aes encryptedData upload.fileHash fileSecret false = some data) ∧
    byteSum (secretWithSecretRandom draw) % 255 = 239 ∧
    ∀ (randomData : Block 32) (secureSecret password : Bytes) (nextSecureAlgo : TGSecurePasswordKdfAlgo),
      let out := encryptedSecureSecretWithData hashes aes randomData secureSecret password nextSecureAlgo
      (out.1.isSome = true ↔
        (securePasswordHashWithPassword hashes password out.2).isSome = true ∧ secureSecret.length % 16 = 0) ∧
      ∀ e, out.1 = some e → decryptedSecureSecretWithData hashes aes e password out.2 = some secureSecret := by
  obtain ⟨n, rest, heq, hcount, hmin, hblocks⟩ := paddedDataForEncryption_eq padding data
  have hpadded : (paddedDataForEncryption padding data).length % 16 = 0 := by
    rw [heq, List.length_append, List.length_cons, hcount, hblocks]
  refine ⟨⟨n, rest, heq, hcount, hmin, Nat.le_of_lt_succ n.toNat_lt, hpadded⟩, ?_,
    byteSum_secretWithSecretRandom draw, ?_⟩
  · let fileHash := hashes.sha256 (paddedDataForEncryption padding data)
    obtain ⟨e, he, hd⟩ := exists_encrypted hashes aes fileHash (secretWithSecretRandom draw) hpadded
    obtain ⟨e', he', hd'⟩ := exists_encrypted hashes aes fileHash secret
      (show (secretWithSecretRandom draw).length % 16 = 0 by rw [length_secretWithSecretRandom])
    exact ⟨e, e', _, he, he', hd', decryptedDataWithData_padded hdata hd⟩
  · intro randomData secureSecret password nextSecureAlgo out
    exact ⟨(isSome_aes256CBC _ _ _).trans (by rw [Option.isSome_map]; rfl), fun e he => aes256CBC_roundTrip he⟩

def plainCbc : AesCbc := ⟨fun _ _ data => data, fun _ _ data => data, fun _ _ _ _ => rfl, fun _ _ _ _ => rfl⟩

theorem secureData_roundTrip_threeBytes :
    let noPadding : PaddingDraw := ⟨0, fun n => Vector.replicate n 0⟩
    let upload := uploadSecureData oneHashes plainCbc noPadding noPadding ⟨Vector.replicate 32 0, 0⟩ [1, 2, 3] [] []
    ∃ encryptedData encryptedFileSecret fileSecret, upload.encryptedData = some encryptedData ∧
      upload.encryptedFileSecret = some encryptedFileSecret ∧
      encrypted oneHashes plainCbc false encryptedFileSecret upload.fileHash [] = some fileSecret ∧
      decryptedDataWithData oneHashes plainCbc encryptedData upload.fileHash fileSecret false = some [1, 2, 3] :=
  (secureData_roundTrip oneHashes plainCbc _ _ _ (by decide) [] []).2.1

end TelegramClient.Passport
