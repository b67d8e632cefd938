import TelegramClient.MtProto.Encryption
import TelegramClient.MtProto.Factorize
import TelegramClient.MtProto.Incoming

/-!
# The service that negotiates an authorization key

`MTDatacenterAuthMessageService`, with the checks of `MTEncryption.m` that it makes on what the server sends.

* `AuthCrypto` : SHA-1, AES, RSA and the primality test, arbitrary functions; `mtExp` : modular exponentiation;
* `AuthEvent`, `stepAuth`, `runAuth` : everything that reaches the service, in any order.

An outcome `.error` is a crash of the program.
-/

namespace TelegramClient.MtProto

/-! ## Numbers -/

/-- `BN_bn2bin`: big-endian, without leading zeros. -/
def bnToBin (n : Nat) : Bytes := if n = 0 then [] else bnToBin (n / 256) ++ [UInt8.ofNat n]
termination_by n
decreasing_by omega

theorem length_bnToBin_le {n k : Nat} (h : n < 256 ^ k) : (bnToBin n).length ≤ k := by
  induction k generalizing n with
  | zero =>
    have hn : n = 0 := by omega
    rw [hn, bnToBin]
    simp
  | succ k ih =>
    rw [bnToBin]
    split
    · simp
    · have hdiv : n / 256 < 256 ^ k := Nat.div_lt_of_lt_mul (by rw [pow_succ] at h; omega)
      have := ih hdiv
      simp
      omega

theorem ofBe_lt (bs : Bytes) : ofBe bs < 256 ^ bs.length := by
  have h := ofBe_beBytes bs.length (ofBe bs)
  rw [beBytes_ofBe] at h
  rw [h]
  exact Nat.mod_lt _ (by positivity)

theorem ofBe_bnToBin (n : Nat) : ofBe (bnToBin n) = n := by
  induction n using Nat.strongRecOn with
  | ind n ih =>
    rw [bnToBin]
    split
    next hzero =>
        rw [hzero]
        rfl
    next hpos =>
        rw [ofBe_concat, ih (n / 256) (by omega)]
        simp
        omega

def mtExp (base exp modulus : Bytes) : Bytes := bnToBin (ofBe base ^ ofBe exp % ofBe modulus)

theorem mtExp_comm (g a b p : Bytes) : mtExp (mtExp g a p) b p = mtExp (mtExp g b p) a p := by
  unfold mtExp
  rw [ofBe_bnToBin, ofBe_bnToBin, ← Nat.pow_mod, ← Nat.pow_mod, ← pow_mul, ← pow_mul, Nat.mul_comm]

theorem length_mtExp_le (base exp : Bytes) {modulus : Bytes} (h : 0 < ofBe modulus) :
    (mtExp base exp modulus).length ≤ modulus.length :=
  length_bnToBin_le ((Nat.mod_lt _ h).trans (ofBe_lt modulus))

/-- `do … while (p > 0)`: the bytes of a factor. -/
def factorBytes (p : Nat) : Bytes := if p / 256 > 0 then factorBytes (p / 256) ++ [UInt8.ofNat p] else [UInt8.ofNat p]
termination_by p
decreasing_by omega

/-- The number `pq`; the length is an `int`. -/
def pqValue (pqBytes : Bytes) : BitVec 64 :=
  (pqBytes.take (BitVec.ofNat 32 pqBytes.length).toInt.toNat).foldl
    (fun pq b => pq <<< 8 ||| BitVec.ofNat 64 b.toNat) 0

/-! ## Checks -/

inductive PrimeKey where
  | isPrimeSafe (number : Bytes)
  | isPrimeModSafe (number : Bytes) (g : Nat)
  deriving DecidableEq

/-- The group `primes` of the keychain. -/
abbrev Keychain := List (PrimeKey × Bool)

structure AuthCrypto (κ : Type) where
  mtSha1 : Bytes → Block 20
  aes : Aes (Block 32)
  mtRsaEncrypt : κ → Bytes → Bytes
  /-- `BN_is_prime_ex` with 30 rounds. -/
  isPrime : Nat → Bool

def mtCheckIsSafeG (g : Nat) : Bool := decide (2 ≤ g ∧ g ≤ 7)

def mtCheckIsSafeGAOrB (gAOrB p : Bytes) : Bool :=
  decide (1 < ofBe gAOrB) && decide ((ofBe gAOrB : Int) < ofBe p - 1)

def modIsSafe (number g : Nat) : Bool :=
  match g with
  | 2 => number % 8 == 7
  | 3 => number % 3 == 2
  | 4 => true
  | 5 => number % 5 == 1 || number % 5 == 4
  | 6 => number % 24 == 19 || number % 24 == 23
  | 7 => number % 7 == 3 || number % 7 == 5 || number % 7 == 6
  | _ => false

def mtCheckMod (numberBytes : Bytes) (g : Nat) (keychain : Keychain) : Bool × Keychain :=
  match keychain.lookup (.isPrimeModSafe numberBytes g) with
  | some cachedResult => (cachedResult, keychain)
  | none =>
    let result := modIsSafe (ofBe numberBytes) g
    (result, (.isPrimeModSafe numberBytes g, result) :: keychain)

def goodPrime0 : Bytes :=
  [0xc7, 0x1c, 0xae, 0xb9, 0xc6, 0xb1, 0xc9, 0x04, 0x8e, 0x6c, 0x52, 0x2f, 0x70, 0xf1, 0x3f, 0x73,
   0x98, 0x0d, 0x40, 0x23, 0x8e, 0x3e, 0x21, 0xc1, 0x49, 0x34, 0xd0, 0x37, 0x56, 0x3d, 0x93, 0x0f,
   0x48, 0x19, 0x8a, 0x0a, 0xa7, 0xc1, 0x40, 0x58, 0x22, 0x94, 0x93, 0xd2, 0x25, 0x30, 0xf4, 0xdb,
   0xfa, 0x33, 0x6f, 0x6e, 0x0a, 0xc9, 0x25, 0x13, 0x95, 0x43, 0xae, 0xd4, 0x4c, 0xce, 0x7c, 0x37,
   0x20, 0xfd, 0x51, 0xf6, 0x94, 0x58, 0x70, 0x5a, 0xc6, 0x8c, 0xd4, 0xfe, 0x6b, 0x6b, 0x13, 0xab,
   0xdc, 0x97, 0x46, 0x51, 0x29, 0x69, 0x32, 0x84, 0x54, 0xf1, 0x8f, 0xaf, 0x8c, 0x59, 0x5f, 0x64,
   0x24, 0x77, 0xfe, 0x96, 0xbb, 0x2a, 0x94, 0x1d, 0x5b, 0xcd, 0x1d, 0x4a, 0xc8, 0xcc, 0x49, 0x88,
   0x07, 0x08, 0xfa, 0x9b, 0x37, 0x8e, 0x3c, 0x4f, 0x3a, 0x90, 0x60, 0xbe, 0xe6, 0x7c, 0xf9, 0xa4,
   0xa4, 0xa6, 0x95, 0x81, 0x10, 0x51, 0x90, 0x7e, 0x16, 0x27, 0x53, 0xb5, 0x6b, 0x0f, 0x6b, 0x41,
   0x0d, 0xba, 0x74, 0xd8, 0xa8, 0x4b, 0x2a, 0x14, 0xb3, 0x14, 0x4e, 0x0e, 0xf1, 0x28, 0x47, 0x54,
   0xfd, 0x17, 0xed, 0x95, 0x0d, 0x59, 0x65, 0xb4, 0xb9, 0xdd, 0x46, 0x58, 0x2d, 0xb1, 0x17, 0x8d,
   0x16, 0x9c, 0x6b, 0xc4, 0x65, 0xb0, 0xd6, 0xff, 0x9c, 0xa3, 0x92, 0x8f, 0xef, 0x5b, 0x9a, 0xe4,
   0xe4, 0x18, 0xfc, 0x15, 0xe8, 0x3e, 0xbe, 0xa0, 0xf8, 0x7f, 0xa9, 0xff, 0x5e, 0xed, 0x70, 0x05,
   0x0d, 0xed, 0x28, 0x49, 0xf4, 0x7b, 0xf9, 0x59, 0xd9, 0x56, 0x85, 0x0c, 0xe9, 0x29, 0x85, 0x1f,
   0x0d, 0x81, 0x15, 0xf6, 0x35, 0xb1, 0x05, 0xee, 0x2e, 0x4e, 0x15, 0xd0, 0x4b, 0x24, 0x54, 0xbf,
   0x6f, 0x4f, 0xad, 0xf0, 0x34, 0xb1, 0x04, 0x03, 0x11, 0x9c, 0xd8, 0xe3, 0xb9, 0x2f, 0xcc, 0x5b]

/-- A number that is refused for its length or its top bit is remembered elsewhere than in the keychain. -/
def mtCheckIsSafePrime {κ : Type} (crypto : AuthCrypto κ) (numberBytes : Bytes) (keychain : Keychain) :
    Bool × Keychain :=
  match keychain.lookup (.isPrimeSafe numberBytes) with
  | some cachedResult => (cachedResult, keychain)
  | none =>
    if numberBytes.length ≠ 256 then (false, keychain)
    else if numberBytes.headD 0 &&& 0x80 = 0 then (false, keychain)
    else if numberBytes = goodPrime0 then (true, keychain)
    else
      let number := ofBe numberBytes
      let result := crypto.isPrime number && crypto.isPrime ((number - 1) / 2)
      (result, (.isPrimeSafe numberBytes, result) :: keychain)

/-! ## The service -/

structure PublicKey (κ : Type) where
  key : κ
  fingerprint : BitVec 64

/-- What `MTProto` and the service are set up with. -/
structure AuthConfig (κ : Type) where
  cdn : Bool
  datacenterId : Int
  tempAuth : Bool
  defaultPublicKeys : List (PublicKey κ)

def selectPublicKey {κ : Type} (fingerprints : List (BitVec 64)) (publicKeys : List (PublicKey κ)) :
    Option (PublicKey κ) :=
  fingerprints.findSome? fun fingerprint => publicKeys.find? fun keyDesc => fingerprint == keyDesc.fingerprint

inductive MTDatacenterAuthStage where
  | waitingForPublicKeys
  | pq
  | reqDH
  | keyVerification
  | done
  deriving DecidableEq

/-- `MTDatacenterAuthKey` as it is made here: `MTExp` drops leading zeros, so that the length varies. -/
structure NegotiatedKey where
  authKey : Bytes
  authKeyId : BitVec 64
  notBound : Bool
  deriving DecidableEq

/-- The fields of the service, what it uses of the context, and two ghosts: how often `reset:` was called, and the
keys that the delegate got with their timestamps. -/
structure AuthService (κ : Type) where
  stage : MTDatacenterAuthStage
  currentStageMessageId : BitVec 64
  currentStageMessageSeqNo : BitVec 32
  currentStageTransactionId : Option Nat
  nonce : Option Bytes
  serverNonce : Option Bytes
  newNonce : Option (Block 32)
  dhP : Bytes
  dhQ : Bytes
  dhPublicKeyFingerprint : BitVec 64
  dhEncryptedData : Bytes
  authKey : Option NegotiatedKey
  encryptedClientData : Bytes
  publicKeys : Option (List (PublicKey κ))
  contextPublicKeys : Option (List (PublicKey κ))
  keychain : Keychain
  resets : Nat
  reports : List (NegotiatedKey × BitVec 64)

structure Draws where
  nonce : Block 16
  newNonce : Block 32
  b : Block 256
  lrand48 : Nat → BitVec 31
  padding : Nat → UInt8

section
variable {κ β : Type} (crypto : AuthCrypto κ) (config : AuthConfig κ)

/-- `initWithContext:tempAuth:`. -/
def initAuth : AuthService κ :=
  ⟨.waitingForPublicKeys, 0, 0, none, none, none, none, [], [], 0, [], none, [], none, none, [], 0, []⟩

def reset (s : AuthService κ) : AuthService κ :=
  let publicKeys := if config.cdn then s.contextPublicKeys else some config.defaultPublicKeys
  { s with
    stage := if config.cdn && publicKeys.isNone then .waitingForPublicKeys else .pq
    currentStageMessageId := 0
    currentStageMessageSeqNo := 0
    currentStageTransactionId := none
    nonce := none
    serverNonce := none
    newNonce := none
    dhP := []
    dhQ := []
    dhPublicKeyFingerprint := 0
    dhEncryptedData := []
    authKey := none
    encryptedClientData := []
    publicKeys := publicKeys
    resets := s.resets + 1 }

def publicKeysUpdated (datacenterId : Int) (publicKeys : Option (List (PublicKey κ))) (s : AuthService κ) :
    AuthService κ :=
  if s.stage = .waitingForPublicKeys ∧ config.datacenterId = datacenterId then
    let s := { s with publicKeys := publicKeys }
    if (publicKeys.getD []).length ≠ 0 then { s with stage := .pq } else s
  else s

def enterStage (stage : MTDatacenterAuthStage) (s : AuthService κ) : AuthService κ :=
  { s with
    stage := stage, currentStageMessageId := 0, currentStageMessageSeqNo := 0, currentStageTransactionId := none }

/-- An exception of the buffer or of the parser ends the program. -/
def orCrash {α : Type} : Except Fault α → Except Crash α
  | .ok a => .ok a
  | .error _ => .error .exception

/-! ### Requests -/

def reqPqData (nonce : Bytes) : Bytes := leBits 0x60469778#32 ++ nonce

def reqDhData (s : AuthService κ) : Except Fault Bytes := do
  let buffer := leBits 0xd712e4be#32 ++ s.nonce.getD [] ++ s.serverNonce.getD []
  let buffer ← appendTLBytes buffer s.dhP
  let buffer ← appendTLBytes buffer s.dhQ
  appendTLBytes (buffer ++ leBits s.dhPublicKeyFingerprint) s.dhEncryptedData

def setDhParamsData (s : AuthService κ) : Except Fault Bytes :=
  appendTLBytes (leBits 0xf5045f1f#32 ++ s.nonce.getD [] ++ s.serverNonce.getD []) s.encryptedClientData

/-- `mtProtoMessageTransaction:`: the data of the request of this stage, if none is under way. -/
def authMessageTransaction (draws : Draws) (s : AuthService κ) : Except Crash (Option Bytes × AuthService κ) :=
  if s.currentStageTransactionId.isSome then .ok (none, s)
  else
    match s.stage with
    | .waitingForPublicKeys => .ok (none, s)
    | .pq =>
      let nonce := s.nonce.getD draws.nonce.toList
      .ok (some (reqPqData nonce), { s with nonce := some nonce })
    | .reqDH => do
      let data ← orCrash (reqDhData s)
      return (some data, s)
    | .keyVerification => do
      let data ← orCrash (setDhParamsData s)
      return (some data, s)
    | .done => .ok (none, s)

/-- The completion block of a transaction that was built in `stage`. -/
def transactionCompleted (stage : MTDatacenterAuthStage) (transactionId : Option Nat)
    (preparedMessage : Option (BitVec 64 × BitVec 32)) (s : AuthService κ) : AuthService κ :=
  match transactionId, preparedMessage with
  | some transactionId, some (messageId, seqNo) =>
    if s.stage = stage then
      { s with
        currentStageMessageId := messageId
        currentStageMessageSeqNo := seqNo
        currentStageTransactionId := some transactionId }
    else s
  | _, _ => s

/-! ### `resPQ` -/

/-- A CDN with one key takes any single fingerprint for it. -/
def choosePublicKey (fingerprints : List (BitVec 64)) (publicKeys : List (PublicKey κ)) : Option (PublicKey κ) :=
  match selectPublicKey fingerprints publicKeys, fingerprints, publicKeys with
  | some publicKey, _, _ => some publicKey
  | none, [fingerprint], [keyDesc] => if config.cdn then some ⟨keyDesc.key, fingerprint⟩ else none
  | none, _, _ => none

def randomBytes (draws : Draws) (n : Nat) : Bytes := (List.range n).map draws.padding

/-- The inner data of `req_DH_params`. -/
def pqInnerData (pqBytes dhP dhQ nonce serverNonce : Bytes) (newNonce : Block 32) : Except Fault Bytes := do
  let signature := if config.tempAuth then 0x3c6a84d4#32 else 0x83c95aec#32
  let buffer ← appendTLBytes (leBits signature) pqBytes
  let buffer ← appendTLBytes buffer dhP
  let buffer ← appendTLBytes buffer dhQ
  let buffer := buffer ++ nonce ++ serverNonce ++ newNonce.toList
  return if config.tempAuth then appendInt32 buffer (60 * 60 * 32) else buffer

def rsaEncryptPadded (draws : Draws) (key : κ) (innerDataBytes : Bytes) : Bytes :=
  let dataWithHash := (crypto.mtSha1 innerDataBytes).toList ++ innerDataBytes
  let dataWithHash := dataWithHash ++ randomBytes draws (255 - dataWithHash.length)
  let encryptedData := crypto.mtRsaEncrypt key dataWithHash
  randomBytes draws (256 - encryptedData.length) ++ encryptedData

def receivedResPq (draws : Draws) (nonce serverNonce pqBytes : Bytes) (fingerprints : List (BitVec 64))
    (s : AuthService κ) : Except Crash (AuthService κ) :=
  if s.nonce ≠ some nonce then .ok s
  else
    match choosePublicKey config fingerprints (s.publicKeys.getD []) with
    | none => .ok (reset config s)
    | some publicKey => do
      match ← mtFactorize draws.lrand48 (pqValue pqBytes) with
      | none => return reset config s
      | some (p, q) =>
        let dhP := factorBytes p.toNat
        let dhQ := factorBytes q.toNat
        let innerDataBytes ← orCrash (pqInnerData config pqBytes dhP dhQ nonce serverNonce draws.newNonce)
        return enterStage .reqDH { s with
          serverNonce := some serverNonce
          dhP := dhP
          dhQ := dhQ
          dhPublicKeyFingerprint := publicKey.fingerprint
          newNonce := some draws.newNonce
          dhEncryptedData := rsaEncryptPadded crypto draws publicKey.key innerDataBytes }

/-! ### `server_DH_params` -/

def tmpAesKey (newNonce : Block 32) (serverNonce : Bytes) : Block 32 :=
  blockOf 32 ((crypto.mtSha1 (newNonce.toList ++ serverNonce)).toList ++
    slice (crypto.mtSha1 (serverNonce ++ newNonce.toList)).toList 0 12) (by simp [length_slice_block])

def tmpAesIv (newNonce : Block 32) (serverNonce : Bytes) : Block 32 :=
  blockOf 32 (slice (crypto.mtSha1 (serverNonce ++ newNonce.toList)).toList 12 8 ++
    (crypto.mtSha1 (newNonce.toList ++ newNonce.toList)).toList ++ slice newNonce.toList 0 4) (by
      simp [length_slice_block])

/-- At most 16 times: compare, and drop the last byte. There is none to drop from empty data. -/
def answerHashLoop (answerHash : Bytes) : Nat → Bytes → Except Crash (Option Bytes)
  | 0, _ => .ok none
  | n + 1, answerData =>
    if (crypto.mtSha1 answerData).toList = answerHash then .ok (some answerData)
    else if answerData.length = 0 then .error .exception
    else answerHashLoop answerHash n answerData.dropLast

def answerWithHash (newNonce : Block 32) (serverNonce encryptedResponse : Bytes) : Bytes :=
  mtAesDecrypt crypto.aes encryptedResponse (tmpAesKey crypto newNonce serverNonce) (tmpAesIv crypto newNonce serverNonce)

/-- The decrypted answer without its hash and its padding. The length of what follows the hash is unsigned. -/
def verifiedAnswer (answerWithHash : Bytes) : Except Crash (Option Bytes) :=
  if answerWithHash.length < 20 then .error .exception
  else answerHashLoop crypto (answerWithHash.take 20) 16 (answerWithHash.drop 20)

/-- The inner data of `set_client_DH_params`, encrypted. -/
def clientData (draws : Draws) (newNonce : Block 32) (nonce serverNonce gB : Bytes) : Except Fault Bytes := do
  let buffer := leBits 0x6643b654#32 ++ nonce ++ serverNonce ++ leBits 0#64
  let clientInnerDataBytes ← appendTLBytes buffer gB
  let clientDataWithHash := (crypto.mtSha1 clientInnerDataBytes).toList ++ clientInnerDataBytes
  let clientDataWithHash := clientDataWithHash ++ randomBytes draws ((16 - clientDataWithHash.length % 16) % 16)
  return mtAesEncryptInplace crypto.aes clientDataWithHash (tmpAesKey crypto newNonce serverNonce)
    (tmpAesIv crypto newNonce serverNonce)

/-- The key, with the last eight bytes of its hash for an id. -/
def negotiatedKey (authKey : Bytes) : NegotiatedKey :=
  ⟨authKey, ofLeBits 64 (slice (crypto.mtSha1 authKey).toList 12 8), config.tempAuth⟩

def receivedDhInnerData (draws : Draws) (newNonce : Block 32) (nonce serverNonce : Bytes) (g : BitVec 32)
    (dhPrime gA : Bytes) (s : AuthService κ) : Except Crash (AuthService κ) :=
  if s.nonce ≠ some nonce then .ok (reset config s)
  else if s.serverNonce ≠ some serverNonce then .ok (reset config s)
  else if g.toInt < 0 ∨ mtCheckIsSafeG g.toNat = false then .ok (reset config s)
  else if mtCheckIsSafeGAOrB gA dhPrime = false then .ok (reset config s)
  else
    let (modIsSafe, keychain) := mtCheckMod dhPrime g.toNat s.keychain
    let s := { s with keychain := keychain }
    if modIsSafe = false then .ok (reset config s)
    else
      let (primeIsSafe, keychain) := mtCheckIsSafePrime crypto dhPrime s.keychain
      let s := { s with keychain := keychain }
      if primeIsSafe = false then .ok (reset config s)
      else do
        let b := draws.b.toList
        let gB := mtExp (leBits g).reverse b dhPrime
        let authKey := mtExp gA b dhPrime
        let encryptedClientData ← orCrash (clientData crypto draws newNonce nonce serverNonce gB)
        return enterStage .keyVerification { s with
          authKey := some (negotiatedKey crypto config authKey), encryptedClientData := encryptedClientData }

def receivedServerDhParamsOk (draws : Draws) (nonce serverNonce encryptedResponse : Bytes) (s : AuthService κ) :
    Except Crash (AuthService κ) :=
  if s.nonce ≠ some nonce ∨ s.serverNonce ≠ some serverNonce then .ok s
  else
    match s.newNonce with
    -- the bytes of `nil` are at the null pointer
    | none => .error .exception
    | some newNonce => do
      match ← verifiedAnswer crypto (answerWithHash crypto newNonce serverNonce encryptedResponse) with
      | none => return reset config s
      | some answerData =>
        match parseMessage answerData with
        | .ok (.serverDhInnerData innerNonce innerServerNonce g dhPrime gA _) =>
          receivedDhInnerData crypto config draws newNonce innerNonce innerServerNonce g dhPrime gA s
        | .ok _ => return reset config s
        | .error .failed => return reset config s
        | .error .raised => .error .exception

def receivedServerDhParamsFail (nonce serverNonce : Bytes) (s : AuthService κ) : AuthService κ :=
  if s.nonce ≠ some nonce ∨ s.serverNonce ≠ some serverNonce then s else reset config s

/-! ### The answer to `set_client_DH_params` -/

/-- `new_nonce_hash1` for the number 1, and so on. -/
def newNonceHash (newNonce : Bytes) (number : UInt8) (authKey : Bytes) : Bytes :=
  slice (crypto.mtSha1 (newNonce ++ [number] ++ slice (crypto.mtSha1 authKey).toList 0 8)).toList 4 16

def receivedDhGenOk (messageId : BitVec 64) (nonce serverNonce nextNonceHash1 : Bytes) (s : AuthService κ) :
    Except Crash (AuthService κ) :=
  if s.nonce ≠ some nonce ∨ s.serverNonce ≠ some serverNonce then .ok s
  else
    match s.newNonce, s.authKey with
    | some newNonce, some authKey =>
      if newNonceHash crypto newNonce.toList 1 authKey.authKey ≠ nextNonceHash1 then .ok (reset config s)
      else .ok { enterStage .done s with reports := s.reports ++ [(authKey, messageId)] }
    | _, _ => .error .exception

/-- Asked to try again or refused: whether the hash is right makes no difference. -/
def receivedDhGenOther (nonce serverNonce : Bytes) (s : AuthService κ) : AuthService κ :=
  if s.nonce ≠ some nonce ∨ s.serverNonce ≠ some serverNonce then s else reset config s

def authReceivedMessage (draws : Draws) (message : MTIncomingMessage β) (s : AuthService κ) :
    Except Crash (AuthService κ) :=
  match s.stage, message.body with
  | .pq, .inl (.resPq nonce serverNonce pq fingerprints) =>
    receivedResPq crypto config draws nonce serverNonce pq fingerprints s
  | .reqDH, .inl (.serverDhParamsOk nonce serverNonce encryptedResponse) =>
    receivedServerDhParamsOk crypto config draws nonce serverNonce encryptedResponse s
  | .reqDH, .inl (.serverDhParamsFail nonce serverNonce _) => .ok (receivedServerDhParamsFail config nonce serverNonce s)
  | .keyVerification, .inl (.setClientDhParamsResponseOk nonce serverNonce nextNonceHash1) =>
    receivedDhGenOk crypto config message.messageId nonce serverNonce nextNonceHash1 s
  | .keyVerification, .inl (.setClientDhParamsResponseRetry nonce serverNonce _) =>
    .ok (receivedDhGenOther config nonce serverNonce s)
  | .keyVerification, .inl (.setClientDhParamsResponseFail nonce serverNonce _) =>
    .ok (receivedDhGenOther config nonce serverNonce s)
  | _, _ => .ok s

/-! ## Runs -/

inductive AuthEvent (κ β : Type) where
  | didAddService
  | publicKeysUpdated (datacenterId : Int) (publicKeys : Option (List (PublicKey κ)))
  | messageTransaction (draws : Draws)
  | transactionCompleted (stage : MTDatacenterAuthStage) (transactionId : Option Nat)
      (preparedMessage : Option (BitVec 64 × BitVec 32))
  | receivedMessage (draws : Draws) (message : MTIncomingMessage β)
  | protocolErrorReceived (errorCode : BitVec 32)
  | transactionsMayHaveFailed (transactionIds : List Nat)
  | allTransactionsMayHaveFailed
  /-- The context has other keys, or another connection has written to the keychain. -/
  | context (publicKeys : Option (List (PublicKey κ))) (keychain : Keychain)

def stepAuth (s : AuthService κ) : AuthEvent κ β → Except Crash (AuthService κ)
  | .didAddService => .ok (reset config s)
  | .publicKeysUpdated datacenterId publicKeys => .ok (publicKeysUpdated config datacenterId publicKeys s)
  | .messageTransaction draws => (authMessageTransaction draws s).map Prod.snd
  | .transactionCompleted stage transactionId preparedMessage =>
    .ok (transactionCompleted stage transactionId preparedMessage s)
  | .receivedMessage draws message => authReceivedMessage crypto config draws message s
  | .protocolErrorReceived _ => .ok (reset config s)
  | .transactionsMayHaveFailed transactionIds =>
    .ok (if s.currentStageTransactionId.any (transactionIds.contains ·) then { s with currentStageTransactionId := none }
      else s)
  | .allTransactionsMayHaveFailed => .ok { s with currentStageTransactionId := none }
  | .context publicKeys keychain => .ok { s with contextPublicKeys := publicKeys, keychain := keychain }

/-- The state after a run, or the crash that ended it. -/
def runAuth (events : List (AuthEvent κ β)) : Except Crash (AuthService κ) :=
  events.foldlM (stepAuth crypto config) initAuth

end

end TelegramClient.MtProto
