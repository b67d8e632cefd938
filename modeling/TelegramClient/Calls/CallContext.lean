import TelegramClient.Secret.Rekey
import Mathlib.Data.List.Induction

/-!
# The contexts of a call

`TGCallContext`, `TGCallState` and `TGCallSignals`: what a call is made of, and the requests of its handshake.

* `AcceptedConfig` : `p` and `g` as `encryptionConfig` accepts them; `runConfigs_eq`;
* `outgoingKey`, `incomingKey`, `keyFingerprint`, `visKeyHash` : the key and its hashes.

SHA-1 and SHA-256 are arbitrary functions.
-/

namespace TelegramClient.Calls
open List

open MtProto Secret

structure CallCrypto where
  mtSha1 : Bytes → Block 20
  mtSha256 : Bytes → Block 32

/-! ## The parameters -/

deriving instance DecidableEq for DhConfig

/-- The checks of `encryptionConfig`, the test for primes apart. -/
structure DhConfigOk (config : DhConfig) : Prop where
  safeG : mtCheckIsSafeG config.g.toNat = true
  safeMod : modIsSafe (ofBe config.p) config.g.toNat = true
  length_p : config.p.length = 256
  topBit : config.p.headD 0 &&& 0x80 ≠ 0

/-- What `encryptionConfig` gives to a call. -/
structure AcceptedConfig extends DhConfig where
  ok : DhConfigOk toDhConfig
  deriving DecidableEq

/-- `encryptionConfig`, with `cachedEncryptionConfig` and the answer to `messages.getDhConfig`. -/
def encryptionConfig {κ : Type} (crypto : AuthCrypto κ) (cached : Option DhConfig) (answer : DhConfig)
    (keychain : Keychain) : Option DhConfig × Keychain :=
  match cached with
  | some config => (some config, keychain)
  | none =>
    if !mtCheckIsSafeG answer.g.toNat then (none, keychain)
    else
      let (modIsSafe, keychain) := mtCheckMod answer.p answer.g.toNat keychain
      if !modIsSafe then (none, keychain)
      else
        let (primeIsSafe, keychain) := mtCheckIsSafePrime crypto answer.p keychain
        if !primeIsSafe then (none, keychain) else (some answer, keychain)

/-! ## Calls of the server -/

inductive TGCallDiscardReason where
  | unknown
  | missed
  | missedTimeout
  | disconnect
  | hangup
  | remoteHangup
  | busy
  deriving DecidableEq

inductive TLPhoneCallDiscardReason where
  | missed
  | disconnect
  | hangup
  | busy
  deriving DecidableEq

/-- `[TGCallDiscardReasonAdapter reasonForTLObject:]`, for the answers to requests. -/
def reasonForTLObject : Option TLPhoneCallDiscardReason → TGCallDiscardReason
  | some .missed => .missed
  | some .disconnect => .disconnect
  | some .hangup => .remoteHangup
  | some .busy => .busy
  | none => .unknown

def updateReason : Option TLPhoneCallDiscardReason → TGCallDiscardReason
  | some .missed => .missed
  | some .disconnect => .disconnect
  | some .hangup => .hangup
  | some .busy => .busy
  | none => .unknown

/-- `[TGCallDiscardReasonAdapter TLObjectForReason:]`. -/
def tlObjectForReason : TGCallDiscardReason → Option TLPhoneCallDiscardReason
  | .missed | .missedTimeout => some .missed
  | .disconnect => some .disconnect
  | .hangup | .remoteHangup => some .hangup
  | .busy => some .busy
  | .unknown => none

structure TGCallConnectionDescription where
  identifier : Int
  ipv4 : String
  ipv6 : String
  port : Int
  peerTag : Bytes
  deriving DecidableEq

structure CallConnections where
  defaultConnection : Option TGCallConnectionDescription
  alternativeConnections : List TGCallConnectionDescription
  deriving DecidableEq

structure CallInfo where
  callId : Int
  accessHash : Int
  date : Int
  adminId : Int
  participantId : Int
  deriving DecidableEq

inductive TLPhoneCall where
  | phoneCallEmpty
  | phoneCallWaiting (call : CallInfo) (receiveDate : Int)
  | phoneCallRequested (call : CallInfo) (gAHash : Bytes)
  | phoneCallAccepted (call : CallInfo) (gB : Bytes)
  | phoneCall (call : CallInfo) (gAOrB : Bytes) (keyFingerprint : BitVec 64) (connections : CallConnections)
  | phoneCallDiscarded (callId : Int) (reason : Option TLPhoneCallDiscardReason) (needsRating needsDebug : Bool)

/-! ## Contexts -/

/-- `nil` is `[]` and `none`. -/
structure WaitingContext extends CallInfo where
  a : Bytes
  gA : Bytes
  dhConfig : Option AcceptedConfig
  receiveDate : Int
  deriving DecidableEq

structure RequestedContext extends CallInfo where
  gAHash : Bytes
  declined : Bool
  deriving DecidableEq

structure ReceivedContext extends CallInfo where
  dhConfig : AcceptedConfig
  b : Bytes
  gB : Bytes
  gAHash : Bytes
  deriving DecidableEq

structure WaitingConfirmContext extends CallInfo where
  b : Bytes
  gAHash : Bytes
  dhConfig : AcceptedConfig
  receiveDate : Int
  deriving DecidableEq

structure AcceptedContext extends CallInfo where
  gA : Bytes
  gB : Bytes
  deriving DecidableEq

structure ConfirmedContext extends CallInfo where
  gA : Bytes
  keyFingerprint : BitVec 64
  connections : CallConnections
  deriving DecidableEq

structure OngoingContext extends CallInfo where
  key : Bytes
  keyFingerprint : BitVec 64
  connections : CallConnections
  deriving DecidableEq

structure DiscardedContext where
  callId : Int
  reason : TGCallDiscardReason
  outside : Bool
  needsRating : Bool
  needsDebug : Bool
  error : Option String
  deriving DecidableEq

inductive Context where
  | requesting
  | waiting (context : WaitingContext)
  | requested (context : RequestedContext)
  | received (context : ReceivedContext)
  | waitingConfirm (context : WaitingConfirmContext)
  | accepted (context : AcceptedContext)
  | confirmed (context : ConfirmedContext)
  | ongoing (context : OngoingContext)
  | discarded (context : DiscardedContext)
  deriving DecidableEq

/-- The property `callId` of a `TGCallIdentifiableContext`. -/
def Context.callId : Context → Option Int
  | .requesting => none
  | .waiting context | .requested context | .received context | .waitingConfirm context | .accepted context
  | .confirmed context | .ongoing context | .discarded context => some context.callId

/-- The property `accessHash`, which is optional. -/
def Context.accessHash : Context → Option Int
  | .requesting | .discarded _ => none
  | .waiting context | .requested context | .received context | .waitingConfirm context | .accepted context
  | .confirmed context | .ongoing context => some context.accessHash

/-- The context that `TGUpdateStateRequestBuilder` makes of a call in an update. -/
def updateContext : TLPhoneCall → Option Context
  | .phoneCallEmpty => none
  | .phoneCallWaiting call receiveDate =>
    some (.waiting { call with a := [], gA := [], dhConfig := none, receiveDate := receiveDate })
  | .phoneCallRequested call gAHash => some (.requested { call with gAHash := gAHash, declined := false })
  | .phoneCallAccepted call gB => some (.accepted { call with gA := [], gB := gB })
  | .phoneCall call gAOrB keyFingerprint connections =>
    some (.confirmed { call with gA := gAOrB, keyFingerprint := keyFingerprint, connections := connections })
  | .phoneCallDiscarded callId reason needsRating needsDebug =>
    some (.discarded ⟨callId, updateReason reason, true, needsRating, needsDebug, none⟩)

/-! ## States -/

inductive TGCallState where
  | requesting
  | waiting
  | waitingReceived
  | handshake
  | ready
  | accepting
  | ongoing
  | ending
  | ended
  | busy
  | noAnswer
  | missed
  deriving DecidableEq

structure TGCallConnection where
  key : Bytes
  keyHash : Bytes
  connections : CallConnections
  deriving DecidableEq

structure TGCallStateData where
  internalId : Nat
  callId : Int := 0
  accessHash : Int := 0
  state : TGCallState
  peerId : Int := 0
  connection : Option TGCallConnection := none
  hungUpOutside : Bool := false
  needsRating : Bool := false
  needsDebug : Bool := false
  error : Option String := none
  deriving DecidableEq

/-! ## Keys -/

/-- The key that a caller makes of `MTExp(gB, a, p)`. -/
def outgoingKey (power : Bytes) : Bytes := padKey power

/-- The key that a callee makes of `MTExp(gA, b, p)`: a byte is replaced, not removed, where there is one too many. -/
def incomingKey (power : Bytes) : Bytes :=
  let key := if power.length > 256 then 0 :: power.drop 1 else power
  replicate (256 - key.length) 0 ++ key

def keyFingerprint (crypto : CallCrypto) (key : Bytes) : BitVec 64 := rekeyFingerprint crypto.mtSha1 key

def visKeyHash (crypto : CallCrypto) (key gA : Bytes) : Bytes := (crypto.mtSha256 (key ++ gA)).toList

/-! ## Requests -/

/-- The signal in the property `disposable` of a call, with what it has captured. -/
inductive Request where
  | requestedOutgoingCall (peerId : Int)
  | requestCall (a gA : Bytes) (dhConfig : AcceptedConfig)
  | receivedIncomingCall (call : RequestedContext)
  | receivedCall (call : ReceivedContext)
  | acceptCall (call : ReceivedContext)
  | confirmCall (callId accessHash : Int) (key gA : Bytes) (keyId : BitVec 64)
  | discardCall (callId accessHash : Int) (reason : TGCallDiscardReason)
  deriving DecidableEq

/-- The reason that the device shows for its own discarding of a call. -/
def localReason (reason : TGCallDiscardReason) : TGCallDiscardReason := if reason = .busy then .hangup else reason

def discardedAnswer (callId : Int) (reason : Option TLPhoneCallDiscardReason) (needsRating needsDebug : Bool) :
    Context :=
  .discarded ⟨callId, reasonForTLObject reason, true, needsRating, needsDebug, none⟩

/-- The context that comes of an answer, or `[SSignal fail:nil]`. The answer to `discardCall` is the discarded call among
the updates of the answer, if there is one. -/
def Request.context : Request → TLPhoneCall → Option Context
  | .requestCall a gA dhConfig, .phoneCallWaiting call receiveDate =>
    some (.waiting { call with a := a, gA := gA, dhConfig := some dhConfig, receiveDate := receiveDate })
  | .receivedCall call, _ => some (.received call)
  | .acceptCall call, .phoneCallWaiting answer receiveDate =>
    some (.waitingConfirm { answer with
      callId := call.callId
      accessHash := call.accessHash
      b := call.b
      gAHash := call.gAHash
      dhConfig := call.dhConfig
      receiveDate := receiveDate })
  | .confirmCall callId accessHash key _ keyId, .phoneCall answer _ _ connections =>
    some (.ongoing { answer with
      callId := callId
      accessHash := accessHash
      key := key
      keyFingerprint := keyId
      connections := connections })
  | .requestCall _ _ _, .phoneCallDiscarded callId reason needsRating needsDebug
  | .acceptCall _, .phoneCallDiscarded callId reason needsRating needsDebug
  | .confirmCall _ _ _ _ _, .phoneCallDiscarded callId reason needsRating needsDebug =>
    some (discardedAnswer callId reason needsRating needsDebug)
  | .discardCall callId _ reason, .phoneCallDiscarded _ _ needsRating needsDebug =>
    some (.discarded ⟨callId, reason, false, needsRating, needsDebug, none⟩)
  | .discardCall callId _ reason, _ => some (.discarded ⟨callId, reason, false, false, false, none⟩)
  | _, _ => none

/-- A request as it is sent, with its `inputPhoneCall`. -/
inductive CallMessage where
  | requestCall (peerId : Int) (gAHash : Bytes)
  | receivedCall (callId accessHash : Int)
  | acceptCall (callId accessHash : Int) (gB : Bytes)
  | confirmCall (callId accessHash : Int) (gA : Bytes) (keyFingerprint : BitVec 64)
  | discardCall (callId accessHash : Int) (reason : Option TLPhoneCallDiscardReason)
  deriving DecidableEq

/-! ## What `encryptionConfig` accepts -/

section
variable {κ : Type} (crypto : AuthCrypto κ)

/-- What `MTCheckIsSafePrime` finds out without the keychain. -/
def isSafePrime (p : Bytes) : Bool :=
  if p.length ≠ 256 then false
  else if p.headD 0 &&& 0x80 = 0 then false
  else if p = goodPrime0 then true
  else crypto.isPrime (ofBe p) && crypto.isPrime ((ofBe p - 1) / 2)

def isAcceptable (config : DhConfig) : Bool :=
  mtCheckIsSafeG config.g.toNat && modIsSafe (ofBe config.p) config.g.toNat && isSafePrime crypto config.p

theorem isAcceptable_ok {config : DhConfig} (h : isAcceptable crypto config = true) : DhConfigOk config := by
  obtain ⟨hmod, hprime⟩ := Bool.and_eq_true_iff.mp h
  obtain ⟨hg, hmod⟩ := Bool.and_eq_true_iff.mp hmod
  unfold isSafePrime at hprime
  split at hprime
  · cases hprime
  case isFalse hlen =>
    split at hprime
    · cases hprime
    case isFalse htop => exact ⟨hg, hmod, not_not.mp hlen, htop⟩

/-- What the checks have left in the keychain is what they find out. -/
def Truthful (keychain : Keychain) : Prop :=
  (∀ p g verdict, keychain.lookup (.isPrimeModSafe p g) = some verdict → verdict = modIsSafe (ofBe p) g) ∧
    ∀ p verdict, keychain.lookup (.isPrimeSafe p) = some verdict → verdict = isSafePrime crypto p

variable {crypto} {keychain : Keychain}

theorem Truthful.mtCheckMod (h : Truthful crypto keychain) (p : Bytes) (g : Nat) :
    (mtCheckMod p g keychain).1 = modIsSafe (ofBe p) g ∧ Truthful crypto (mtCheckMod p g keychain).2 := by
  unfold MtProto.mtCheckMod
  cases hlook : keychain.lookup (.isPrimeModSafe p g) with
  | some verdict => exact ⟨h.1 p g verdict hlook, h⟩
  | none =>
    refine ⟨rfl, fun q g' verdict hq => ?_, fun q verdict hq => h.2 q verdict ?_⟩
    · by_cases hsame : PrimeKey.isPrimeModSafe q g' = .isPrimeModSafe p g
      · obtain ⟨rfl, rfl⟩ : q = p ∧ g' = g := by simpa using hsame
        simpa [lookup_cons_self] using hq.symm
      · exact h.1 q g' verdict (by rwa [lookup_cons, beq_false_of_ne hsame] at hq)
    · rwa [lookup_cons, beq_false_of_ne (by simp)] at hq

theorem Truthful.mtCheckIsSafePrime (h : Truthful crypto keychain) (p : Bytes) :
    (mtCheckIsSafePrime crypto p keychain).1 = isSafePrime crypto p ∧
      Truthful crypto (mtCheckIsSafePrime crypto p keychain).2 := by
  unfold MtProto.mtCheckIsSafePrime
  cases hlook : keychain.lookup (.isPrimeSafe p) with
  | some verdict => exact ⟨h.2 p verdict hlook, h⟩
  | none =>
    unfold isSafePrime
    dsimp only
    split_ifs with hlen htop hgood
    · exact ⟨rfl, h⟩
    · exact ⟨rfl, h⟩
    · exact ⟨rfl, h⟩
    refine ⟨rfl, fun q g verdict hq => h.1 q g verdict ?_, fun q verdict hq => ?_⟩
    · rwa [lookup_cons, beq_false_of_ne (by simp)] at hq
    · by_cases hsame : PrimeKey.isPrimeSafe q = .isPrimeSafe p
      · obtain rfl : q = p := by simpa using hsame
        rw [isSafePrime, if_neg hlen, if_neg htop, if_neg hgood]
        simpa [lookup_cons_self] using hq.symm
      · exact h.2 q verdict (by rwa [lookup_cons, beq_false_of_ne hsame] at hq)

theorem Truthful.encryptionConfig (h : Truthful crypto keychain) (answer : DhConfig) :
    (encryptionConfig crypto none answer keychain).1 = (if isAcceptable crypto answer then some answer else none) ∧
      Truthful crypto (encryptionConfig crypto none answer keychain).2 := by
  obtain ⟨hmod, h₁⟩ := h.mtCheckMod answer.p answer.g.toNat
  obtain ⟨hprime, h₂⟩ := h₁.mtCheckIsSafePrime answer.p
  unfold Calls.encryptionConfig isAcceptable
  cases mtCheckIsSafeG answer.g.toNat with
  | false => exact ⟨rfl, h⟩
  | true =>
    simp only [hmod, hprime]
    cases modIsSafe (ofBe answer.p) answer.g.toNat with
    | false => exact ⟨rfl, h₁⟩
    | true => cases isSafePrime crypto answer.p <;> exact ⟨rfl, h₂⟩

variable (crypto)

/-- What is cached after some calls of `encryptionConfig`, and the keychain. -/
def runConfigs (answers : List DhConfig) : Option DhConfig × Keychain :=
  answers.foldl (fun s answer => encryptionConfig crypto s.1 answer s.2) (none, [])

/-- **Every call uses the first answer that is acceptable**: neither the cache nor the keychain lets another one in. -/
theorem runConfigs_eq (answers : List DhConfig) :
    (runConfigs crypto answers).1 = answers.find? (isAcceptable crypto) ∧
      ∀ config, (runConfigs crypto answers).1 = some config → DhConfigOk config := by
  suffices h : (runConfigs crypto answers).1 = answers.find? (isAcceptable crypto) ∧
      Truthful crypto (runConfigs crypto answers).2 from
    ⟨h.1, fun config hconfig => isAcceptable_ok crypto (find?_some (h.1 ▸ hconfig))⟩
  induction answers using List.reverseRecOn with
  | nil => exact ⟨rfl, nofun, nofun⟩
  | append_singleton answers answer ih =>
    obtain ⟨hconfig, htruthful⟩ := ih
    have hrun : runConfigs crypto (answers ++ [answer]) =
        encryptionConfig crypto (runConfigs crypto answers).1 answer (runConfigs crypto answers).2 := by
      rw [runConfigs, foldl_append]
      rfl
    rw [hrun, find?_append, hconfig]
    cases answers.find? (isAcceptable crypto) with
    | some config => exact ⟨rfl, htruthful⟩
    | none =>
      obtain ⟨hresult, htruthful⟩ := htruthful.encryptionConfig answer
      refine ⟨?_, htruthful⟩
      rw [hresult, Option.none_or, find?_cons]
      cases isAcceptable crypto answer <;> rfl

end

/-! ## Keys are padded -/

theorem ofBe_zero_cons (bs : Bytes) : ofBe (0 :: bs) = ofBe bs := by
  induction bs using List.reverseRecOn with
  | nil => rfl
  | append_singleton bs b ih => rw [← cons_append, ofBe_concat, ofBe_concat, ih]

theorem ofBe_replicate_zero_append (n : Nat) (bs : Bytes) : ofBe (replicate n 0 ++ bs) = ofBe bs := by
  induction n with
  | zero => rfl
  | succ n ih => rw [replicate_succ, cons_append, ofBe_zero_cons, ih]

theorem beBytes_zero (n : Nat) : beBytes n 0 = replicate n 0 := by
  have h := beBytes_ofBe (replicate n 0)
  rw [← append_nil (replicate n (0 : UInt8)), ofBe_replicate_zero_append, append_nil,
    length_replicate] at h
  exact h

theorem replicate_append_bnToBin {n k : Nat} (h : n < 256 ^ k) :
    replicate (k - (bnToBin n).length) 0 ++ bnToBin n = beBytes k n := by
  have hlen := length_bnToBin_le h
  have hbs := beBytes_ofBe (replicate (k - (bnToBin n).length) 0 ++ bnToBin n)
  rw [ofBe_replicate_zero_append, ofBe_bnToBin, length_append, length_replicate,
    Nat.sub_add_cancel hlen] at hbs
  exact hbs.symm

namespace AcceptedConfig
variable (config : AcceptedConfig)

theorem ofBe_p_pos : 0 < ofBe config.p := by
  rcases Nat.eq_zero_or_pos (ofBe config.p) with hzero | hpos
  · have hp := beBytes_ofBe config.p
    rw [hzero, config.ok.length_p, beBytes_zero] at hp
    exact absurd (by rw [← hp]; rfl) config.ok.topBit
  · exact hpos

theorem ofBe_p_lt : ofBe config.p < 256 ^ 256 := by
  have h := ofBe_lt config.p
  rwa [config.ok.length_p] at h

variable (base exp : Bytes)

theorem length_mtExp_le : (mtExp base exp config.p).length ≤ 256 := by
  have h := MtProto.length_mtExp_le base exp config.ofBe_p_pos
  rwa [config.ok.length_p] at h

/-- **A key has 256 bytes, with leading zeros kept**: those of the power. -/
theorem outgoingKey_mtExp :
    outgoingKey (mtExp base exp config.p) = beBytes 256 (ofBe base ^ ofBe exp % ofBe config.p) := by
  have hlt := (Nat.mod_lt (ofBe base ^ ofBe exp) config.ofBe_p_pos).trans config.ofBe_p_lt
  have hlen := config.length_mtExp_le base exp
  rw [outgoingKey, padKey, if_neg (by omega), mtExp, replicate_append_bnToBin hlt]

/-- Both halves pad alike, for they never have a byte too many. -/
theorem incomingKey_mtExp : incomingKey (mtExp base exp config.p) = outgoingKey (mtExp base exp config.p) := by
  have hlen := config.length_mtExp_le base exp
  rw [incomingKey, outgoingKey, padKey, if_neg (by omega), if_neg (by omega)]

theorem outgoingKey_gPower (a b : Bytes) : outgoingKey (mtExp (gPower config.toDhConfig b) a config.p) =
      beBytes 256 (config.g.toNat ^ (ofBe a * ofBe b) % ofBe config.p) := by
  have hg : ofBe (leBits config.g).reverse = config.g.toNat := by
    rw [ofBe, reverse_reverse, leBits, ofLe_leBytes]
    exact Nat.mod_eq_of_lt config.g.isLt
  rw [config.outgoingKey_mtExp, gPower, mtExp, ofBe_bnToBin, hg, ← Nat.pow_mod, ← pow_mul, Nat.mul_comm]

end AcceptedConfig

end TelegramClient.Calls
