import TelegramClient.MtProto.Encryption
import TelegramClient.MtProto.Incoming
import TelegramClient.MtProto.Packing
import TelegramClient.MtProto.SessionInfo

/-!
# Outgoing transactions

The payloads of one transaction: the containers that the packing loop makes, each padded, encrypted and recorded
with the id by which the server acknowledges it quickly.

* `paddedData` : the padding of a plaintext; `paddedDataChecked` : the same with the checks that never fail;
* `recordedQuickAck_iff` : when it is the one that is recorded.
-/

namespace TelegramClient.MtProto
open Vector (replicate)

/-- What the environment supplies for one payload: the bytes of `arc4random_buf`, the number that
`arc4random_uniform` reduces to its bound, and the server's time. -/
structure PayloadEnvironment where
  randomBytes : Block 256
  uniform : Nat
  now : BitVec 64

/-! ## Padding -/

/-- `[padded appendBytes:randomBytes + take length:1]; take++`. -/
def appendRandomByte (randomBytes : Block 256) (state : Bytes × Nat) : Bytes × Nat :=
  (state.1 ++ [randomBytes.toList.getD state.2 0], state.2 + 1)

/-- `count` random bytes. -/
def appendRandomBytes (randomBytes : Block 256) : Nat → Bytes × Nat → Bytes × Nat
  | 0, state => state
  | count + 1, state => appendRandomBytes randomBytes count (appendRandomByte randomBytes state)

/-- `while (padded.length % 16 != 0)`; 15 rounds are enough. -/
def fillBlock (randomBytes : Block 256) : Nat → Bytes × Nat → Bytes × Nat
  | 0, state => state
  | rounds + 1, state =>
    if state.1.length % 16 ≠ 0 then fillBlock randomBytes rounds (appendRandomByte randomBytes state) else state

/-- `while (remainingCount % 16 != 0) remainingCount--`. -/
def roundDownCount : Nat → Nat
  | 0 => 0
  | n + 1 => if (n + 1) % 16 ≠ 0 then roundDownCount n else n + 1

/-- `paddedData:extendedPadding:`. -/
def paddedData (env : PayloadEnvironment) (data : Bytes) (extendedPadding : Bool) : Bytes :=
  let (padded, take) := fillBlock env.randomBytes 15 (appendRandomBytes env.randomBytes 12 (data, 0))
  let extraPaddingSize := if extendedPadding then 256 else 72
  let remainingCount := roundDownCount (env.uniform % (extraPaddingSize + 1 - take))
  (appendRandomBytes env.randomBytes remainingCount (padded, take)).1

theorem roundDownCount_spec (n : Nat) : roundDownCount n % 16 = 0 ∧ roundDownCount n ≤ n := by
  induction n with
  | zero => exact ⟨rfl, Nat.le_refl 0⟩
  | succ n ih =>
    unfold roundDownCount
    split
    · exact ⟨ih.1, by omega⟩
    · next h => exact ⟨by omega, Nat.le_refl _⟩

theorem appendRandomBytes_spec (randomBytes : Block 256) (count : Nat) (state : Bytes × Nat) :
    ∃ padding : Bytes, padding.length = count ∧
      appendRandomBytes randomBytes count state = (state.1 ++ padding, state.2 + count) := by
  induction count generalizing state with
  | zero => exact ⟨[], rfl, by simp [appendRandomBytes]⟩
  | succ count ih =>
    obtain ⟨padding, hlen, heq⟩ := ih (appendRandomByte randomBytes state)
    refine ⟨randomBytes.toList.getD state.2 0 :: padding, by simp [hlen], ?_⟩
    rw [appendRandomBytes, heq, appendRandomByte, List.append_assoc, List.singleton_append, Nat.add_assoc,
      Nat.add_comm 1]

theorem fillBlock_spec (randomBytes : Block 256) (rounds : Nat) (state : Bytes × Nat)
    (h : (16 - state.1.length % 16) % 16 ≤ rounds) :
    ∃ padding : Bytes, padding.length ≤ rounds ∧ (state.1 ++ padding).length % 16 = 0 ∧
      fillBlock randomBytes rounds state = (state.1 ++ padding, state.2 + padding.length) := by
  induction rounds generalizing state with
  | zero => exact ⟨[], Nat.le_refl 0, by rw [List.append_nil]; omega, by simp [fillBlock]⟩
  | succ rounds ih =>
    by_cases hmod : state.1.length % 16 = 0
    · refine ⟨[], Nat.zero_le _, by rwa [List.append_nil], ?_⟩
      rw [fillBlock, if_neg (not_not_intro hmod)]
      simp
    · have hstep : (appendRandomByte randomBytes state).1.length = state.1.length + 1 := by
        simp [appendRandomByte]
      obtain ⟨padding, hlen, hfull, heq⟩ := ih (appendRandomByte randomBytes state) (by omega)
      refine ⟨randomBytes.toList.getD state.2 0 :: padding, by simpa using hlen, ?_, ?_⟩
      · simpa [appendRandomByte] using hfull
      · rw [fillBlock, if_pos hmod, heq, appendRandomByte, List.append_assoc, List.singleton_append,
          List.length_cons, Nat.add_assoc, Nat.add_comm 1]

theorem paddedData_spec (env : PayloadEnvironment) (data : Bytes) (extendedPadding : Bool) :
    ∃ padding : Bytes, paddedData env data extendedPadding = data ++ padding ∧ 12 ≤ padding.length ∧
      padding.length ≤ (if extendedPadding then 256 else 72) ∧
      (paddedData env data extendedPadding).length % 16 = 0 := by
  obtain ⟨p₁, hlen₁, heq₁⟩ := appendRandomBytes_spec env.randomBytes 12 (data, 0)
  obtain ⟨p₂, hlen₂, hfull, heq₂⟩ := fillBlock_spec env.randomBytes 15 (data ++ p₁, 0 + 12) (by
    have := Nat.mod_lt (16 - (data ++ p₁).length % 16) (show 0 < 16 by norm_num)
    omega)
  dsimp only at heq₁ hfull heq₂
  unfold paddedData
  rw [heq₁, heq₂]
  dsimp only
  set extra := if extendedPadding then 256 else 72 with hextra
  have hextraLe : 72 ≤ extra ∧ extra ≤ 256 := by
    rw [hextra]
    split <;> omega
  set count := roundDownCount (env.uniform % (extra + 1 - (0 + 12 + p₂.length))) with hcnt
  obtain ⟨hround, hle⟩ := roundDownCount_spec (env.uniform % (extra + 1 - (0 + 12 + p₂.length)))
  have hlt := Nat.mod_lt env.uniform (show 0 < extra + 1 - (0 + 12 + p₂.length) by omega)
  obtain ⟨p₃, hlen₃, heq₃⟩ := appendRandomBytes_spec env.randomBytes count (data ++ p₁ ++ p₂, 0 + 12 + p₂.length)
  rw [heq₃]
  refine ⟨p₁ ++ p₂ ++ p₃, by simp, ?_, ?_, ?_⟩
  · simp only [List.length_append]
    omega
  · simp only [List.length_append]
    omega
  · simp only [List.length_append] at hfull ⊢
    omega

/-! ### The checks of the padding -/

/-- `appendRandomByte`, where a read behind the 256 bytes fails. -/
def appendRandomByteChecked (randomBytes : Block 256) (state : Bytes × Nat) : Option (Bytes × Nat) :=
  randomBytes.toList[state.2]?.map fun byte => (state.1 ++ [byte], state.2 + 1)

def appendRandomBytesChecked (randomBytes : Block 256) : Nat → Bytes × Nat → Option (Bytes × Nat)
  | 0, state => some state
  | count + 1, state =>
    (appendRandomByteChecked randomBytes state).bind (appendRandomBytesChecked randomBytes count)

/-- Too few rounds fail as well. -/
def fillBlockChecked (randomBytes : Block 256) : Nat → Bytes × Nat → Option (Bytes × Nat)
  | 0, state => if state.1.length % 16 ≠ 0 then none else some state
  | rounds + 1, state =>
    if state.1.length % 16 ≠ 0 then
      (appendRandomByteChecked randomBytes state).bind (fillBlockChecked randomBytes rounds)
    else some state

/-- `arc4random_uniform(upperBound)`, where a bound of 0 fails. -/
def arc4randomUniform (env : PayloadEnvironment) (upperBound : BitVec 32) : Option Nat :=
  if upperBound = 0 then none else some (env.uniform % upperBound.toNat)

/-- `paddedData:extendedPadding:`, where a read behind the random bytes and a bound of 0 fail. -/
def paddedDataChecked (env : PayloadEnvironment) (data : Bytes) (extendedPadding : Bool) : Option Bytes := do
  let (padded, take) ← appendRandomBytesChecked env.randomBytes 12 (data, 0)
  let (padded, take) ← fillBlockChecked env.randomBytes 15 (padded, take)
  let extraPaddingSize : BitVec 32 := if extendedPadding then 256 else 72
  let remainingCount ← arc4randomUniform env (extraPaddingSize + 1 - BitVec.ofNat 32 take)
  let (padded, _) ← appendRandomBytesChecked env.randomBytes (roundDownCount remainingCount) (padded, take)
  return padded

variable {randomBytes : Block 256} {state : Bytes × Nat}

theorem appendRandomByteChecked_eq (h : state.2 < 256) :
    appendRandomByteChecked randomBytes state = some (appendRandomByte randomBytes state) := by
  have hlt : state.2 < randomBytes.toList.length := by rwa [Vector.length_toList]
  rw [appendRandomByteChecked, appendRandomByte, List.getD_eq_getElem?_getD, List.getElem?_eq_getElem hlt]
  rfl

theorem appendRandomBytesChecked_eq {count : Nat} (h : state.2 + count ≤ 256) :
    appendRandomBytesChecked randomBytes count state = some (appendRandomBytes randomBytes count state) := by
  induction count generalizing state with
  | zero => rfl
  | succ count ih =>
    rw [appendRandomBytesChecked, appendRandomByteChecked_eq (by omega), Option.bind_some, ih, appendRandomBytes]
    dsimp only [appendRandomByte]
    omega

theorem fillBlockChecked_eq {rounds : Nat} (h : (16 - state.1.length % 16) % 16 ≤ rounds)
    (htake : state.2 + rounds ≤ 256) :
    fillBlockChecked randomBytes rounds state = some (fillBlock randomBytes rounds state) := by
  induction rounds generalizing state with
  | zero => rw [fillBlockChecked, if_neg (by omega), fillBlock]
  | succ rounds ih =>
    rw [fillBlockChecked, fillBlock]
    split
    · rw [appendRandomByteChecked_eq (by omega), Option.bind_some, ih]
      · rw [appendRandomByte, List.length_append, List.length_singleton]
        omega
      · dsimp only [appendRandomByte]
        omega
    · rfl

/-- **The padding of every plaintext** has at least 12 bytes and at most 72, or 256 when it is extended, fills the
last block, and is made without a read behind the random bytes and without a random number below 0. -/
theorem paddedDataChecked_spec (env : PayloadEnvironment) (data : Bytes) (extendedPadding : Bool) :
    paddedDataChecked env data extendedPadding = some (paddedData env data extendedPadding) ∧
      ∃ padding : Bytes, paddedData env data extendedPadding = data ++ padding ∧ 12 ≤ padding.length ∧
        padding.length ≤ (if extendedPadding then 256 else 72) ∧
        (paddedData env data extendedPadding).length % 16 = 0 := by
  refine ⟨?_, paddedData_spec env data extendedPadding⟩
  obtain ⟨p₁, hlen₁, heq₁⟩ := appendRandomBytes_spec env.randomBytes 12 (data, 0)
  have hrounds : (16 - (data ++ p₁).length % 16) % 16 ≤ 15 := by omega
  obtain ⟨p₂, hlen₂, -, heq₂⟩ := fillBlock_spec env.randomBytes 15 (data ++ p₁, 0 + 12) hrounds
  have hbound : ((if extendedPadding then 256 else 72 : BitVec 32) + 1 - BitVec.ofNat 32 (0 + 12 + p₂.length)).toNat =
      (if extendedPadding then 256 else 72) + 1 - (0 + 12 + p₂.length) := by
    cases extendedPadding <;> simp only [if_true, if_false, Bool.false_eq_true] <;> bv_omega
  rw [paddedDataChecked, paddedData, appendRandomBytesChecked_eq (by norm_num), heq₁]
  simp only [Option.bind_eq_bind, Option.bind_some]
  rw [fillBlockChecked_eq hrounds (by norm_num), heq₂]
  simp only [Option.bind_some]
  rw [← hbound]
  generalize (if extendedPadding then 256 else 72 : BitVec 32) + 1 - BitVec.ofNat 32 (0 + 12 + p₂.length) = bound
    at hbound ⊢
  have hpositive : 0 < bound.toNat ∧ bound.toNat + (0 + 12 + p₂.length) ≤ 257 := by
    rw [hbound]
    split <;> omega
  have hnonzero : bound ≠ 0 := fun hzero => absurd hpositive.1 (by rw [hzero]; decide)
  have hround := (roundDownCount_spec (env.uniform % bound.toNat)).2
  have hlt := Nat.mod_lt env.uniform hpositive.1
  rw [arc4randomUniform, if_neg hnonzero, Option.bind_some, appendRandomBytesChecked_eq (by dsimp only; omega)]
  rfl

/-! ## The builders -/

structure TransactionSetup where
  crypto : Crypto
  auth : AuthState
  preferForMedia : Bool
  extendedPadding : Bool
  forceConfirmations : Bool
  /-- `preparedMessageInternalIdToMessageInternalId`. -/
  messageInternalId : Nat → Nat

/-- What a builder leaves behind: the payload, the content of `*quickAckId` and the session. The padded plaintext
is kept beside them. -/
structure BuiltPayload where
  data : Option Bytes
  decryptedData : Bytes
  quickAckId : BitVec 32
  session : MTSessionInfo

def encryptPayload (crypto : Crypto) (authKey : Block 256) (authKeyId : BitVec 64) (messageKey decryptedData : Bytes) :
    Option Bytes := do
  let encryptionKey ← messageEncryptionKeyV2 crypto (some authKey) messageKey false
  let encryptedData := mtAesEncryptInplace crypto.aes decryptedData encryptionKey.key encryptionKey.iv
  return leBits authKeyId ++ messageKey ++ encryptedData

/-- `_dataForEncryptedMessage:..`. Without a key the source reads from a null pointer. -/
def dataForEncryptedMessage (setup : TransactionSetup) (env : PayloadEnvironment)
    (preparedMessage : MTPreparedMessage) (session : MTSessionInfo) (quickAckId : BitVec 32) :
    Except Fault BuiltPayload :=
  match setup.auth.effectiveAuthKey setup.preferForMedia with
  | some ⟨some authKey, authKeyId, _⟩ =>
    let decryptedData := paddedData env (decryptedPacket preparedMessage.salt session.sessionId
      preparedMessage.messageId preparedMessage.seqNo preparedMessage.data []) setup.extendedPadding
    let messageKey := slice (msgKeyLarge setup.crypto authKey 0 decryptedData) 8 16
    .ok ⟨encryptPayload setup.crypto authKey authKeyId messageKey decryptedData, decryptedData, quickAckId, session⟩
  | _ => .error .raised

/-- `_dataForEncryptedContainerWithMessages:..`. -/
def dataForEncryptedContainer (setup : TransactionSetup) (env : PayloadEnvironment)
    (preparedMessages : List MTPreparedMessage) (session : MTSessionInfo) : Except Fault BuiltPayload :=
  match setup.auth.effectiveAuthKey setup.preferForMedia with
  | some ⟨some authKey, authKeyId, _⟩ =>
    let salt := (preparedMessages.getLast?.map fun m => m.salt).getD 0
    let containerMessageIds := (preparedMessages.filter fun m => m.requiresConfirmation).map fun m => m.messageId
    let (containerMessageId, _, session) := session.generateClientMessageId env.now
    let session := if containerMessageIds.length ≠ 0 then
      session.addContainerMessageIdMapping containerMessageId containerMessageIds else session
    let (seqNo, session) := session.takeSeqNo false
    let decryptedData := paddedData env (decryptedPacket salt session.sessionId containerMessageId seqNo
      (containerData preparedMessages) []) setup.extendedPadding
    let msgKeyLarge := msgKeyLarge setup.crypto authKey 0 decryptedData
    let messageKey := slice msgKeyLarge 8 16
    let nQuickAckId := ofLeBits 32 (slice msgKeyLarge 0 4) &&& 0x7fffffff
    .ok ⟨encryptPayload setup.crypto authKey authKeyId messageKey decryptedData, decryptedData, nQuickAckId, session⟩
  | _ => .error .raised

/-- `_dataForPlainMessage:extendedPadding:`. -/
def dataForPlainMessage (env : PayloadEnvironment) (preparedMessage : MTPreparedMessage) (extendedPadding : Bool) :
    Bytes :=
  let paddingSize := if extendedPadding then env.uniform % ((256 - 16) / 4) * 4 else 0
  leBits (0 : BitVec 64) ++ leBits preparedMessage.messageId ++
    leBits (BitVec.ofNat 32 preparedMessage.data.length) ++ preparedMessage.data ++
    slice env.randomBytes.toList 0 paddingSize

/-! ## The payloads of a transaction -/

/-- One entry of `transactionPayloadList`, `messageInternalIdsByPayload` and `quickAckIdsByPayload`, with the
padded plaintext beside it. -/
structure RecordedPayload where
  payload : Bytes
  decryptedData : Bytes
  messageInternalIds : List Nat
  quickAckId : BitVec 32

structure TransactionState where
  session : MTSessionInfo
  round : Nat
  payloads : List RecordedPayload

/-- What a payload adds to the lists; a builder that returned `nil` adds nothing. -/
def TransactionState.record (state : TransactionState) (built : BuiltPayload) (messageInternalIds : List Nat) :
    TransactionState :=
  ⟨built.session, state.round + 1, match built.data with
    | some payload =>
      state.payloads ++ [⟨payload, built.decryptedData, messageInternalIds, built.quickAckId⟩]
    | none => state.payloads⟩

def emitContainer (setup : TransactionSetup) (env : Nat → PayloadEnvironment)
    (state : Except Fault TransactionState) (container : List MTPreparedMessage) :
    Except Fault TransactionState := do
  let state ← state
  match container with
  | [] => return state
  | [preparedMessage] =>
    let built ← dataForEncryptedMessage setup (env state.round) preparedMessage state.session 0
    return state.record built [setup.messageInternalId preparedMessage.internalId]
  | preparedMessages =>
    let built ← dataForEncryptedContainer setup (env state.round) preparedMessages state.session
    return state.record built (preparedMessages.map fun m => setup.messageInternalId m.internalId)

def emitPlain (setup : TransactionSetup) (env : Nat → PayloadEnvironment) (state : TransactionState)
    (preparedMessage : MTPreparedMessage) : TransactionState :=
  let messageData := dataForPlainMessage (env state.round) preparedMessage setup.extendedPadding
  state.record ⟨some messageData, messageData, 0, state.session⟩ [setup.messageInternalId preparedMessage.internalId]

/-- The part of `transportReadyForTransaction:` from `transactionMessageList` to the payloads. -/
def transactionPayloads (setup : TransactionSetup) (env : Nat → PayloadEnvironment) (useUnauthorizedMode : Bool)
    (transactionMessageList : List MTPreparedMessage) (session : MTSessionInfo) :
    Option (Except Fault TransactionState) :=
  let messages := arrangeMessages setup.forceConfirmations transactionMessageList
  if useUnauthorizedMode then some (.ok (messages.foldl (emitPlain setup env) ⟨session, 0, []⟩))
  else packLoop (emitContainer setup env) setup.forceConfirmations messages messages.length 0 false
    (.ok ⟨session, 0, []⟩)

/-! ## Quick acknowledgements -/

/-- The id by which the server acknowledges a packet: the first four bytes of the digest that the message key is
cut from, without bit 31. -/
def quickAck (crypto : Crypto) (authKey : Block 256) (decryptedData : Bytes) : BitVec 32 :=
  ofLeBits 32 (slice (msgKeyLarge crypto authKey 0 decryptedData) 0 4) &&& 0x7fffffff

/-- The padded plaintext of a message that is sent alone. -/
def messagePlaintext (setup : TransactionSetup) (env : PayloadEnvironment) (sessionId : BitVec 64)
    (preparedMessage : MTPreparedMessage) : Bytes :=
  paddedData env (decryptedPacket preparedMessage.salt sessionId preparedMessage.messageId preparedMessage.seqNo
    preparedMessage.data []) setup.extendedPadding

section
variable {setup : TransactionSetup} {authKey : Block 256} {authKeyId : BitVec 64} {notBound : Bool}

theorem encryptPayload_isSome (crypto : Crypto) (authKey : Block 256) (authKeyId : BitVec 64) (digest : Block 32)
    (decryptedData : Bytes) :
    ∃ payload, encryptPayload crypto authKey authKeyId (slice digest.toList 8 16) decryptedData = some payload := by
  have hlen : (slice digest.toList 8 16).length = 16 := length_slice_block digest (by norm_num)
  unfold encryptPayload messageEncryptionKeyV2
  dsimp only
  rw [if_neg (by omega)]
  exact ⟨_, rfl⟩

section
variable (hkey : setup.auth.effectiveAuthKey setup.preferForMedia = some ⟨some authKey, authKeyId, notBound⟩)
include hkey

variable (e : PayloadEnvironment)

theorem dataForEncryptedMessage_spec (m : MTPreparedMessage) (session : MTSessionInfo) (quickAckId : BitVec 32) :
    ∃ payload, dataForEncryptedMessage setup e m session quickAckId =
      .ok ⟨some payload, messagePlaintext setup e session.sessionId m, quickAckId, session⟩ := by
  obtain ⟨payload, hpay⟩ := encryptPayload_isSome setup.crypto authKey authKeyId
    (setup.crypto.mtSha256 (slice authKey.toList (88 + 0) 32 ++ messagePlaintext setup e session.sessionId m))
    (messagePlaintext setup e session.sessionId m)
  refine ⟨payload, ?_⟩
  unfold dataForEncryptedMessage
  rw [hkey, ← hpay]
  rfl

theorem dataForEncryptedContainer_spec (messages : List MTPreparedMessage) (session : MTSessionInfo) :
    ∃ built, dataForEncryptedContainer setup e messages session = .ok built ∧
      (∃ payload, built.data = some payload) ∧ built.quickAckId = quickAck setup.crypto authKey built.decryptedData ∧
      built.session.sessionId = session.sessionId := by
  have hsess (ids : List (BitVec 64)) (containerMessageId : BitVec 64) : (if ids.length ≠ 0 then
        (session.generateClientMessageId e.now).2.2.addContainerMessageIdMapping containerMessageId ids
      else (session.generateClientMessageId e.now).2.2).sessionId = session.sessionId := by
    split <;> rfl
  unfold dataForEncryptedContainer
  rw [hkey]
  dsimp only
  refine ⟨_, rfl, ?_, rfl, ?_⟩
  · exact encryptPayload_isSome setup.crypto authKey authKeyId _ _
  · exact hsess _ _

end

variable (env : Nat → PayloadEnvironment)

theorem emitContainer_spec
    (hkey : setup.auth.effectiveAuthKey setup.preferForMedia = some ⟨some authKey, authKeyId, notBound⟩)
    (state : TransactionState) {container : List MTPreparedMessage} (hne : container ≠ []) :
    ∃ state' recorded, emitContainer setup env (.ok state) container = .ok state' ∧
      state'.session.sessionId = state.session.sessionId ∧ state'.round = state.round + 1 ∧
      state'.payloads = state.payloads ++ [recorded] ∧
      (recorded.quickAckId = quickAck setup.crypto authKey recorded.decryptedData ↔ ∀ m, container = [m] →
          quickAck setup.crypto authKey (messagePlaintext setup (env state.round) state.session.sessionId m) = 0) := by
  match container with
  | [] => exact absurd rfl hne
  | [m] =>
    obtain ⟨payload, hbuilt⟩ := dataForEncryptedMessage_spec hkey (env state.round) m state.session 0
    set plaintext := messagePlaintext setup (env state.round) state.session.sessionId m with hplaintext
    set ids := [setup.messageInternalId m.internalId] with hids
    refine ⟨state.record ⟨some payload, plaintext, 0, state.session⟩ ids, ⟨payload, plaintext, ids, 0⟩, ?_, rfl, rfl,
      rfl, ?_⟩
    · unfold emitContainer
      simp only [bind, Except.bind, hbuilt]
      rfl
    · constructor
      · intro h m' hm'
        cases hm'
        exact h.symm
      · intro h
        exact (h m rfl).symm
  | m₁ :: m₂ :: ms =>
    obtain ⟨built, hbuilt, ⟨payload, hdata⟩, hquick, hsess⟩ :=
      dataForEncryptedContainer_spec hkey (env state.round) (m₁ :: m₂ :: ms) state.session
    set ids := (m₁ :: m₂ :: ms).map fun m => setup.messageInternalId m.internalId with hids
    refine ⟨state.record built ids, ⟨payload, built.decryptedData, ids, built.quickAckId⟩, ?_, hsess, rfl, ?_, ?_⟩
    · unfold emitContainer
      simp only [bind, Except.bind, hbuilt]
      rfl
    · unfold TransactionState.record
      rw [hdata]
    · constructor
      · intro _ m hm
        cases hm
      · intro _
        exact hquick

/-- The containers one after the other: one payload for each, and all ids are right exactly if the ids of the
messages sent alone happen to be 0. -/
theorem foldl_emitContainer
    (hkey : setup.auth.effectiveAuthKey setup.preferForMedia = some ⟨some authKey, authKeyId, notBound⟩)
    (groups : List (List MTPreparedMessage)) (hne : ∀ group ∈ groups, group ≠ []) (state : TransactionState) :
    ∃ state' new, groups.foldl (emitContainer setup env) (.ok state) = .ok state' ∧
      state'.payloads = state.payloads ++ new ∧ new.length = groups.length ∧
      ((∀ recorded ∈ new, recorded.quickAckId = quickAck setup.crypto authKey recorded.decryptedData) ↔
        ∀ k m, groups[k]? = some [m] → quickAck setup.crypto authKey
            (messagePlaintext setup (env (state.round + k)) state.session.sessionId m) = 0) := by
  induction groups generalizing state with
  | nil => exact ⟨state, [], rfl, by simp, rfl, by simp⟩
  | cons group groups ih =>
    obtain ⟨state₁, recorded, hemit, hsess, hround, hpays, hfirst⟩ :=
      emitContainer_spec env hkey state (hne group (by simp))
    obtain ⟨state₂, new, hfold, hpayloads₂, hlen, hrest⟩ :=
      ih (fun g hg => hne g (List.mem_cons_of_mem group hg)) state₁
    refine ⟨state₂, recorded :: new, ?_, ?_, by simp [hlen], ?_⟩
    · rw [List.foldl_cons, hemit, hfold]
    · rw [hpayloads₂, hpays, List.append_assoc, List.singleton_append]
    · rw [List.forall_mem_cons, hfirst, hrest, hsess, hround]
      constructor
      · rintro ⟨h0, hsucc⟩ k m hk
        cases k with
        | zero =>
          rw [List.getElem?_cons_zero, Option.some.injEq] at hk
          exact h0 m hk
        | succ k =>
          rw [List.getElem?_cons_succ] at hk
          have := hsucc k m hk
          rwa [Nat.add_assoc, Nat.add_comm 1] at this
      · intro h
        constructor
        · intro m hm
          exact h 0 m (by rw [List.getElem?_cons_zero, hm])
        · intro k m hk
          have := h (k + 1) m (by rwa [List.getElem?_cons_succ])
          rwa [Nat.add_assoc, Nat.add_comm 1]

end

/-- **Quick acknowledgements of a transaction.** Every group of messages becomes a payload, and the ids recorded
for the payloads are the ones that the server will send exactly if each message that is sent alone has the id 0:
for such a message nothing is recorded. -/
theorem recordedQuickAck_iff (setup : TransactionSetup) (env : Nat → PayloadEnvironment)
    (transactionMessageList : List MTPreparedMessage) (session : MTSessionInfo) (authKey : Block 256)
    (authKeyId : BitVec 64) (notBound : Bool)
    (hkey : setup.auth.effectiveAuthKey setup.preferForMedia = some ⟨some authKey, authKeyId, notBound⟩) :
    ∃ groups state,
      packGroups setup.forceConfirmations (arrangeMessages setup.forceConfirmations transactionMessageList) =
        some groups ∧
      transactionPayloads setup env false transactionMessageList session = some (.ok state) ∧
      state.payloads.length = groups.length ∧
      ((∀ recorded ∈ state.payloads, recorded.quickAckId = quickAck setup.crypto authKey recorded.decryptedData) ↔
        ∀ k m, groups[k]? = some [m] →
          quickAck setup.crypto authKey (messagePlaintext setup (env k) session.sessionId m) = 0) := by
  obtain ⟨groups, hpack, -, hne⟩ := packGroups_flatten setup.forceConfirmations
    (arrangeMessages setup.forceConfirmations transactionMessageList)
  obtain ⟨state, new, hfold, hpayloads, hlen, hiff⟩ := foldl_emitContainer env hkey groups hne ⟨session, 0, []⟩
  rw [List.nil_append] at hpayloads
  refine ⟨groups, state, hpack, ?_, by rw [hpayloads, hlen], ?_⟩
  · have hloop := packLoop_emit (emitContainer setup env) setup.forceConfirmations
      (arrangeMessages setup.forceConfirmations transactionMessageList)
      (arrangeMessages setup.forceConfirmations transactionMessageList).length 0 false [] (.ok ⟨session, 0, []⟩)
    unfold packGroups at hpack
    rw [hpack, List.foldl_nil] at hloop
    unfold transactionPayloads
    dsimp only
    rw [if_neg Bool.false_ne_true, hloop, Option.map_some, hfold]
  · rw [hpayloads, hiff]
    simp only [Nat.zero_add]

/-- A transaction with a permanent key, whose digests all consist of the byte `b`. -/
def constantSetup (b : UInt8) : TransactionSetup := ⟨constantCrypto b, zeroAuth, false, false, false, id⟩

def zeroEnvironment : PayloadEnvironment := ⟨replicate 256 0, 0, 0⟩

def aloneMessage : MTPreparedMessage := ⟨1, 0x100, 1, 7, [1, 2, 3, 4], true, false⟩

/-- With digests of zeros every id is 0, also the one that is not written. -/
theorem recordedQuickAck_zero :
    ∃ state, transactionPayloads (constantSetup 0) (fun _ => zeroEnvironment) false [aloneMessage]
        (.initWithSessionId 1) = some (.ok state) ∧
      ∀ recorded ∈ state.payloads,
        recorded.quickAckId = quickAck (constantCrypto 0) (replicate 256 0) recorded.decryptedData := by
  obtain ⟨groups, state, -, hrun, -, hiff⟩ := recordedQuickAck_iff (constantSetup 0) (fun _ => zeroEnvironment)
    [aloneMessage] (.initWithSessionId 1) (replicate 256 0) 1 false rfl
  refine ⟨state, hrun, hiff.mpr ?_⟩
  intro k m _
  change ofLeBits 32 (slice (replicate 32 (0 : UInt8)).toList 0 4) &&& 0x7fffffff = 0
  decide

/-- With digests of ones the server sends `0x7fffffff`, and 0 is recorded. -/
theorem not_recordedQuickAck_alone :
    ¬ ∀ state, transactionPayloads (constantSetup 255) (fun _ => zeroEnvironment) false [aloneMessage]
        (.initWithSessionId 1) = some (.ok state) →
      ∀ recorded ∈ state.payloads,
        recorded.quickAckId = quickAck (constantCrypto 255) (replicate 256 0) recorded.decryptedData := by
  have hkey : (constantSetup 255).auth.effectiveAuthKey (constantSetup 255).preferForMedia =
      some ⟨some (replicate 256 0), 1, false⟩ := rfl
  have hpack : packGroups false [aloneMessage] = some [[aloneMessage]] := by decide +kernel
  obtain ⟨state, new, hfold, hpayloads, -, hiff⟩ := foldl_emitContainer (fun _ => zeroEnvironment) hkey
    [[aloneMessage]] (by simp) ⟨.initWithSessionId 1, 0, []⟩
  rw [List.nil_append] at hpayloads
  have hrun : transactionPayloads (constantSetup 255) (fun _ => zeroEnvironment) false [aloneMessage]
      (.initWithSessionId 1) = some (.ok state) := by
    have hloop := packLoop_emit (emitContainer (constantSetup 255) fun _ => zeroEnvironment) false [aloneMessage] 1 0
      false [] (.ok ⟨.initWithSessionId 1, 0, []⟩)
    unfold packGroups at hpack
    rw [List.length_singleton] at hpack
    rw [hpack, Option.map_some, hfold] at hloop
    exact hloop
  intro h
  have hzero := hiff.mp (by rw [← hpayloads]; exact h state hrun) 0 aloneMessage rfl
  have hones : quickAck (constantSetup 255).crypto (replicate 256 0)
      (messagePlaintext (constantSetup 255) zeroEnvironment 1 aloneMessage) = 0x7fffffff := by
    rfl
  have : (0x7fffffff : BitVec 32) = 0 := hones.symm.trans hzero
  exact absurd this (by decide)

end TelegramClient.MtProto
