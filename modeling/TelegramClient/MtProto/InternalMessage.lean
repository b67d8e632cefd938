import TelegramClient.MtProto.Buffer

/-!
# `MTInternalMessageParser`

The messages of the protocol itself, and the parser that recognises them by their signature. `parseMessage`
ends in `Fault.failed` where the source returns `nil`.

* `internalParsers` : the cases of the `switch (signature)`, in their order;
* `readsRest` : the cases that take everything up to the end of the data for their own;
* `stable_internalParser` : every other case ignores what follows the message (`parseMessage_append`).
-/

namespace TelegramClient.MtProto

structure MTMessage where
  messageId : BitVec 64
  seqNo : BitVec 32
  data : Bytes
deriving DecidableEq

structure MTFutureSalt where
  validSince : BitVec 32
  validUntil : BitVec 32
  salt : BitVec 64
deriving DecidableEq

inductive InternalMessage where
  | resPq (nonce serverNonce pq : Bytes) (serverPublicKeyFingerprints : List (BitVec 64))
  | serverDhParamsFail (nonce serverNonce nextNonceHash : Bytes)
  | serverDhParamsOk (nonce serverNonce encryptedResponse : Bytes)
  | serverDhInnerData (nonce serverNonce : Bytes) (g : BitVec 32) (dhPrime gA : Bytes) (serverTime : BitVec 32)
  | setClientDhParamsResponseOk (nonce serverNonce nextNonceHash1 : Bytes)
  | setClientDhParamsResponseRetry (nonce serverNonce nextNonceHash2 : Bytes)
  | setClientDhParamsResponseFail (nonce serverNonce nextNonceHash3 : Bytes)
  | rpcResult (requestMessageId : BitVec 64) (data : Bytes)
  | rpcError (errorCode : BitVec 32) (errorDescription : Option String)
  | dropRpcResultUnknown
  | dropRpcResultDroppedRunning
  | dropRpcResultDropped (messageId : BitVec 64) (seqNo size : BitVec 32)
  | msgsStateReq (messageIds : List (BitVec 64))
  | msgsStateInfo (requestMessageId : BitVec 64) (info : Bytes)
  | msgDetailedResponseInfo (requestMessageId responseMessageId : BitVec 64) (responseLength status : BitVec 32)
  | msgDetailedInfo (responseMessageId : BitVec 64) (responseLength status : BitVec 32)
  | msgAllInfo (messageIds : List (BitVec 64)) (info : Bytes)
  | message (message : MTMessage)
  | msgResendReq (messageIds : List (BitVec 64))
  | badMsgNotification (badMessageId : BitVec 64) (badMessageSeqNo errorCode : BitVec 32)
  | badServerSaltNotification (badMessageId : BitVec 64) (badMessageSeqNo errorCode : BitVec 32)
      (nextServerSalt : BitVec 64)
  | msgsAck (messageIds : List (BitVec 64))
  | ping (pingId : BitVec 64)
  | pong (messageId pingId : BitVec 64)
  | newSessionCreated (firstMessageId uniqueId serverSalt : BitVec 64)
  | destroySessionResponseOk (sessionId : BitVec 64)
  | destroySessionResponseNone (sessionId : BitVec 64)
  | destroySessionMultipleResponse (responses : Bytes)
  | msgContainer (messages : List MTMessage)
  | futureSalts (requestMessageId : BitVec 64) (now : BitVec 32) (salts : List MTFutureSalt)
deriving DecidableEq

/-! ## The cases of the switch -/

/-- `for (int32_t i = 0; i < count; i++)`. -/
def readVector {α : Type} (item : ReadM α) : ReadM (List α) := do
  let count ← readInt32
  repeatM count.toInt.toNat item

def readResPq : ReadM InternalMessage := do
  let nonce ← readBytes 16
  let serverNonce ← readBytes 16
  let pq ← readTLBytes
  skipBytes 4
  let serverPublicKeyFingerprints ← readVector readInt64
  return .resPq nonce serverNonce pq serverPublicKeyFingerprints

/-- The answers of the key exchange that carry three values of 16 bytes. -/
def readNonces (message : Bytes → Bytes → Bytes → InternalMessage) : ReadM InternalMessage := do
  let nonce ← readBytes 16
  let serverNonce ← readBytes 16
  let nextNonceHash ← readBytes 16
  return message nonce serverNonce nextNonceHash

def readServerDhParamsOk : ReadM InternalMessage := do
  let nonce ← readBytes 16
  let serverNonce ← readBytes 16
  let encryptedResponse ← readTLBytes
  return .serverDhParamsOk nonce serverNonce encryptedResponse

def readServerDhInnerData : ReadM InternalMessage := do
  let nonce ← readBytes 16
  let serverNonce ← readBytes 16
  let g ← readInt32
  let dhPrime ← readTLBytes
  let gA ← readTLBytes
  let serverTime ← readInt32
  return .serverDhInnerData nonce serverNonce g dhPrime gA serverTime

def readRpcResult : ReadM InternalMessage := do
  let requestMessageId ← readInt64
  let responseData ← readRest
  return .rpcResult requestMessageId responseData

def readRpcError : ReadM InternalMessage := do
  let errorCode ← readInt32
  let errorDescription ← readTLString
  return .rpcError errorCode errorDescription

def readDropRpcResultDropped : ReadM InternalMessage := do
  let messageId ← readInt64
  let seqNo ← readInt32
  let size ← readInt32
  return .dropRpcResultDropped messageId seqNo size

def readMsgsStateReq : ReadM InternalMessage := do
  skipBytes 4
  let messageIds ← readVector readInt64
  return .msgsStateReq messageIds

def readMsgsStateInfo : ReadM InternalMessage := do
  let requestMessageId ← readInt64
  let info ← readTLBytes
  return .msgsStateInfo requestMessageId info

def readMsgDetailedResponseInfo : ReadM InternalMessage := do
  let requestMessageId ← readInt64
  let responseMessageId ← readInt64
  let responseLength ← readInt32
  let status ← readInt32
  return .msgDetailedResponseInfo requestMessageId responseMessageId responseLength status

def readMsgDetailedInfo : ReadM InternalMessage := do
  let responseMessageId ← readInt64
  let responseLength ← readInt32
  let status ← readInt32
  return .msgDetailedInfo responseMessageId responseLength status

def readMsgAllInfo : ReadM InternalMessage := do
  skipBytes 4
  let messageIds ← readVector readInt64
  let info ← readTLBytes
  return .msgAllInfo messageIds info

/-- The copied message must fill the data to its end. -/
def readMsgCopy : ReadM InternalMessage := do
  let messageSignature ← readInt32
  if messageSignature ≠ 0x5bb8e511 then ReadM.fail
  else
    let messageId ← readInt64
    let seqNo ← readInt32
    let length ← readInt32
    let data ← readRest
    if data.length ≠ nsUInteger length.toInt then ReadM.fail
    else return .message ⟨messageId, seqNo, data⟩

def readMsgResendReq : ReadM InternalMessage := do
  let messageIds ← readVector readInt64
  return .msgResendReq messageIds

def readBadMsgNotification : ReadM InternalMessage := do
  let badMessageId ← readInt64
  let badMessageSeqNo ← readInt32
  let errorCode ← readInt32
  return .badMsgNotification badMessageId badMessageSeqNo errorCode

def readBadServerSaltNotification : ReadM InternalMessage := do
  let badMessageId ← readInt64
  let badMessageSeqNo ← readInt32
  let errorCode ← readInt32
  let nextServerSalt ← readInt64
  return .badServerSaltNotification badMessageId badMessageSeqNo errorCode nextServerSalt

def readMsgsAck : ReadM InternalMessage := do
  let vectorSignature ← readInt32
  if vectorSignature ≠ 0x1cb5c415 then ReadM.fail
  else
    let messageIds ← readVector readInt64
    return .msgsAck messageIds

def readPing : ReadM InternalMessage := do
  let pingId ← readInt64
  return .ping pingId

def readPong : ReadM InternalMessage := do
  let messageId ← readInt64
  let pingId ← readInt64
  return .pong messageId pingId

def readNewSessionCreated : ReadM InternalMessage := do
  let firstMessageId ← readInt64
  let uniqueId ← readInt64
  let serverSalt ← readInt64
  return .newSessionCreated firstMessageId uniqueId serverSalt

def readDestroySessionResponse (message : BitVec 64 → InternalMessage) : ReadM InternalMessage := do
  let sessionId ← readInt64
  return message sessionId

def readDestroySessionMultipleResponse : ReadM InternalMessage := do
  let responsesData ← readRest
  return .destroySessionMultipleResponse responsesData

def readContainerItem : ReadM MTMessage := do
  let messageId ← readInt64
  let seqNo ← readInt32
  let length ← readInt32
  if length.toInt < 0 ∨ length.toInt > 16 * 1024 * 1024 then ReadM.fail
  else
    let messageData ← readBytes length.toInt.toNat
    return ⟨messageId, seqNo, messageData⟩

def readMsgContainer : ReadM InternalMessage := do
  let messages ← readVector readContainerItem
  return .msgContainer messages

def readFutureSalt : ReadM MTFutureSalt := do
  let validSince ← readInt32
  let validUntil ← readInt32
  let salt ← readInt64
  return ⟨validSince, validUntil, salt⟩

def readFutureSalts : ReadM InternalMessage := do
  let requestMessageId ← readInt64
  let now ← readInt32
  let salts ← readVector readFutureSalt
  return .futureSalts requestMessageId now salts

/-- The cases of the `switch (signature)`. -/
def internalParsers : List (BitVec 32 × ReadM InternalMessage) :=
  [(0x05162463, readResPq),
   (0x79cb045d, readNonces .serverDhParamsFail),
   (0xd0e8075c, readServerDhParamsOk),
   (0xb5890dba, readServerDhInnerData),
   (0x3bcbf734, readNonces .setClientDhParamsResponseOk),
   (0x46dc1fb9, readNonces .setClientDhParamsResponseRetry),
   (0xa69dae02, readNonces .setClientDhParamsResponseFail),
   (0xf35c6d01, readRpcResult),
   (0x2144ca19, readRpcError),
   (0x5e2ad36e, pure .dropRpcResultUnknown),
   (0xcd78e586, pure .dropRpcResultDroppedRunning),
   (0xa43ad8b7, readDropRpcResultDropped),
   (0xda69fb52, readMsgsStateReq),
   (0x04deb57d, readMsgsStateInfo),
   (0x276d3ec6, readMsgDetailedResponseInfo),
   (0x809db6df, readMsgDetailedInfo),
   (0x8cc0d131, readMsgAllInfo),
   (0xe06046b2, readMsgCopy),
   (0x7d861a08, readMsgResendReq),
   (0xa7eff811, readBadMsgNotification),
   (0xedab447b, readBadServerSaltNotification),
   (0x62d6b459, readMsgsAck),
   (0x7abe77ec, readPing),
   (0x347773c5, readPong),
   (0x9ec20908, readNewSessionCreated),
   (0xe22045fc, readDestroySessionResponse .destroySessionResponseOk),
   (0x62d350c9, readDestroySessionResponse .destroySessionResponseNone),
   (0xfb95abcd, readDestroySessionMultipleResponse),
   (0x73f1f8dc, readMsgContainer),
   (0xae500895, readFutureSalts)]

def internalParser (signature : BitVec 32) : ReadM InternalMessage :=
  match internalParsers.lookup signature with
  | some parser => parser
  | none => ReadM.fail

def readMessage : ReadM InternalMessage := do
  let signature ← readInt32
  internalParser signature

def parseMessage (data : Bytes) : Except Fault InternalMessage :=
  (readMessage.run ⟨data, 0⟩).map Prod.fst

/-! ## `unwrapMessage:` -/

/-- `getBytes:range:` and `subdataWithRange:` raise on a range that leaves the data. -/
def dataInRange (data : Bytes) (offset length : Nat) : Except Fault Bytes :=
  if offset + length > data.length then .error .raised else .ok (slice data offset length)

def readBytesSkippingLength (data : Bytes) (skipLength : Nat) : Except Fault Bytes := do
  let tmp ← dataInRange data skipLength 1
  let length : Int := ofLe tmp
  if length = 254 then
    let upper ← dataInRange data (skipLength + 1) 3
    dataInRange data (skipLength + 4) (nsUInteger ((ofLeBits 32 (0 :: upper)).sshiftRight 8).toInt)
  else
    dataInRange data (skipLength + 1) (nsUInteger length)

/-- `inflate` stands for the loop over zlib's function of that name: the whole unpacked data, or nothing when
the stream is not one complete gzip or zlib stream. -/
def decompressGZip (inflate : Bytes → Option Bytes) (data : Bytes) : Option Bytes :=
  if data.length = 0 ∨ data.length > 4294967295 then none else inflate data

def unwrapMessage (inflate : Bytes → Option Bytes) (data : Bytes) : Except Fault (Option Bytes) :=
  if data.length < 4 then .ok (some data)
  else if ofLeBits 32 (slice data 0 4) = 0x3072cfa1 then do
    let packedData ← readBytesSkippingLength data 4
    return decompressGZip inflate packedData
  else .ok (some data)

/-! ## What follows a message -/

def signatureOf (data : Bytes) : BitVec 32 := ofLeBits 32 (slice data 0 4)

/-- The cases that look at the end of the data: `rpc_result` and `destroy_sessions_res` take the rest for
their own, `msg_copy` compares its length. -/
def readsRest (signature : BitVec 32) : Bool :=
  signature == 0xf35c6d01 || signature == 0xe06046b2 || signature == 0xfb95abcd

theorem stable_readVector {α : Type} {item : ReadM α} (h : Stable item) : Stable (readVector item) :=
  stable_readInt32.bind fun _ => Stable.repeatM h _

theorem stable_readResPq : Stable readResPq :=
  (stable_readBytes 16).bind fun _ => (stable_readBytes 16).bind fun _ => stable_readTLBytes.bind fun _ =>
    (stable_skipBytes 4).bind fun _ => (stable_readVector stable_readInt64).bind fun _ => Stable.pure _

theorem stable_readNonces (message : Bytes → Bytes → Bytes → InternalMessage) : Stable (readNonces message) :=
  (stable_readBytes 16).bind fun _ => (stable_readBytes 16).bind fun _ => (stable_readBytes 16).bind fun _ =>
    Stable.pure _

theorem stable_readServerDhParamsOk : Stable readServerDhParamsOk :=
  (stable_readBytes 16).bind fun _ => (stable_readBytes 16).bind fun _ => stable_readTLBytes.bind fun _ =>
    Stable.pure _

theorem stable_readServerDhInnerData : Stable readServerDhInnerData :=
  (stable_readBytes 16).bind fun _ => (stable_readBytes 16).bind fun _ => stable_readInt32.bind fun _ =>
    stable_readTLBytes.bind fun _ => stable_readTLBytes.bind fun _ => stable_readInt32.bind fun _ =>
      Stable.pure _

theorem stable_readRpcError : Stable readRpcError :=
  stable_readInt32.bind fun _ => stable_readTLString.bind fun _ => Stable.pure _

theorem stable_readDropRpcResultDropped : Stable readDropRpcResultDropped :=
  stable_readInt64.bind fun _ => stable_readInt32.bind fun _ => stable_readInt32.bind fun _ => Stable.pure _

theorem stable_readMsgsStateReq : Stable readMsgsStateReq :=
  (stable_skipBytes 4).bind fun _ => (stable_readVector stable_readInt64).bind fun _ => Stable.pure _

theorem stable_readMsgsStateInfo : Stable readMsgsStateInfo :=
  stable_readInt64.bind fun _ => stable_readTLBytes.bind fun _ => Stable.pure _

theorem stable_readMsgDetailedResponseInfo : Stable readMsgDetailedResponseInfo :=
  stable_readInt64.bind fun _ => stable_readInt64.bind fun _ => stable_readInt32.bind fun _ =>
    stable_readInt32.bind fun _ => Stable.pure _

theorem stable_readMsgDetailedInfo : Stable readMsgDetailedInfo :=
  stable_readInt64.bind fun _ => stable_readInt32.bind fun _ => stable_readInt32.bind fun _ => Stable.pure _

theorem stable_readMsgAllInfo : Stable readMsgAllInfo :=
  (stable_skipBytes 4).bind fun _ => (stable_readVector stable_readInt64).bind fun _ =>
    stable_readTLBytes.bind fun _ => Stable.pure _

theorem stable_readMsgResendReq : Stable readMsgResendReq :=
  (stable_readVector stable_readInt64).bind fun _ => Stable.pure _

theorem stable_readBadMsgNotification : Stable readBadMsgNotification :=
  stable_readInt64.bind fun _ => stable_readInt32.bind fun _ => stable_readInt32.bind fun _ => Stable.pure _

theorem stable_readBadServerSaltNotification : Stable readBadServerSaltNotification :=
  stable_readInt64.bind fun _ => stable_readInt32.bind fun _ => stable_readInt32.bind fun _ =>
    stable_readInt64.bind fun _ => Stable.pure _

theorem stable_readMsgsAck : Stable readMsgsAck :=
  stable_readInt32.bind fun _ =>
    Stable.ite Stable.fail ((stable_readVector stable_readInt64).bind fun _ => Stable.pure _)

theorem stable_readPing : Stable readPing := stable_readInt64.bind fun _ => Stable.pure _

theorem stable_readPong : Stable readPong :=
  stable_readInt64.bind fun _ => stable_readInt64.bind fun _ => Stable.pure _

theorem stable_readNewSessionCreated : Stable readNewSessionCreated :=
  stable_readInt64.bind fun _ => stable_readInt64.bind fun _ => stable_readInt64.bind fun _ => Stable.pure _

theorem stable_readDestroySessionResponse (message : BitVec 64 → InternalMessage) :
    Stable (readDestroySessionResponse message) := stable_readInt64.bind fun _ => Stable.pure _

theorem stable_readContainerItem : Stable readContainerItem :=
  stable_readInt64.bind fun _ => stable_readInt32.bind fun _ => stable_readInt32.bind fun _ =>
    Stable.ite Stable.fail ((stable_readBytes _).bind fun _ => Stable.pure _)

theorem stable_readMsgContainer : Stable readMsgContainer :=
  (stable_readVector stable_readContainerItem).bind fun _ => Stable.pure _

theorem stable_readFutureSalt : Stable readFutureSalt :=
  stable_readInt32.bind fun _ => stable_readInt32.bind fun _ => stable_readInt64.bind fun _ => Stable.pure _

theorem stable_readFutureSalts : Stable readFutureSalts :=
  stable_readInt64.bind fun _ => stable_readInt32.bind fun _ =>
    (stable_readVector stable_readFutureSalt).bind fun _ => Stable.pure _

theorem stable_of_mem_internalParsers : ∀ entry ∈ internalParsers, readsRest entry.1 = false → Stable entry.2 := by
  simp only [internalParsers, List.forall_mem_cons]
  refine ⟨fun _ => stable_readResPq, fun _ => stable_readNonces _, fun _ => stable_readServerDhParamsOk,
    fun _ => stable_readServerDhInnerData, fun _ => stable_readNonces _, fun _ => stable_readNonces _,
    fun _ => stable_readNonces _, ?_, fun _ => stable_readRpcError, fun _ => Stable.pure _,
    fun _ => Stable.pure _, fun _ => stable_readDropRpcResultDropped, fun _ => stable_readMsgsStateReq,
    fun _ => stable_readMsgsStateInfo, fun _ => stable_readMsgDetailedResponseInfo,
    fun _ => stable_readMsgDetailedInfo, fun _ => stable_readMsgAllInfo, ?_, fun _ => stable_readMsgResendReq,
    fun _ => stable_readBadMsgNotification, fun _ => stable_readBadServerSaltNotification,
    fun _ => stable_readMsgsAck, fun _ => stable_readPing, fun _ => stable_readPong,
    fun _ => stable_readNewSessionCreated, fun _ => stable_readDestroySessionResponse _,
    fun _ => stable_readDestroySessionResponse _, ?_, fun _ => stable_readMsgContainer,
    fun _ => stable_readFutureSalts, fun _ h => nomatch h⟩
  -- the three cases that look at the end of the data
  · intro h
    exact absurd h (by decide)
  · intro h
    exact absurd h (by decide)
  · intro h
    exact absurd h (by decide)

theorem stable_internalParser {signature : BitVec 32} (h : readsRest signature = false) :
    Stable (internalParser signature) := by
  unfold internalParser
  split
  · next parser hlook =>
    obtain ⟨before, after, htable, -⟩ := List.lookup_eq_some_iff.mp hlook
    have hm : (signature, parser) ∈ internalParsers := by
      rw [htable]
      simp
    exact stable_of_mem_internalParsers _ hm h
  · exact Stable.fail

variable {data : Bytes}

theorem readInt32_run (h : 4 ≤ data.length) : readInt32.run ⟨data, 0⟩ = .ok (signatureOf data, ⟨data, 4⟩) := by
  have hbs : (readBytes 4).run ⟨data, 0⟩ = .ok (slice data 0 4, ⟨data, 4⟩) := by
    change readBytes 4 ⟨data, 0⟩ = _
    unfold readBytes addressSpace
    dsimp only
    rw [if_neg (by omega), if_neg (by omega)]
  exact run_bind_of_ok _ hbs

theorem readInt32_run_short (h : data.length < 4) : readInt32.run ⟨data, 0⟩ = .error .failed := by
  have hbs : (readBytes 4).run ⟨data, 0⟩ = .error .failed := by
    change readBytes 4 ⟨data, 0⟩ = _
    unfold readBytes addressSpace
    dsimp only
    rw [if_pos (by omega)]
  exact run_bind_of_error _ hbs

theorem signatureOf_append (h : 4 ≤ data.length) (pad : Bytes) : signatureOf (data ++ pad) = signatureOf data := by
  unfold signatureOf
  rw [slice_append_left pad (by omega)]

theorem parseMessage_short (h : data.length < 4) : parseMessage data = .error .failed := by
  have hread : readMessage.run ⟨data, 0⟩ = .error .failed :=
    run_bind_of_error _ (readInt32_run_short h)
  unfold parseMessage
  rw [hread]
  rfl

theorem parseMessage_eq (h : 4 ≤ data.length) :
    parseMessage data = ((internalParser (signatureOf data)).run ⟨data, 4⟩).map Prod.fst := by
  unfold parseMessage readMessage
  rw [run_bind_of_ok _ (readInt32_run h)]

variable {m : InternalMessage}

section
variable (h : parseMessage data = .ok m)
include h

theorem four_le_of_parseMessage : 4 ≤ data.length := by
  by_contra hshort
  rw [parseMessage_short (by omega)] at h
  cases h

theorem parseMessage_ok : ∃ c, (internalParser (signatureOf data)).run ⟨data, 4⟩ = .ok (m, c) := by
  rw [parseMessage_eq (four_le_of_parseMessage h)] at h
  cases hrun : (internalParser (signatureOf data)).run ⟨data, 4⟩ with
  | error e =>
    rw [hrun] at h
    cases h
  | ok mc =>
    rw [hrun] at h
    cases h
    exact ⟨mc.2, rfl⟩

/-- **A message that does not read to the end of the data** is the same message with anything behind it. -/
theorem parseMessage_append (hrest : readsRest (signatureOf data) = false) (pad : Bytes) :
    parseMessage (data ++ pad) = .ok m := by
  have hlen := four_le_of_parseMessage h
  obtain ⟨c, hrun⟩ := parseMessage_ok h
  obtain ⟨-, hstable⟩ := stable_internalParser hrest _ _ _ hrun
  rw [parseMessage_eq (by rw [List.length_append]; omega), signatureOf_append hlen, hstable pad]
  rfl

end

end TelegramClient.MtProto
