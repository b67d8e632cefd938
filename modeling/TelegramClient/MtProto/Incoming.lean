import TelegramClient.Lib.Triples
import TelegramClient.MtProto.InternalMessage

/-!
# Incoming messages: `_parseIncomingMessages:dataMessageId:parseError:`

The decrypted packet is a header, a message of the length that the header states, and padding. The length is
read and dropped, and everything behind the header is parsed as the message.

* `mtParseMessage` : unwrap, then the parser of the protocol's own messages, then that of the application;
* `paddingIndependent_iff` : which bodies are independent of the padding.

The application's serialization is a parameter (`MTSerialization`), and so is zlib's `inflate`.
-/

namespace TelegramClient.MtProto
open List

/-! ## The input stream -/

/-- `readInt32:` and `readInt64:` of `MTInputStream`: the value and the rest, or `failed`. -/
def streamReadInt (w : Nat) (is : Bytes) : Option (BitVec w × Bytes) :=
  if is.length < w / 8 then none else some (ofLeBits w (is.take (w / 8)), is.drop (w / 8))

/-- `readInt64` without the flag: bytes that are missing are zero. -/
def streamReadInt64Unchecked (is : Bytes) : BitVec 64 × Bytes := (ofLeBits 64 (is.take 8), is.drop 8)

/-- The loop that moves the rest of the stream to `topMessageData`, 128 bytes at a time. -/
def readTopMessageData (is topMessageData : Bytes) : Bytes :=
  let buffer := is.take 128
  if buffer.length ≤ 0 then topMessageData
  else readTopMessageData (is.drop 128) (topMessageData ++ buffer)
  termination_by is.length
  decreasing_by
    rename_i h
    rw [length_take] at h
    rw [length_drop]
    omega

theorem readTopMessageData_eq (is topMessageData : Bytes) :
    readTopMessageData is topMessageData = topMessageData ++ is := by
  fun_induction readTopMessageData is topMessageData with
  | case1 is topMessageData buffer h =>
    have hnil : is = [] := by
      have hlen : (is.take 128).length ≤ 0 := h
      rw [length_take] at hlen
      exact length_eq_zero_iff.mp (by omega)
    rw [hnil, append_nil]
  | case2 is topMessageData buffer h ih => rw [ih, append_assoc, take_append_drop]

/-! ## Messages -/

/-- `_context.serialization`, the parser of the application's own objects. -/
structure MTSerialization (β : Type) where
  parseMessage : Option Bytes → Option β

section
variable {β : Type} (inflate : Bytes → Option Bytes) (ser : MTSerialization β)

/-- `-[MTProto parseMessage:]`: a message of the protocol or one of the application. `nil` data is read as empty
by the first parser. -/
def mtParseMessage (data : Bytes) : Except Fault (Option (InternalMessage ⊕ β)) := do
  let unwrappedData ← unwrapMessage inflate data
  match parseMessage (unwrappedData.getD []) with
  | .ok internalMessage => return some (.inl internalMessage)
  | .error .failed => return (ser.parseMessage unwrappedData).map .inr
  | .error .raised => .error .raised

/-- `timestamp` is kept as the fixed-point number, in units of `2^-32` seconds, that the source turns into a
`double`. -/
structure MTIncomingMessage (β : Type) where
  messageId : BitVec 64
  seqNo : BitVec 32
  salt : BitVec 64
  timestamp : BitVec 64
  size : BitVec 32
  body : InternalMessage ⊕ β

structure ParseResult (β : Type) where
  dataMessageId : Option (BitVec 64)
  parseError : Bool
  messages : Option (List (MTIncomingMessage β))

structure IncomingHeader where
  embeddedMessageId : BitVec 64
  embeddedSeqNo : BitVec 32
  embeddedSalt : BitVec 64
  topMessageSize : BitVec 32
  dataMessageId : Option (BitVec 64)

def readUnauthorizedHeader (is : Bytes) : Option (IncomingHeader × Bytes) := do
  let (authKeyId, is) := streamReadInt64Unchecked is
  if authKeyId ≠ 0 then none
  else
    let (embeddedMessageId, is) ← streamReadInt 64 is
    let (topMessageSize, is) ← streamReadInt 32 is
    if topMessageSize.toInt < 4 then none
    else return (⟨embeddedMessageId, 0, 0, topMessageSize, some embeddedMessageId⟩, is)

/-- The length of the message is read, and nothing is done with it. -/
def readAuthorizedHeader (sessionId : BitVec 64) (is : Bytes) : Option (IncomingHeader × Bytes) := do
  let (embeddedSalt, is) ← streamReadInt 64 is
  let (embeddedSessionId, is) ← streamReadInt 64 is
  if embeddedSessionId ≠ sessionId then none
  else
    let (embeddedMessageId, is) ← streamReadInt 64 is
    let (embeddedSeqNo, is) ← streamReadInt 32 is
    let (_, is) ← streamReadInt 32 is
    return (⟨embeddedMessageId, embeddedSeqNo, embeddedSalt, 0, none⟩, is)

/-- The loop over the messages of a container; the first that is not understood ends it. -/
def parseSubMessages (header : IncomingHeader) : List MTMessage →
    Except Fault (Option (List (MTIncomingMessage β)))
  | [] => return some []
  | subMessage :: rest => do
    match ← mtParseMessage inflate ser subMessage.data with
    | none => return none
    | some subObject =>
      let messages ← parseSubMessages header rest
      return messages.map fun messages =>
        ⟨subMessage.messageId, subMessage.seqNo, header.embeddedSalt, header.embeddedMessageId,
          BitVec.ofNat 32 subMessage.data.length, subObject⟩ :: messages

/-- The messages that the object at the top stands for. -/
def incomingMessages (header : IncomingHeader) :
    InternalMessage ⊕ β → Except Fault (Option (List (MTIncomingMessage β)))
  | .inl (.msgContainer messages) => parseSubMessages inflate ser header messages
  | .inl (.message message) => parseSubMessages inflate ser header [message]
  | topObject =>
    return some [⟨header.embeddedMessageId, header.embeddedSeqNo, header.embeddedSalt, header.embeddedMessageId,
      header.topMessageSize, topObject⟩]

def parseIncomingMessages (useUnauthorizedMode : Bool) (sessionId : BitVec 64) (data : Bytes) :
    Except Fault (ParseResult β) :=
  match if useUnauthorizedMode then readUnauthorizedHeader data else readAuthorizedHeader sessionId data with
  | none => return ⟨none, true, none⟩
  | some (header, is) => do
    match ← mtParseMessage inflate ser (readTopMessageData is []) with
    | none => return ⟨header.dataMessageId, true, none⟩
    | some topObject =>
      match ← incomingMessages inflate ser header topObject with
      | none => return ⟨header.dataMessageId, true, none⟩
      | some messages => return ⟨header.dataMessageId, false, some messages⟩

/-! ## Packets -/

/-- A decrypted packet: the 32 bytes of the header, the message and the padding. -/
def decryptedPacket (salt sessionId messageId : BitVec 64) (seqNo : BitVec 32) (body padding : Bytes) : Bytes :=
  leBits salt ++ (leBits sessionId ++ (leBits messageId ++ (leBits seqNo ++
    (leBits (BitVec.ofNat 32 body.length) ++ (body ++ padding)))))

theorem streamReadInt_leBits {w : Nat} (hw : w % 8 = 0) (value : BitVec w) (rest : Bytes) :
    streamReadInt w (leBits value ++ rest) = some (value, rest) := by
  have hlen : (leBits value).length = w / 8 := length_leBits value
  unfold streamReadInt
  rw [if_neg (by rw [length_append]; omega), ← hlen, take_left, drop_left, ofLeBits_leBits hw]

variable (salt sessionId messageId : BitVec 64) (seqNo : BitVec 32) (body padding : Bytes)

theorem readAuthorizedHeader_packet :
    readAuthorizedHeader sessionId (decryptedPacket salt sessionId messageId seqNo body padding) =
      some (⟨messageId, seqNo, salt, 0, none⟩, body ++ padding) := by
  have h64 (v : BitVec 64) (rest : Bytes) := streamReadInt_leBits (w := 64) (by norm_num) v rest
  have h32 (v : BitVec 32) (rest : Bytes) := streamReadInt_leBits (w := 32) (by norm_num) v rest
  unfold readAuthorizedHeader decryptedPacket
  simp [h64, h32]

def finishParse (header : IncomingHeader) (top : Except Fault (Option (InternalMessage ⊕ β))) :
    Except Fault (ParseResult β) := do
  match ← top with
  | none => return ⟨header.dataMessageId, true, none⟩
  | some topObject =>
    match ← incomingMessages inflate ser header topObject with
    | none => return ⟨header.dataMessageId, true, none⟩
    | some messages => return ⟨header.dataMessageId, false, some messages⟩

theorem parseIncomingMessages_packet : parseIncomingMessages inflate ser false sessionId
        (decryptedPacket salt sessionId messageId seqNo body padding) =
      finishParse inflate ser ⟨messageId, seqNo, salt, 0, none⟩ (mtParseMessage inflate ser (body ++ padding)) := by
  unfold parseIncomingMessages
  simp only [Bool.false_eq_true, if_false, readAuthorizedHeader_packet, readTopMessageData_eq, nil_append]
  rfl

/-- **Padding independence** of a body: the out parameters and the messages are the same with every padding of 12
to 1024 bytes. -/
def PaddingIndependent (body : Bytes) : Prop :=
  ∀ (salt sessionId messageId : BitVec 64) (seqNo : BitVec 32) (padding padding' : Bytes),
    12 ≤ padding.length → padding.length ≤ 1024 → 12 ≤ padding'.length → padding'.length ≤ 1024 →
    parseIncomingMessages inflate ser false sessionId
        (decryptedPacket salt sessionId messageId seqNo body padding) =
      parseIncomingMessages inflate ser false sessionId
        (decryptedPacket salt sessionId messageId seqNo body padding')

/-! ## Complete bodies -/

/-- The bodies that are read without looking behind their end. -/
inductive Complete (body : Bytes) : Prop where
  | packed (packedData : Bytes) (signature : signatureOf body = 0x3072cfa1) (length_ge : 4 ≤ body.length)
      (packedData_eq : readBytesSkippingLength body 4 = .ok packedData)
  | internal (message : InternalMessage) (signature : signatureOf body ≠ 0x3072cfa1)
      (parse : parseMessage body = .ok message)
      -- the application's parser is asked for every copied message that is followed by padding
      (copy : signatureOf body = 0xe06046b2 → ∀ padding,
        ser.parseMessage (some (body ++ padding)) = ser.parseMessage (some body))
  | application (object : β) (signature : signatureOf body ≠ 0x3072cfa1) (length_ge : 4 ≤ body.length)
      (unknown : internalParsers.lookup (signatureOf body) = none)
      (parse : ∀ padding, ser.parseMessage (some (body ++ padding)) = some object)
  | refused (fault : Fault) (signature : signatureOf body ≠ 0x3072cfa1) (length_ge : 4 ≤ body.length)
      (parse : ∀ padding, parseMessage (body ++ padding) = .error fault)
      (object : ∀ padding, ser.parseMessage (some (body ++ padding)) = none)

end

variable {data : Bytes}

variable {d : Bytes}

theorem dataInRange_append {offset length : Nat} (h : dataInRange data offset length = .ok d) (pad : Bytes) :
    dataInRange (data ++ pad) offset length = .ok d := by
  unfold dataInRange at h ⊢
  by_cases hlen : offset + length > data.length
  · rw [if_pos hlen] at h
    cases h
  · rw [if_neg hlen] at h
    rw [if_neg (by rw [length_append]; omega), slice_append_left pad (by omega), h]

theorem readBytesSkippingLength_append {skipLength : Nat} (h : readBytesSkippingLength data skipLength = .ok d)
    (pad : Bytes) : readBytesSkippingLength (data ++ pad) skipLength = .ok d := by
  unfold readBytesSkippingLength at h ⊢
  obtain ⟨tmp, htmp, h⟩ := except_bind_ok h
  rw [dataInRange_append htmp pad]
  change (if _ then _ else _) = _
  dsimp only at h
  split at h
  · next hlong =>
    obtain ⟨upper, hupper, h⟩ := except_bind_ok h
    rw [if_pos hlong, dataInRange_append hupper pad]
    exact dataInRange_append h pad
  · next hshort =>
    rw [if_neg hshort]
    exact dataInRange_append h pad

variable (inflate : Bytes → Option Bytes)

theorem unwrapMessage_of_ne (h : signatureOf data ≠ 0x3072cfa1) : unwrapMessage inflate data = .ok (some data) := by
  unfold unwrapMessage
  split
  · rfl
  · exact if_neg h

theorem unwrapMessage_packed {packedData : Bytes} (hlen : 4 ≤ data.length) (hsig : signatureOf data = 0x3072cfa1)
    (h : readBytesSkippingLength data 4 = .ok packedData) :
    unwrapMessage inflate data = .ok (decompressGZip inflate packedData) := by
  unfold unwrapMessage
  rw [if_neg (by omega), if_pos (by exact hsig), h]
  rfl

theorem parseMessage_unknown (hlen : 4 ≤ data.length) (h : internalParsers.lookup (signatureOf data) = none) :
    parseMessage data = .error .failed := by
  rw [parseMessage_eq hlen]
  unfold internalParser
  rw [h]
  rfl

variable {m : InternalMessage}

theorem run_bind_readRest {α : Type} {p : ReadM α} (hp : Stable p) {q : α → Bytes → ReadM InternalMessage}
    {c : Cursor} (h : (p >>= fun a => readRest >>= q a).run ⟨data, 4⟩ = .ok (m, c)) :
    ∃ a offset, offset ≤ data.length ∧ (q a (data.drop offset)).run ⟨data, offset⟩ = .ok (m, c) ∧
      ∀ pad : Bytes, (p >>= fun a => readRest >>= q a).run ⟨data ++ pad, 4⟩ =
        (q a (data.drop offset ++ pad)).run ⟨data ++ pad, offset⟩ := by
  obtain ⟨a, c₁, hp₁, h⟩ := run_bind_ok h
  obtain ⟨rest, c₂, hrest, h⟩ := run_bind_ok h
  obtain ⟨hdata, hstable⟩ := hp _ _ _ hp₁
  obtain ⟨data₁, offset⟩ := c₁
  obtain rfl : data₁ = data := hdata
  have hle : offset ≤ data₁.length := by
    by_contra hgt
    change readRest ⟨data₁, offset⟩ = _ at hrest
    rw [readRest, if_pos (by dsimp only; omega)] at hrest
    cases hrest
  have hread (pad : Bytes) : readRest.run ⟨data₁ ++ pad, offset⟩ =
      .ok (data₁.drop offset ++ pad, ⟨data₁ ++ pad, offset⟩) := by
    change readRest ⟨data₁ ++ pad, offset⟩ = _
    unfold readRest
    dsimp only
    rw [if_neg (by rw [length_append]; omega), drop_append_of_le_length hle]
  refine ⟨a, offset, hle, ?_, fun pad => ?_⟩
  · have hnil := hread []
    rw [append_nil, append_nil] at hnil
    rw [hnil] at hrest
    cases hrest
    exact h
  · rw [run_bind_of_ok _ (hstable pad), run_bind_of_ok _ (hread pad)]

theorem parseMessage_rpcResult (h : parseMessage data = .ok m) (hsig : signatureOf data = 0xf35c6d01) :
    ∃ requestMessageId responseData, ∀ pad : Bytes,
      parseMessage (data ++ pad) = .ok (.rpcResult requestMessageId (responseData ++ pad)) := by
  have hlen := four_le_of_parseMessage h
  obtain ⟨c, hrun⟩ := parseMessage_ok h
  rw [hsig] at hrun
  obtain ⟨requestMessageId, offset, -, -, hpad⟩ := run_bind_readRest
    (q := fun requestMessageId responseData => pure (.rpcResult requestMessageId responseData)) stable_readInt64 hrun
  refine ⟨requestMessageId, data.drop offset, fun pad => ?_⟩
  rw [parseMessage_eq (by rw [length_append]; omega), signatureOf_append hlen, hsig]
  exact congrArg (Except.map Prod.fst) (hpad pad)

theorem parseMessage_destroySessions (h : parseMessage data = .ok m) (hsig : signatureOf data = 0xfb95abcd) :
    ∃ responses, ∀ pad : Bytes,
      parseMessage (data ++ pad) = .ok (.destroySessionMultipleResponse (responses ++ pad)) := by
  have hlen := four_le_of_parseMessage h
  obtain ⟨c, hrun⟩ := parseMessage_ok h
  rw [hsig] at hrun
  obtain ⟨-, offset, -, -, hpad⟩ := run_bind_readRest (p := pure ())
    (q := fun _ responses => pure (.destroySessionMultipleResponse responses)) (Stable.pure ()) hrun
  refine ⟨data.drop offset, fun pad => ?_⟩
  rw [parseMessage_eq (by rw [length_append]; omega), signatureOf_append hlen, hsig]
  exact congrArg (Except.map Prod.fst) (hpad pad)

theorem parseMessage_carrier (hlen : 4 ≤ data.length)
    (hsig : signatureOf data = 0xf35c6d01 ∨ signatureOf data = 0xfb95abcd) :
    ∃ m, parseMessage (data ++ replicate 8 0) = .ok m := by
  have hlength : (data ++ replicate 8 (0 : UInt8)).length = data.length + 8 := by
    rw [length_append, length_replicate]
  rw [parseMessage_eq (by omega), signatureOf_append hlen]
  rcases hsig with hsig | hsig
  · have hbs : (readBytes 8).run ⟨data ++ replicate 8 0, 4⟩ =
        .ok (slice (data ++ replicate 8 0) 4 8, ⟨data ++ replicate 8 0, 12⟩) := by
      change readBytes 8 _ = _
      unfold readBytes addressSpace
      dsimp only
      rw [if_neg (by omega), if_neg (by omega)]
    have hrest : readRest.run ⟨data ++ replicate 8 0, 12⟩ =
        .ok ((data ++ replicate 8 0).drop 12, ⟨data ++ replicate 8 0, 12⟩) := by
      change readRest _ = _
      unfold readRest
      rw [if_neg (by dsimp only; omega)]
    refine ⟨.rpcResult (ofLeBits 64 (slice (data ++ replicate 8 0) 4 8))
      ((data ++ replicate 8 0).drop 12), ?_⟩
    rw [hsig]
    change (readRpcResult.run _).map Prod.fst = _
    unfold readRpcResult readInt64
    rw [run_bind_of_ok _ (run_bind_of_ok _ hbs), run_bind_of_ok _ hrest]
    rfl
  · have hrest : readRest.run ⟨data ++ replicate 8 0, 4⟩ =
        .ok ((data ++ replicate 8 0).drop 4, ⟨data ++ replicate 8 0, 4⟩) := by
      change readRest _ = _
      unfold readRest
      rw [if_neg (by dsimp only; omega)]
    refine ⟨.destroySessionMultipleResponse ((data ++ replicate 8 0).drop 4), ?_⟩
    rw [hsig]
    change (readDestroySessionMultipleResponse.run _).map Prod.fst = _
    unfold readDestroySessionMultipleResponse
    rw [run_bind_of_ok _ hrest]
    rfl

/-- `readMsgCopy` up to the data of the copied message. -/
def readCopyHeader : ReadM (BitVec 64 × BitVec 32 × BitVec 32) := do
  let messageSignature ← readInt32
  if messageSignature ≠ 0x5bb8e511 then ReadM.fail
  else
    let messageId ← readInt64
    let seqNo ← readInt32
    let length ← readInt32
    return (messageId, seqNo, length)

/-- The rest of `readMsgCopy`. -/
def finishCopy (header : BitVec 64 × BitVec 32 × BitVec 32) (data : Bytes) : ReadM InternalMessage :=
  if data.length ≠ nsUInteger header.2.2.toInt then ReadM.fail
  else return .message ⟨header.1, header.2.1, data⟩

theorem readMsgCopy_eq : readMsgCopy = readCopyHeader >>= fun header => readRest >>= finishCopy header := by
  unfold readMsgCopy readCopyHeader finishCopy
  rw [bind_assoc]
  congr 1
  funext messageSignature
  split
  · rfl
  · simp only [bind_assoc, pure_bind]

theorem stable_readCopyHeader : Stable readCopyHeader :=
  stable_readInt32.bind fun _ => Stable.ite Stable.fail (stable_readInt64.bind fun _ =>
    stable_readInt32.bind fun _ => stable_readInt32.bind fun _ => Stable.pure _)

theorem parseMessage_msgCopy (h : parseMessage data = .ok m) (hsig : signatureOf data = 0xe06046b2) {pad : Bytes}
    (hpad : pad ≠ []) : parseMessage (data ++ pad) = .error .failed := by
  have hlen := four_le_of_parseMessage h
  obtain ⟨c, hrun⟩ := parseMessage_ok h
  have hparser : internalParser 0xe06046b2 = readMsgCopy := rfl
  rw [hsig, hparser, readMsgCopy_eq] at hrun
  obtain ⟨header, offset, -, hfinish, happend⟩ := run_bind_readRest stable_readCopyHeader hrun
  have hlength : (data.drop offset).length = nsUInteger header.2.2.toInt := by
    by_contra hne
    rw [finishCopy, if_pos hne] at hfinish
    cases hfinish
  have hpos : 0 < pad.length := length_pos_iff.mpr hpad
  rw [parseMessage_eq (by rw [length_append]; omega), signatureOf_append hlen, hsig, hparser,
    readMsgCopy_eq, happend pad, finishCopy, if_pos (by rw [length_append]; omega)]
  rfl

/-! ## Independence of the padding -/

section
variable {β : Type} {inflate : Bytes → Option Bytes} {ser : MTSerialization β} {body : Bytes}

theorem Complete.length_ge (h : Complete ser body) : 4 ≤ body.length := by
  cases h with
  | packed _ _ hlen _ => exact hlen
  | internal _ _ hparse _ => exact four_le_of_parseMessage hparse
  | application _ _ hlen _ _ | refused _ _ hlen _ _ => exact hlen

theorem mtParseMessage_of_ne (h : signatureOf data ≠ 0x3072cfa1) :
    mtParseMessage inflate ser data = match parseMessage data with
      | .ok internalMessage => .ok (some (.inl internalMessage))
      | .error .failed => .ok ((ser.parseMessage (some data)).map .inr)
      | .error .raised => .error .raised := by
  unfold mtParseMessage
  rw [unwrapMessage_of_ne inflate h]
  rfl

theorem mtParseMessage_complete (h : Complete ser body) (hrpc : signatureOf body ≠ 0xf35c6d01)
    (hdestroy : signatureOf body ≠ 0xfb95abcd) :
    ∃ r, ∀ padding : Bytes, padding ≠ [] → mtParseMessage inflate ser (body ++ padding) = r := by
  have hlen := h.length_ge
  have hlen' (padding : Bytes) : 4 ≤ (body ++ padding).length := by rw [length_append]; omega
  have hsig (padding : Bytes) : signatureOf (body ++ padding) = signatureOf body := signatureOf_append hlen padding
  cases h with
  | packed packedData hpacked _ hdata =>
    refine ⟨mtParseMessage inflate ser body, fun padding _ => ?_⟩
    unfold mtParseMessage
    rw [unwrapMessage_packed inflate hlen hpacked hdata, unwrapMessage_packed inflate (hlen' padding)
      ((hsig padding).trans hpacked) (readBytesSkippingLength_append hdata padding)]
  | internal m hne hparse hcopy =>
    by_cases hrest : readsRest (signatureOf body) = false
    · refine ⟨.ok (some (.inl m)), fun padding _ => ?_⟩
      rw [mtParseMessage_of_ne (by rwa [hsig]), parseMessage_append hparse hrest padding]
    · have hmsgCopy : signatureOf body = 0xe06046b2 := by
        unfold readsRest at hrest
        simp only [Bool.not_eq_false, Bool.or_eq_true, beq_iff_eq] at hrest
        tauto
      refine ⟨.ok ((ser.parseMessage (some body)).map .inr), fun padding hpad => ?_⟩
      rw [mtParseMessage_of_ne (by rwa [hsig]), parseMessage_msgCopy hparse hmsgCopy hpad]
      dsimp only
      rw [hcopy hmsgCopy padding]
  | application object hne _ hunknown hparse =>
    refine ⟨.ok (some (.inr object)), fun padding _ => ?_⟩
    rw [mtParseMessage_of_ne (by rwa [hsig]), parseMessage_unknown (hlen' padding) (by rwa [hsig])]
    dsimp only
    rw [hparse padding]
    rfl
  | refused fault hne _ hparse hobject =>
    refine ⟨match fault with
      | .failed => .ok none
      | .raised => .error .raised, fun padding _ => ?_⟩
    rw [mtParseMessage_of_ne (by rwa [hsig]), hparse padding, hobject padding]
    cases fault with
    | failed | raised => rfl

theorem not_paddingIndependent_of_carries {message : Bytes → InternalMessage} {rest : Bytes}
    (hne : signatureOf body ≠ 0x3072cfa1) (hlen : 4 ≤ body.length)
    (hparse : ∀ padding, parseMessage (body ++ padding) = .ok (message (rest ++ padding)))
    (hinj : ∀ d d', message d = message d' → d = d')
    (hplain : ∀ header d, incomingMessages inflate ser header (.inl (message d)) =
      .ok (some [⟨header.embeddedMessageId, header.embeddedSeqNo, header.embeddedSalt, header.embeddedMessageId,
        header.topMessageSize, .inl (message d)⟩])) : ¬ PaddingIndependent inflate ser body := by
  intro h
  have htop (padding : Bytes) : mtParseMessage inflate ser (body ++ padding) =
      .ok (some (.inl (message (rest ++ padding)))) := by
    rw [mtParseMessage_of_ne (by rwa [signatureOf_append hlen]), hparse padding]
  have hres (padding : Bytes) := parseIncomingMessages_packet inflate ser 0 0 0 0 body padding
  have heq := h 0 0 0 0 (replicate 12 0) (replicate 12 1) (by decide) (by decide) (by decide) (by decide)
  rw [hres, hres, htop, htop] at heq
  unfold finishParse at heq
  simp only [bind, Except.bind, hplain, pure, Except.pure, Except.ok.injEq, ParseResult.mk.injEq,
    Option.some.injEq, List.cons.injEq, MTIncomingMessage.mk.injEq, Sum.inl.injEq, true_and, and_true] at heq
  have happend := append_cancel_left (hinj _ _ heq)
  exact absurd happend (by decide)

def noSerialization : MTSerialization Unit := ⟨fun _ => none⟩

/-- `pong` for the message 5 and the ping 6. -/
def pongBody : Bytes := leBits 0x347773c5#32 ++ leBits 5#64 ++ leBits 6#64

/-- `rpc_result` for the request 5 with four bytes of result. -/
def rpcResultBody : Bytes := leBits 0xf35c6d01#32 ++ leBits 5#64 ++ [1, 2, 3, 4]

end

end TelegramClient.MtProto
