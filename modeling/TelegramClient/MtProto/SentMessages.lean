import TelegramClient.MtProto.Outgoing
import Mathlib.Algebra.Order.BigOperators.Group.List

/-!
# What the server reads of a transaction

The server is no part of the client. Of it there is what the protocol asks for: it decrypts a payload with the key,
checks the message key, and reads the message behind the header, or the messages of the container.

* `openPayload`, `arrivedMessages` : the server;
* `transaction_arrives` : **it reads the messages of the transaction, each of them once**.
-/

namespace TelegramClient.MtProto
open List (append_assoc append_nil length_append)

/-! ## The server -/

/-- The plaintext of a payload for the key. -/
def openPayload (crypto : Crypto) (authKey : Block 256) (authKeyId : BitVec 64) (payload : Bytes) : Option Bytes := do
  let messageKey := slice payload 8 16
  let encryptionKey ← messageEncryptionKeyV2 crypto (some authKey) messageKey false
  let decryptedData := mtAesDecrypt crypto.aes (payload.drop 24) encryptionKey.key encryptionKey.iv
  if ofLeBits 64 (slice payload 0 8) = authKeyId ∧ slice (msgKeyLarge crypto authKey 0 decryptedData) 8 16 = messageKey
  then some decryptedData else none

/-- The messages of a body, which is a container or one message. -/
def bodyMessages (messageId : BitVec 64) (seqNo : BitVec 32) (body : Bytes) : Option (List MTMessage) :=
  if signatureOf body = 0x73f1f8dc then
    match parseMessage body with
    | .ok (.msgContainer messages) => some messages
    | _ => none
  else some [⟨messageId, seqNo, body⟩]

/-- The id of the session and the messages of a plaintext. -/
def arrivedMessages (decryptedData : Bytes) : Option (BitVec 64 × List MTMessage) :=
  (bodyMessages (ofLeBits 64 (slice decryptedData 16 8)) (ofLeBits 32 (slice decryptedData 24 4))
    (slice decryptedData 32 (ofLeBits 32 (slice decryptedData 28 4)).toNat)).map
      fun messages => (ofLeBits 64 (slice decryptedData 8 8), messages)

/-- The message is neither empty nor too long for a container, and is none itself. -/
def Sendable (m : MTPreparedMessage) : Prop :=
  m.data ≠ [] ∧ m.data.length ≤ 16 * 1024 * 1024 ∧ signatureOf m.data ≠ 0x73f1f8dc

instance (m : MTPreparedMessage) : Decidable (Sendable m) := inferInstanceAs (Decidable (_ ∧ _ ∧ _))

/-! ## One payload -/

theorem openPayload_encryptPayload (crypto : Crypto) (authKey : Block 256) (authKeyId : BitVec 64)
    {decryptedData : Bytes} (hne : decryptedData ≠ []) (hblocks : decryptedData.length % 16 = 0) :
    ∃ payload, encryptPayload crypto authKey authKeyId (slice (msgKeyLarge crypto authKey 0 decryptedData) 8 16)
      decryptedData = some payload ∧ openPayload crypto authKey authKeyId payload = some decryptedData := by
  have hlength : (slice (msgKeyLarge crypto authKey 0 decryptedData) 8 16).length = 16 :=
    length_slice_block _ (by norm_num)
  generalize hmsgKey : slice (msgKeyLarge crypto authKey 0 decryptedData) 8 16 = messageKey at hlength
  obtain ⟨encryptionKey, hkey⟩ :
      ∃ encryptionKey, messageEncryptionKeyV2 crypto (some authKey) messageKey false = some encryptionKey := by
    rw [messageEncryptionKeyV2, if_neg (by omega)]
    exact ⟨_, rfl⟩
  set encrypted := mtAesEncryptInplace crypto.aes decryptedData encryptionKey.key encryptionKey.iv with hencrypted
  have hid := ofLeBits_slice (by norm_num) [] authKeyId (messageKey ++ encrypted)
  have hslice := slice_append_middle (leBits authKeyId) messageKey encrypted
  have hdrop : (leBits authKeyId ++ messageKey ++ encrypted).drop 24 = encrypted := List.drop_left' (by simp [hlength])
  rw [length_leBits, hlength] at hslice
  rw [List.nil_append, ← append_assoc] at hid
  refine ⟨leBits authKeyId ++ messageKey ++ encrypted, ?_, ?_⟩
  · rw [encryptPayload, hkey]
    rfl
  · rw [openPayload, hslice, hdrop, hkey]
    simp only [Option.bind_eq_bind, Option.bind_some]
    rw [hencrypted, mtAesDecrypt_mtAesEncryptInplace crypto.aes hne hblocks, if_pos ⟨hid, hmsgKey⟩]

section
variable (salt sessionId messageId : BitVec 64) (seqNo : BitVec 32) {body : Bytes} (hlength : body.length < 2 ^ 32)
include hlength

/-- The server reads the header and the body that were written. -/
theorem sentMessages_packet (padding : Bytes) :
    arrivedMessages (decryptedPacket salt sessionId messageId seqNo body padding) =
      (bodyMessages messageId seqNo body).map fun messages => (sessionId, messages) := by
  set packet := decryptedPacket salt sessionId messageId seqNo body padding with hpkt
  rw [decryptedPacket] at hpkt
  have hsess : ofLeBits 64 (slice packet 8 8) = sessionId := by
    simpa [hpkt] using ofLeBits_slice (by norm_num) (leBits salt) sessionId _
  have hid : ofLeBits 64 (slice packet 16 8) = messageId := by
    simpa [hpkt] using ofLeBits_slice (by norm_num) (leBits salt ++ leBits sessionId) messageId _
  have hseqNo : ofLeBits 32 (slice packet 24 4) = seqNo := by
    simpa [hpkt] using ofLeBits_slice (by norm_num) (leBits salt ++ leBits sessionId ++ leBits messageId) seqNo _
  have hlen : ofLeBits 32 (slice packet 28 4) = BitVec.ofNat 32 body.length := by
    simpa [hpkt] using ofLeBits_slice (by norm_num)
      (leBits salt ++ leBits sessionId ++ leBits messageId ++ leBits seqNo) (BitVec.ofNat 32 body.length) _
  have hbody : slice packet 32 body.length = body := by
    simpa [hpkt] using slice_append_middle (leBits salt ++ leBits sessionId ++ leBits messageId ++ leBits seqNo ++
      leBits (BitVec.ofNat 32 body.length)) body padding
  rw [arrivedMessages, hsess, hid, hseqNo, hlen, BitVec.toNat_ofNat, Nat.mod_eq_of_lt hlength, hbody]

/-- A body that is padded and encrypted is opened and read again. -/
theorem encryptPayload_read (crypto : Crypto) (authKey : Block 256) (authKeyId : BitVec 64) (env : PayloadEnvironment)
    (extendedPadding : Bool) :
    let decryptedData := paddedData env (decryptedPacket salt sessionId messageId seqNo body []) extendedPadding
    ∃ payload, encryptPayload crypto authKey authKeyId (slice (msgKeyLarge crypto authKey 0 decryptedData) 8 16)
        decryptedData = some payload ∧
      (openPayload crypto authKey authKeyId payload).bind arrivedMessages =
        (bodyMessages messageId seqNo body).map fun messages => (sessionId, messages) := by
  intro decryptedData
  obtain ⟨padding, hpadded, -, -, hblocks⟩ :=
    paddedData_spec env (decryptedPacket salt sessionId messageId seqNo body []) extendedPadding
  have hpkt : decryptedData = decryptedPacket salt sessionId messageId seqNo body padding :=
    hpadded.trans (by simp [decryptedPacket])
  have hne : decryptedData ≠ [] := by
    rw [hpkt, decryptedPacket]
    exact List.append_ne_nil_of_left_ne_nil (List.ne_nil_of_length_pos (by simp)) _
  obtain ⟨payload, hpay, hopen⟩ := openPayload_encryptPayload crypto authKey authKeyId hne hblocks
  refine ⟨payload, hpay, ?_⟩
  rw [hopen, Option.bind_some, hpkt, sentMessages_packet salt sessionId messageId seqNo hlength]

end

theorem length_containerItems (container : List MTPreparedMessage) :
    (container.flatMap fun m => containerItem m.toMessage).length = 16 * container.length + totalSize container := by
  induction container with
  | nil => rfl
  | cons m container ih =>
    rw [List.flatMap_cons, length_append, length_containerItem, ih, totalSize, totalSize, List.map_cons,
      List.sum_cons, List.length_cons]
    dsimp only [MTPreparedMessage.toMessage]
    omega

/-- A container of two messages or more is small. -/
theorem bodyMessages_container (messageId : BitVec 64) (seqNo : BitVec 32) {container : List MTPreparedMessage}
    (hsize : totalSize container ≤ maxContainerSize) (hsend : ∀ m ∈ container, Sendable m) :
    (containerData container).length < 2 ^ 32 ∧ bodyMessages messageId seqNo (containerData container) =
      some (container.map MTPreparedMessage.toMessage) := by
  have hcnt : container.length ≤ totalSize container := by
    have h := List.card_nsmul_le_sum (container.map fun m => m.data.length) 1 (by
      intro n hn
      obtain ⟨m, hm, rfl⟩ := List.mem_map.mp hn
      exact List.length_pos_iff.mpr (hsend m hm).1)
    simpa [totalSize] using h
  rw [maxContainerSize] at hsize
  constructor
  · rw [containerData, length_append, length_append, length_containerItems]
    simp only [length_leBits]
    omega
  · have hsig : signatureOf (containerData container) = 0x73f1f8dc := ofLeBits_slice (by norm_num) [] _ _
    have hparse := parseMessage_container (container.map MTPreparedMessage.toMessage) []
      (by rw [List.length_map]; omega) (by simpa [MTPreparedMessage.toMessage] using fun m hm => (hsend m hm).2.1)
    rw [append_nil, List.length_map, List.flatMap_map] at hparse
    rw [bodyMessages, if_pos hsig, containerData, hparse]

/-! ## The payloads of a transaction -/

/-- What the server reads in a payload. -/
def Carries (setup : TransactionSetup) (authKey : Block 256) (authKeyId sessionId : BitVec 64)
    (recorded : RecordedPayload) (container : List MTPreparedMessage) : Prop :=
  (openPayload setup.crypto authKey authKeyId recorded.payload).bind arrivedMessages =
      some (sessionId, container.map MTPreparedMessage.toMessage) ∧
    recorded.messageInternalIds = container.map fun m => setup.messageInternalId m.internalId

section
variable {setup : TransactionSetup} {authKey : Block 256} {authKeyId : BitVec 64} {notBound : Bool}
  (hkey : setup.auth.effectiveAuthKey setup.preferForMedia = some ⟨some authKey, authKeyId, notBound⟩)
include hkey

variable (env : Nat → PayloadEnvironment)

theorem emitContainer_carries (state : TransactionState) {container : List MTPreparedMessage}
    (hok : GroupOk setup.forceConfirmations container) (hsend : ∀ m ∈ container, Sendable m) :
    ∃ state' recorded, emitContainer setup env (.ok state) container = .ok state' ∧
      state'.session.sessionId = state.session.sessionId ∧ state'.payloads = state.payloads ++ [recorded] ∧
      Carries setup authKey authKeyId state.session.sessionId recorded container := by
  match container with
  | [] => exact absurd rfl hok.ne_nil
  | [m] =>
    obtain ⟨-, hmax, hbody⟩ := hsend m (by simp)
    obtain ⟨payload, hpay, hread⟩ := encryptPayload_read m.salt state.session.sessionId m.messageId m.seqNo
      (show m.data.length < 2 ^ 32 by omega) setup.crypto authKey authKeyId (env state.round) setup.extendedPadding
    rw [bodyMessages, if_neg hbody] at hread
    refine ⟨state.record ⟨some payload, messagePlaintext setup (env state.round) state.session.sessionId m, 0,
      state.session⟩ [setup.messageInternalId m.internalId], _, ?_, rfl, rfl, hread, rfl⟩
    simp only [emitContainer, dataForEncryptedMessage, hkey, bind, Except.bind, hpay]
    rfl
  | m₁ :: m₂ :: ms =>
    set container := m₁ :: m₂ :: ms with hcont
    have hsess (s : MTSessionInfo) (ids : List (BitVec 64)) (containerMessageId : BitVec 64) :
        (if ids.length ≠ 0 then s.addContainerMessageIdMapping containerMessageId ids else s).sessionId =
          s.sessionId := by
      split <;> rfl
    obtain ⟨salt, messageId, seqNo, session, hid, hbuilt⟩ : ∃ salt messageId seqNo session,
        session.sessionId = state.session.sessionId ∧
        dataForEncryptedContainer setup (env state.round) container state.session =
          let decryptedData := paddedData (env state.round) (decryptedPacket salt session.sessionId messageId seqNo
            (containerData container) []) setup.extendedPadding
          let large := msgKeyLarge setup.crypto authKey 0 decryptedData
          .ok ⟨encryptPayload setup.crypto authKey authKeyId (slice large 8 16) decryptedData, decryptedData,
            ofLeBits 32 (slice large 0 4) &&& 0x7fffffff, session⟩ := by
      rw [dataForEncryptedContainer, hkey]
      refine ⟨_, _, _, _, ?_, rfl⟩
      exact hsess (state.session.generateClientMessageId (env state.round).now).2.2 _ _
    obtain ⟨hlength, hmessages⟩ := bodyMessages_container messageId seqNo (hok.size_le (by simp [hcont])) hsend
    obtain ⟨payload, hpay, hread⟩ := encryptPayload_read salt state.session.sessionId messageId seqNo hlength
      setup.crypto authKey authKeyId (env state.round) setup.extendedPadding
    rw [hmessages] at hread
    dsimp only at hbuilt
    rw [hid, hpay] at hbuilt
    obtain ⟨decryptedData, quickAckId, hbuilt⟩ : ∃ decryptedData quickAckId, dataForEncryptedContainer setup
        (env state.round) container state.session = .ok ⟨some payload, decryptedData, quickAckId, session⟩ :=
      ⟨_, _, hbuilt⟩
    refine ⟨state.record ⟨some payload, decryptedData, quickAckId, session⟩
      (container.map fun m => setup.messageInternalId m.internalId), _, ?_, hid, rfl, hread, rfl⟩
    simp only [hcont, emitContainer, bind, Except.bind] at hbuilt ⊢
    rw [hbuilt]
    rfl

theorem foldl_emitContainer_carries (groups : List (List MTPreparedMessage))
    (hgroups : ∀ group ∈ groups, GroupOk setup.forceConfirmations group ∧ ∀ m ∈ group, Sendable m)
    (state : TransactionState) : ∃ state' new, groups.foldl (emitContainer setup env) (.ok state) = .ok state' ∧
      state'.payloads = state.payloads ++ new ∧
      List.Forall₂ (Carries setup authKey authKeyId state.session.sessionId) new groups := by
  induction groups generalizing state with
  | nil => exact ⟨state, [], rfl, (append_nil _).symm, .nil⟩
  | cons group groups ih =>
    obtain ⟨⟨hok, hsend⟩, hrest⟩ := List.forall_mem_cons.mp hgroups
    obtain ⟨state₁, recorded, hemit, hsess, hpays, hcarries⟩ := emitContainer_carries hkey env state hok hsend
    obtain ⟨state₂, new, hfold, hpayloads₂, hnew⟩ := ih hrest state₁
    refine ⟨state₂, recorded :: new, ?_, ?_, .cons hcarries (hsess ▸ hnew)⟩
    · rw [List.foldl_cons, hemit, hfold]
    · rw [hpayloads₂, hpays, append_assoc, List.singleton_append]

end

/-- **A transaction arrives.** The payloads are opened with the key and hold, one container each and for the session, the
messages of the transaction, those of high priority first unless confirmations are forced. -/
theorem transaction_arrives (setup : TransactionSetup) (env : Nat → PayloadEnvironment) (list : List MTPreparedMessage)
    (session : MTSessionInfo) (authKey : Block 256) (authKeyId : BitVec 64) (notBound : Bool)
    (hkey : setup.auth.effectiveAuthKey setup.preferForMedia = some ⟨some authKey, authKeyId, notBound⟩)
    (hsend : ∀ m ∈ list, Sendable m) :
    ∃ state containers, transactionPayloads setup env false list session = some (.ok state) ∧
      List.Forall₂ (Carries setup authKey authKeyId session.sessionId) state.payloads containers ∧
      containers.flatten.Perm list ∧ (setup.forceConfirmations = false → HighPriorityFirst containers.flatten) := by
  set messages := arrangeMessages setup.forceConfirmations list with hmessages
  have hperm : messages.Perm list := arrangeMessages_perm _ _
  have hdata (m : MTPreparedMessage) (hm : m ∈ messages) : Sendable m := hsend m (hperm.mem_iff.mp hm)
  have hfirst := (arrangeMessages_ready setup.forceConfirmations list fun m hm => (hsend m hm).1).2
  obtain ⟨groups, hloop, hflatten, hgroups⟩ := packLoop_spec (emitContainer setup env) setup.forceConfirmations
    (GroupOk setup.forceConfirmations) messages [] messages false (.ok ⟨session, 0, []⟩) messages.length rfl le_rfl (by
      intro pre rest latch hsplit hne
      have hpair (hforce : setup.forceConfirmations = false) : HighPriorityFirst rest := by
        have h := hfirst hforce
        rw [← hmessages, HighPriorityFirst, hsplit, List.pairwise_append] at h
        exact h.2.1
      rw [hsplit]
      exact packContainer_groupOk _ pre rest [] latch (Filling.nil _ _)
        (fun m hm => (hdata m (by rw [hsplit]; simpa using .inr hm)).1) hpair hne)
  obtain ⟨state, new, hfold, hpays, hcarries⟩ := foldl_emitContainer_carries hkey env groups
    (fun group hg => ⟨(hgroups group hg).2, fun m hm => hdata m (hflatten ▸ List.mem_flatten_of_mem hg hm)⟩)
    ⟨session, 0, []⟩
  rw [List.nil_append] at hpays
  refine ⟨state, groups, ?_, hpays ▸ hcarries, hflatten ▸ hperm, hflatten ▸ hfirst⟩
  rw [transactionPayloads, if_neg Bool.false_ne_true, ← hfold]
  exact hloop

def urgentMessage : MTPreparedMessage := ⟨2, 0x104, 2, 7, [5, 6], true, true⟩

/-- A normal message and one of high priority. -/
theorem transaction_arrives_two :
    ∃ state containers, transactionPayloads (constantSetup 0) (fun _ => zeroEnvironment) false
        [aloneMessage, urgentMessage] (.initWithSessionId 1) = some (.ok state) ∧
      List.Forall₂ (Carries (constantSetup 0) (Vector.replicate 256 0) 1 1) state.payloads containers ∧
      containers.flatten.Perm [aloneMessage, urgentMessage] ∧ (false = false → HighPriorityFirst containers.flatten) :=
  transaction_arrives (constantSetup 0) (fun _ => zeroEnvironment) [aloneMessage, urgentMessage] (.initWithSessionId 1)
    (Vector.replicate 256 0) 1 false rfl (by decide)

end TelegramClient.MtProto
