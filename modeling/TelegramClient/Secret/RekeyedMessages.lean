import TelegramClient.Secret.MessageRoundTrip
import TelegramClient.Secret.RekeyAgreement

/-!
# Messages while keys are exchanged

Whatever has become of the keys since, **the next message for a client is opened** (`nextMessage_opens`).
-/

namespace TelegramClient.Secret

open MtProto

/-- `requestForAction:` made `m` with one of `keys`, for an action of a layer with version 2. -/
structure SentAs (m : SentMessage) (keys : List EncryptionKeyData) (action : SecretAction) (seqIn seqOut : BitVec 32) :
    Prop where
  encrypted : encryptAction keys m.toOutgoingAction = m
  key : m.key ≠ some []
  keyId : action.keyId = m.keyId
  layer : 73 ≤ action.layer ∧ action.layer < 2 ^ 31
  seqIn : seqIn.toNat < 2 ^ 30 ∧ seqIn.toInt = m.seqIn
  seqOut : seqOut.toNat < 2 ^ 30 ∧ seqOut.toInt = m.seqOut

section
variable (crypto : SecretCrypto) (mtSha1 : Bytes → Block 20) (config : DhConfig) {s : SecretChat}
  (events : List (Bool × ChatEvent)) {m : SentMessage} {rest : List SentMessage} {keys : List EncryptionKeyData}
  {action : SecretAction} {seqIn seqOut : BitVec 32} (chat : SecretChatRecord) (draws : MessageDraws)

/-- The client `own` of a run opens the message in its turn. -/
theorem nextMessage_opens (hs : Starts s) (hevents : events.all (fun e => e.2.drawsNonzero) = true)
    (hnext : (runChat mtSha1 config s events).peer.sent = m :: rest) (hm : SentAs m keys action seqIn seqOut)
    (hchat : chat.keys = (runChat mtSha1 config s events).own.keys)
    (hknown : chat.conversationId ≠ 0 ∧ chat.participantId ≠ 0) {isCreator : Bool} (hrole : chat.isCreator = !isCreator)
    (hlen : (actionPlaintext draws isCreator action seqIn seqOut).length < 2 ^ 31) :
    ∃ bytes message, requestForAction crypto draws keys isCreator action seqIn seqOut = .ok (some bytes) ∧
      decryptEncryptedMessageData crypto chat bytes = some message ∧ message.layer = action.layer ∧
      message.seqIn = m.seqIn ∧ message.seqOut = m.seqOut ∧
      layerHeader draws.headerBytes action.layer isCreator seqIn seqOut ++ action.data <+: message.content := by
  have hbase := (hs.chatInv.run hevents : ChatInv mtSha1 config _ _ []).base
  obtain ⟨record, hrec, ⟨hid, hrecordKey⟩, -⟩ := hbase.held_of_sent hnext
  have hsent := congrArg SentMessage.key hm.encrypted
  obtain ⟨sender, hsender, hsame⟩ := Option.map_eq_some_iff.mp (hsent.trans hrecordKey)
  obtain ⟨-, hsid⟩ := encryptionKey_some (hid ▸ hbase.ownKeys.nonzero record hrec) hsender
  have hopens : chat.Opens sender.keyId sender.key := by
    refine ⟨hknown.1, hknown.2, record, ?_, (hsid.trans hid).symm, hsame.symm⟩
    rw [hchat, hsid, hid]
    exact hbase.ownKeys.encryptionKey_of_mem hrec
  have hne : sender.key ≠ [] := fun h => hm.key (by rw [hrecordKey, ← hsame, h])
  have h17 : 17 ≤ action.layer := Nat.le_trans (by decide) hm.layer.1
  have hlayer : ((BitVec.ofNat 32 action.layer).signExtend 64).toNat = action.layer := by
    have := hm.layer.2
    grind
  obtain ⟨-, -, -, -, hblocks⟩ :=
    paddedMessage_spec draws (73 ≤ action.layer) (serializedAction draws isCreator action seqIn seqOut)
  obtain ⟨keyData, hdata, hencrypt⟩ := encryptMessage_eq crypto draws
    (serializedAction draws isCreator action seqIn seqOut) hne sender.keyId isCreator (73 ≤ action.layer) hlen
  have hpeer := decryptMessageData_peer crypto sender.keyId (by simp [serializedAction, layerHeader]) hlen hdata
  rw [← hrole] at hpeer
  obtain ⟨message, hmessage, hmlayer, hin, hout, hcontent⟩ :=
    acceptMessageData_peer h17 hlayer hrole hknown.2 hm.seqIn.1 hm.seqOut.1
  refine ⟨_, message, (requestForAction_eq crypto (hm.keyId ▸ hsender) h17).trans hencrypt, ?_, hmlayer,
    hin.trans hm.seqIn.2, hout.trans hm.seqOut.2, hcontent⟩
  rw [decryptEncryptedMessageData_sealed crypto hopens (length_sentMessageKey ..) (paddedMessage_ne_nil draws _ _) hblocks,
    openMessage_eq crypto (fun h => absurd h (by simpa using hm.layer.1)) hpeer]
  exact hmessage

end

/-- Behind two exchanges, the second of which has made the first key of the chat again, a message is on its way. -/
def rekeyedRun : List (Bool × ChatEvent) :=
  repeatedKeyRun ++
    [(false, .poll 1 fun _ => []), (false, .poll 1 fun _ => []), (false, .enqueueMessage), (false, .transmit)]

def rekeyedChat : SecretChat :=
  runChat smallKeySha1 goodConfig ⟨newClient, newClient⟩ rekeyedRun

theorem nextMessage_opens_rekeyed : ∃ bytes message,
    requestForAction fixedCrypto fixedDraws rekeyedChat.peer.keys true ⟨73, newClient.keyFingerprint, [1]⟩ 5 3 =
        .ok (some bytes) ∧
      decryptEncryptedMessageData fixedCrypto ⟨1, rekeyedChat.own.keys, false, 9⟩ bytes = some message ∧
      message.layer = 73 ∧ message.seqIn = 5 ∧ message.seqOut = 3 := by
  have hm : SentAs ⟨⟨3, 5, newClient.keyFingerprint, none⟩, some (smallNumber 81)⟩ rekeyedChat.peer.keys
      ⟨73, newClient.keyFingerprint, [1]⟩ 5 3 := ⟨by decide +kernel, by decide +kernel, rfl, by decide, by decide, by decide⟩
  have hnext : rekeyedChat.peer.sent = [⟨⟨3, 5, newClient.keyFingerprint, none⟩, some (smallNumber 81)⟩] := by
    decide +kernel
  obtain ⟨bytes, message, hbytes, hopened, hlayer, hin, hout, -⟩ := nextMessage_opens fixedCrypto smallKeySha1 goodConfig
    rekeyedRun ⟨1, rekeyedChat.own.keys, false, 9⟩ fixedDraws starts_newClient (by decide +kernel) hnext hm
    (by rw [rekeyedChat]) ⟨by decide, by decide⟩ (show false = !true from rfl) (by decide +kernel)
  exact ⟨bytes, message, hbytes, hopened, hlayer, hin, hout⟩

end TelegramClient.Secret
