import TelegramClient.MtProto.AuthService
import TelegramClient.Secret.IncomingQueue

/-!
# New keys for a secret chat

A client of a secret chat asks for a new key (`maybeRekeyPeerId:`), and `TGSecretIncomingQueueActor` answers the messages
of the exchange. A message gets its key when it is put on the outgoing queue and is encrypted when it is sent; keys are
disposed of when the other client has seen enough.

* `encryptionKeyForConversationId`, `storeEncryptionKey`, `discardEncryptionKeys` : the stored keys;
* `SecretChat`, `stepChat`, `runChat` : two clients, and everything that happens to them in any order.

Messages arrive in order and once. SHA-1 is an arbitrary function, and both clients have the same `p` and `g`.
-/

namespace TelegramClient.Secret

open MtProto

/-! ## Stored keys -/

/-- `TGEncryptionKeyData`. -/
structure EncryptionKeyData where
  keyId : BitVec 64
  key : Bytes
  firstSeqOut : Nat
  deriving DecidableEq

instance : Inhabited EncryptionKeyData := ⟨⟨0, [], 0⟩⟩

/-- The newest key for the fingerprint zero, else the last one with the fingerprint. -/
def encryptionKeyForConversationId (keys : List EncryptionKeyData) (requestedKeyFingerprint : BitVec 64) :
    Option EncryptionKeyData :=
  if requestedKeyFingerprint = 0 then keys.getLast?
  else (keys.filter fun record => record.keyId = requestedKeyFingerprint).getLast?

def storeEncryptionKey (keys : List EncryptionKeyData) (key : Bytes) (keyFingerprint : BitVec 64) (firstSeqOut : Nat) :
    List EncryptionKeyData :=
  if (encryptionKeyForConversationId keys keyFingerprint).isNone then keys ++ [⟨keyFingerprint, key, firstSeqOut⟩]
  else keys

def maxKeySeqOut (keys : List EncryptionKeyData) : Nat :=
  keys.foldl (fun maxKeySeqOut record => max maxKeySeqOut record.firstSeqOut) 0

def discardEncryptionKeys (keys : List EncryptionKeyData) (beforeSeqOut : Nat) : List EncryptionKeyData :=
  if maxKeySeqOut keys < beforeSeqOut then keys.filter fun record => record.firstSeqOut = maxKeySeqOut keys else keys

/-! ## Clients -/

/-- An action on the outgoing queue. Everything that is not of the exchange is `none`. -/
structure OutgoingAction where
  seqOut : Nat
  seqIn : Nat
  keyId : BitVec 64
  action : Option ServiceAction
  deriving DecidableEq

/-- A message under way, and the key that it was encrypted with. -/
structure SentMessage extends OutgoingAction where
  key : Option Bytes
  deriving DecidableEq

/-- What a client stores of the chat (`nil` is `[]`), the outgoing queue, and what is under way to the other. -/
structure SecretClient where
  encryptedConversationId : BitVec 64
  keyFingerprint : BitVec 64
  /-- There is a `cachedEncryptionConfig`. It is never removed. -/
  hasConfig : Bool
  keys : List EncryptionKeyData
  currentRekeyExchangeId : BitVec 64
  currentRekeyIsInitiatedByLocalClient : Bool
  currentRekeyNumber : Bytes
  currentRekeyKey : Bytes
  currentRekeyKeyId : BitVec 64
  /-- One more than the property `seq_out`. -/
  nextSeqOut : Nat
  /-- The property `seq_in`. -/
  seqIn : Nat
  outgoing : List OutgoingAction
  sent : List SentMessage

/-- `enqueueOutgoingServiceMessageForPeerId:` with `keyId:0`. Its number is `nextSeqOut`. -/
def SecretClient.enqueue (c : SecretClient) (action : Option ServiceAction) : SecretClient :=
  let keyId := ((encryptionKeyForConversationId c.keys 0).map EncryptionKeyData.keyId).getD 0
  { c with nextSeqOut := c.nextSeqOut + 1, outgoing := c.outgoing ++ [⟨c.nextSeqOut, c.seqIn, keyId, action⟩] }

def SecretClient.storeKey (c : SecretClient) (key : Bytes) (keyId : BitVec 64) (firstSeqOut : Nat) : SecretClient :=
  { c with keys := storeEncryptionKey c.keys key keyId firstSeqOut }

/-- `requestForAction:`: the key is looked up when the message is sent. -/
def encryptAction (keys : List EncryptionKeyData) (action : OutgoingAction) : SentMessage :=
  { action with key := (encryptionKeyForConversationId keys action.keyId).map EncryptionKeyData.key }

def SecretClient.transmit (c : SecretClient) : SecretClient :=
  match c.outgoing with
  | [] => c
  | action :: outgoing => { c with outgoing := outgoing, sent := c.sent ++ [encryptAction c.keys action] }

def SecretClient.clearRekey (c : SecretClient) : SecretClient :=
  { c with
    currentRekeyKey := []
    currentRekeyKeyId := 0
    currentRekeyExchangeId := 0
    currentRekeyIsInitiatedByLocalClient := false
    currentRekeyNumber := [] }

def markHandshakeAsAborted (exchangeId : BitVec 64) (c : SecretClient) : SecretClient :=
  if c.currentRekeyExchangeId = exchangeId then c.clearRekey else c

def abortHandshake (exchangeId : BitVec 64) (c : SecretClient) : SecretClient :=
  markHandshakeAsAborted exchangeId (c.enqueue (some (.abortKey exchangeId)))

/-! ## The exchange -/

structure DhConfig where
  g : BitVec 32
  p : Bytes

def padKey (key : Bytes) : Bytes :=
  let key := if key.length > 256 then key.drop 1 else key
  List.replicate (256 - key.length) 0 ++ key

section
variable (mtSha1 : Bytes → Block 20) (config : DhConfig)

def rekeyFingerprint (key : Bytes) : BitVec 64 := ofLeBits 64 ((mtSha1 key).toList.drop 12)

/-- `MTExp(g, a, config.p)`. -/
def gPower (a : Bytes) : Bytes := mtExp (leBits config.g).reverse a config.p

/-- With the random number and the exchange id that it draws. -/
def maybeRekey (a : Bytes) (exchangeId : BitVec 64) (c : SecretClient) : SecretClient :=
  if c.encryptedConversationId ≠ 0 ∧ c.keyFingerprint ≠ 0 ∧ c.currentRekeyExchangeId = 0 ∧ c.hasConfig = true then
    if !mtCheckIsSafeGAOrB (gPower config a) config.p then c
    else
      SecretClient.enqueue { c with
        currentRekeyExchangeId := exchangeId
        currentRekeyIsInitiatedByLocalClient := true
        currentRekeyNumber := a } (some (.requestKey exchangeId (gPower config a)))
  else c

/-- A request that is accepted, with the random number of the answer. -/
def acceptRequest (b : Bytes) (exchangeId : BitVec 64) (gA : Bytes) (c : SecretClient) : SecretClient :=
  if c.hasConfig then
    if !mtCheckIsSafeGAOrB gA config.p then abortHandshake exchangeId c
    else
      let key := padKey (mtExp gA b config.p)
      let keyId := rekeyFingerprint mtSha1 key
      SecretClient.enqueue { c with
        currentRekeyExchangeId := exchangeId
        currentRekeyKey := key
        currentRekeyKeyId := keyId
        currentRekeyIsInitiatedByLocalClient := false } (some (.acceptKey exchangeId (gPower config b) keyId))
  else c.enqueue (some (.abortKey exchangeId))

def executeRequestKey (b : Bytes) (exchangeId : BitVec 64) (gA : Bytes) (c : SecretClient) : SecretClient :=
  if c.currentRekeyExchangeId ≠ 0 then
    if c.currentRekeyIsInitiatedByLocalClient then
      if c.currentRekeyExchangeId.toInt > exchangeId.toInt then c.enqueue (some (.abortKey exchangeId))
      else acceptRequest mtSha1 config b exchangeId gA c
    else c
  else acceptRequest mtSha1 config b exchangeId gA c

/-- The key is stored with the number of `commitKey`, between that message and an empty one. -/
def commitNewKey (exchangeId : BitVec 64) (key : Bytes) (keyId : BitVec 64) (c : SecretClient) : SecretClient :=
  let stored := (c.enqueue (some (.commitKey exchangeId keyId))).storeKey key keyId c.nextSeqOut
  (stored.enqueue none).clearRekey

def executeAcceptKey (exchangeId : BitVec 64) (gB : Bytes) (keyFingerprint : BitVec 64) (c : SecretClient) :
    SecretClient :=
  if c.currentRekeyExchangeId = exchangeId ∧ c.currentRekeyIsInitiatedByLocalClient = true then
    if c.hasConfig then
      if !mtCheckIsSafeGAOrB gB config.p then abortHandshake exchangeId c
      else
        let key := padKey (mtExp gB c.currentRekeyNumber config.p)
        let keyId := rekeyFingerprint mtSha1 key
        if keyId = keyFingerprint then commitNewKey exchangeId key keyId c else abortHandshake exchangeId c
    else c
  else c

/-- The key is stored with the number of the message that follows. -/
def executeCommitKey (exchangeId keyFingerprint : BitVec 64) (c : SecretClient) : SecretClient :=
  if c.currentRekeyExchangeId = exchangeId ∧ c.currentRekeyIsInitiatedByLocalClient = false then
    if c.currentRekeyKeyId = keyFingerprint then
      let stored := c.storeKey c.currentRekeyKey c.currentRekeyKeyId c.nextSeqOut
      (stored.enqueue none).clearRekey
    else c
  else c

/-- An action of a message, with the random number for an answer. The others do nothing to the keys. -/
def executeAction (b : Bytes) (c : SecretClient) : Option ServiceAction → SecretClient
  | some (.requestKey exchangeId gA) => executeRequestKey mtSha1 config b exchangeId gA c
  | some (.acceptKey exchangeId gB keyFingerprint) => executeAcceptKey mtSha1 config exchangeId gB keyFingerprint c
  | some (.commitKey exchangeId keyFingerprint) => executeCommitKey exchangeId keyFingerprint c
  | some (.abortKey exchangeId) => markHandshakeAsAborted exchangeId c
  | _ => c

/-! ## Two clients -/

def canDecrypt (keys : List EncryptionKeyData) (message : SentMessage) : Bool :=
  match encryptionKeyForConversationId keys message.keyId with
  | some record => message.key == some record.key
  | none => false

/-- The messages that a poll processes, of those that have come. -/
def pollBatch (keys : List EncryptionKeyData) (count : Nat) (sent : List SentMessage) : List SentMessage :=
  (sent.take count).takeWhile (canDecrypt keys)

def maxSeqIn (batch : List SentMessage) : Nat := batch.foldl (fun maxSeqIn message => max maxSeqIn message.seqIn) 0

/-- The keys after `discardEncryptionKeysForConversationId:`. -/
def keysAfterBatch (keys : List EncryptionKeyData) (batch : List SentMessage) : List EncryptionKeyData :=
  if maxSeqIn batch > 0 then discardEncryptionKeys keys (maxSeqIn batch) else keys

structure SecretChat where
  own : SecretClient
  peer : SecretClient

def SecretChat.swap (s : SecretChat) : SecretChat := ⟨s.peer, s.own⟩

/-- The first `count` messages have come. Keys are disposed of first, and the number is stored before the actions are
executed. -/
def poll (count : Nat) (draws : Nat → Bytes) (s : SecretChat) : SecretChat :=
  let batch := pollBatch s.own.keys count s.peer.sent
  let own := { s.own with seqIn := s.own.seqIn + batch.length, keys := keysAfterBatch s.own.keys batch }
  { own := batch.foldl (fun c message => executeAction mtSha1 config (draws message.seqOut) c message.action) own
    peer := { s.peer with sent := s.peer.sent.drop batch.length } }

inductive ChatEvent where
  | maybeRekey (a : Bytes) (exchangeId : BitVec 64)
  /-- Any message that is not of the exchange. -/
  | enqueueMessage
  | transmit
  | poll (count : Nat) (draws : Nat → Bytes)
  | setCachedEncryptionConfig

def stepOwn (s : SecretChat) : ChatEvent → SecretChat
  | .maybeRekey a exchangeId => { s with own := maybeRekey config a exchangeId s.own }
  | .enqueueMessage => { s with own := s.own.enqueue none }
  | .transmit => { s with own := s.own.transmit }
  | .poll count draws => poll mtSha1 config count draws s
  | .setCachedEncryptionConfig => { s with own := { s.own with hasConfig := true } }

/-- An event, and whether it is at the first client. -/
def stepChat (s : SecretChat) (e : Bool × ChatEvent) : SecretChat :=
  if e.1 then stepOwn mtSha1 config s e.2 else (stepOwn mtSha1 config s.swap e.2).swap

def runChat (s : SecretChat) (events : List (Bool × ChatEvent)) : SecretChat :=
  events.foldl (stepChat mtSha1 config) s

end

end TelegramClient.Secret
