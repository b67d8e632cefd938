import TelegramClient.Secret.RekeyKeys

/-!
# Messages on their way, and the keys that they need

* `SecretClient.queue` : the messages of a client that the other has not processed, with the keys they are sent with;
* `Held`, `Covered` : the receiver can read a message now, or can when it has processed the messages before it;
* `Flow`, `Base` : numbers, counters and keys in one direction, and in both while a poll executes a batch.

Each operation of a client has one lemma: `Base.enqueue`, `Base.store`, `Base.begin`, `Base.pop`, `Base.transmit`.
-/

namespace TelegramClient.Secret
open List

open MtProto

/-- The messages that the other client has not processed. -/
def SecretClient.queue (c : SecretClient) : List SentMessage := c.sent ++ c.outgoing.map (encryptAction c.keys)

def SecretClient.newMessage (c : SecretClient) (action : Option ServiceAction) : SentMessage :=
  ⟨⟨c.nextSeqOut, c.seqIn, (newest c.keys).keyId, action⟩, some (newest c.keys).key⟩

variable {c : SecretClient}

theorem queue_enqueue (h : KeysOk c.keys) (action : Option ServiceAction) :
    (c.enqueue action).queue = c.queue ++ [c.newMessage action] := by
  unfold SecretClient.queue SecretClient.enqueue SecretClient.newMessage
  simp only [h.encryptionKey_zero, Option.map_some, Option.getD_some, map_append, map_cons, map_nil,
    encryptAction, h.encryptionKey_of_mem h.newest_mem, append_assoc]

variable {keys : List EncryptionKeyData}

theorem queue_keys (h : ∀ action ∈ c.outgoing,
      encryptionKeyForConversationId keys action.keyId = encryptionKeyForConversationId c.keys action.keyId) :
    SecretClient.queue { c with keys := keys } = c.queue := by
  unfold SecretClient.queue
  congr 1
  apply map_congr_left
  intro action hact
  simp only [encryptAction, h action hact]

theorem queue_transmit (c : SecretClient) : c.transmit.queue = c.queue := by
  unfold SecretClient.queue SecretClient.transmit
  cases hout : c.outgoing with
  | nil => simp [hout]
  | cons action outgoing => simp

variable {batch rest : List SentMessage}

theorem queue_of_sent (hsent : c.sent = batch ++ rest) :
    c.queue = batch ++ SecretClient.queue { c with sent := rest } := by
  unfold SecretClient.queue
  rw [hsent, append_assoc]

/-! ## Readable messages -/

def Under (record : EncryptionKeyData) (m : SentMessage) : Prop := m.keyId = record.keyId ∧ m.key = some record.key

/-- The key of the message is stored, and stays so until the message is processed. -/
def Held (keys : List EncryptionKeyData) (m : SentMessage) : Prop :=
  ∃ record ∈ keys, Under record m ∧ (record = newest keys ∨ m.seqIn ≤ (newest keys).firstSeqOut)

def Commits (m : SentMessage) (keyId : BitVec 64) : Prop := ∃ exchangeId, m.action = some (.commitKey exchangeId keyId)

/-- The receiver holds the key of the message, or an earlier message commits it. -/
def Covered (sender receiver : SecretClient) (earlier : List SentMessage) (m : SentMessage) : Prop :=
  Held receiver.keys m ∨ Under (newest sender.keys) m ∧ ∃ c ∈ earlier, Commits c m.keyId

theorem under_newMessage (c : SecretClient) (action : Option ServiceAction) :
    Under (newest c.keys) (c.newMessage action) := ⟨rfl, rfl⟩

variable {record : EncryptionKeyData} {m : SentMessage}

theorem Under.of_sameKey {record' : EncryptionKeyData} (h : Under record m) (hsame : SameKey record record') :
    Under record' m := ⟨h.1.trans hsame.1, by rw [h.2, hsame.2]⟩

theorem held_newest (h : KeysOk keys) (hm : Under (newest keys) m) :
    Held keys m := ⟨newest keys, h.newest_mem, hm, .inl rfl⟩

theorem Held.canDecrypt (h : KeysOk keys) (hm : Held keys m) :
    ∃ record ∈ keys, encryptionKeyForConversationId keys m.keyId = some record ∧ m.key = some record.key := by
  obtain ⟨record, hrec, hunder, -⟩ := hm
  refine ⟨record, hrec, ?_, hunder.2⟩
  rw [hunder.1]
  exact h.encryptionKey_of_mem hrec

theorem Held.store (hm : Held keys m) (hseqIn : m.seqIn ≤ record.firstSeqOut) : Held (keys ++ [record]) m := by
  obtain ⟨other, hother, hunder, -⟩ := hm
  refine ⟨other, mem_append_left _ hother, hunder, Or.inr ?_⟩
  rw [newest_append_singleton]
  exact hseqIn

/-! ## One direction -/

/-- The messages from one client to the other. Those that a poll has taken and not yet executed are pending. -/
structure Flow (sender receiver : SecretClient) (pending : List SentMessage) : Prop where
  numbers : sender.queue.map (fun m => m.seqOut) = List.range' receiver.seqIn sender.queue.length
  next : receiver.seqIn + sender.queue.length = sender.nextSeqOut
  counters : ∀ m ∈ pending ++ sender.queue, m.seqIn ≤ sender.seqIn
  sorted : (pending ++ sender.queue).Pairwise fun m m' => m.seqIn ≤ m'.seqIn
  /-- The key of a message that waits is stored, and stays so until it is sent. -/
  chosen : ∀ action ∈ sender.outgoing, ∃ record ∈ sender.keys, record.keyId = action.keyId ∧
    (record = newest sender.keys ∨ action.seqOut ≤ (newest sender.keys).firstSeqOut)
  covered : ∀ before m after, sender.queue = before ++ m :: after → Covered sender receiver (pending ++ before) m

variable {sender receiver : SecretClient}

theorem Flow.counters_sent {pending : List SentMessage} (h : Flow sender receiver pending)
    (hsent : sender.sent = batch ++ rest) : ∀ m ∈ batch, m.seqIn ≤ sender.seqIn := by
  intro m hm
  apply h.counters
  rw [queue_of_sent hsent]
  exact mem_append_right _ (mem_append_left _ hm)

theorem Flow.seqOut_bounds {pending : List SentMessage} (h : Flow sender receiver pending) (hm : m ∈ sender.queue) :
    receiver.seqIn ≤ m.seqOut ∧ m.seqOut < sender.nextSeqOut := by
  have hmem : m.seqOut ∈ range' receiver.seqIn sender.queue.length := by
    rw [← h.numbers]
    exact mem_map_of_mem hm
  have hrange := mem_range'_1.mp hmem
  have hnext := h.next
  omega

variable {action : OutgoingAction}

theorem Flow.outgoing_bounds {pending : List SentMessage} (h : Flow sender receiver pending)
    (hact : action ∈ sender.outgoing) : receiver.seqIn ≤ action.seqOut ∧ action.seqOut < sender.nextSeqOut := by
  have hm : encryptAction sender.keys action ∈ sender.queue :=
    mem_append_right _ (mem_map_of_mem hact)
  exact h.seqOut_bounds hm

theorem Flow.held {pending : List SentMessage} (h : Flow sender receiver pending)
    (hnone : ∀ c ∈ pending ++ sender.queue, ∀ keyId, ¬Commits c keyId) (hm : m ∈ sender.queue) :
    Held receiver.keys m := by
  obtain ⟨before, after, hq⟩ := append_of_mem hm
  rcases h.covered before m after hq with hheld | ⟨-, c, hc, hcommits⟩
  · exact hheld
  · refine absurd hcommits (hnone c ?_ _)
    rw [hq, ← append_assoc]
    exact mem_append_left _ hc

theorem Flow.enqueue (hkeys : KeysOk sender.keys) (h : Flow sender receiver []) {action : Option ServiceAction}
    (hcovered : Covered sender receiver sender.queue (sender.newMessage action)) :
    Flow (sender.enqueue action) receiver [] := by
  have hq := queue_enqueue hkeys action
  have hle : ∀ m ∈ sender.queue, m.seqIn ≤ sender.seqIn := h.counters
  refine ⟨?_, ?_, ?_, ?_, ?_, ?_⟩
  · rw [hq, map_append, h.numbers, length_append, length_singleton, range'_1_concat, h.next]
    rfl
  · rw [hq, length_append, ← Nat.add_assoc, h.next]
    rfl
  · intro m hm
    rw [nil_append, hq] at hm
    rcases mem_append.mp hm with hm | hm
    · exact hle m hm
    · rw [mem_singleton.mp hm]
      exact Nat.le_refl sender.seqIn
  · rw [nil_append, hq, pairwise_append]
    refine ⟨h.sorted, pairwise_singleton _ _, ?_⟩
    intro m hm m' hm'
    rw [mem_singleton.mp hm']
    exact hle m hm
  · intro other hother
    rcases mem_append.mp hother with hother | hother
    · exact h.chosen other hother
    · rw [mem_singleton.mp hother, hkeys.encryptionKey_zero]
      exact ⟨newest sender.keys, hkeys.newest_mem, rfl, .inl rfl⟩
  · intro before m after hsplit
    rw [hq] at hsplit
    rcases append_eq_append_iff.mp hsplit with ⟨middle, hbefore, hlast⟩ | ⟨middle, hqueue', hlast⟩
    · cases middle with
      | nil =>
        rw [nil_append] at hlast
        obtain ⟨rfl, -⟩ := List.cons.inj hlast
        rw [append_nil] at hbefore
        rw [hbefore]
        exact hcovered
      | cons _ _ => simp at hlast
    · cases middle with
      | nil =>
        rw [nil_append] at hlast
        obtain ⟨rfl, -⟩ := List.cons.inj hlast
        rw [append_nil] at hqueue'
        rw [← hqueue']
        exact hcovered
      | cons first middle =>
        obtain ⟨rfl, -⟩ := List.cons.inj hlast
        exact h.covered before _ middle hqueue'

theorem Flow.queue_store (hkeys : KeysOk sender.keys) (h : Flow sender receiver [])
    (hkeys' : KeysOk (sender.keys ++ [record])) :
    SecretClient.queue { sender with keys := sender.keys ++ [record] } = sender.queue := by
  apply queue_keys
  intro action hact
  obtain ⟨other, hother, hid, -⟩ := h.chosen action hact
  rw [← hid, hkeys.encryptionKey_of_mem hother, hkeys'.encryptionKey_of_mem (mem_append_left _ hother)]

theorem Flow.storeSender (hkeys : KeysOk sender.keys) (h : Flow sender receiver [])
    (hkeys' : KeysOk (sender.keys ++ [record])) (hfirst : sender.nextSeqOut ≤ record.firstSeqOut + 1)
    (hheld : ∀ m ∈ sender.queue, Held receiver.keys m) :
    Flow { sender with keys := sender.keys ++ [record] } receiver [] := by
  have hq := h.queue_store hkeys hkeys'
  refine ⟨?_, ?_, ?_, ?_, ?_, ?_⟩
  · rw [hq]
    exact h.numbers
  · rw [hq]
    exact h.next
  · rw [hq]
    exact h.counters
  · rw [hq]
    exact h.sorted
  · intro action hact
    obtain ⟨other, hother, hid, -⟩ := h.chosen action hact
    refine ⟨other, mem_append_left _ hother, hid, Or.inr ?_⟩
    rw [newest_append_singleton]
    have := (h.outgoing_bounds hact).2
    omega
  · intro before m after hsplit
    rw [hq] at hsplit
    refine .inl (hheld m ?_)
    rw [hsplit]
    exact mem_append_right _ mem_cons_self

theorem Flow.storeReceiver {pending : List SentMessage} (h : Flow sender receiver pending)
    (hseqIn : sender.seqIn ≤ record.firstSeqOut) :
    Flow sender { receiver with keys := receiver.keys ++ [record] } pending := by
  refine ⟨h.numbers, h.next, h.counters, h.sorted, h.chosen, ?_⟩
  intro before m after hsplit
  have hm : m ∈ pending ++ sender.queue := by
    rw [hsplit]
    exact mem_append_right _ (mem_append_right _ mem_cons_self)
  rcases h.covered before m after hsplit with hheld | hcommitted
  · exact .inl (hheld.store (Nat.le_trans (h.counters m hm) hseqIn))
  · exact .inr hcommitted

/-! ## The beginning of a poll -/

theorem le_maxSeqIn (hm : m ∈ batch) : m.seqIn ≤ maxSeqIn batch :=
  (foldl_max_spec (fun m : SentMessage => m.seqIn) batch 0).2.1 m hm

theorem exists_maxSeqIn (h : 0 < maxSeqIn batch) : ∃ m ∈ batch, m.seqIn = maxSeqIn batch := by
  rcases (foldl_max_spec (fun m : SentMessage => m.seqIn) batch 0).2.2 with hzero | hattained
  · unfold maxSeqIn at h
    omega
  · exact hattained

section
variable (h : KeysOk keys)
include h

theorem keysAfterBatch_eq (batch : List SentMessage) : keysAfterBatch keys batch =
      if (newest keys).firstSeqOut < maxSeqIn batch then [newest keys] else keys := by
  rw [keysAfterBatch, h.discard_eq]
  split
  · rfl
  · rw [if_neg (by omega)]

theorem KeysOk.afterBatch (batch : List SentMessage) : KeysOk (keysAfterBatch keys batch) := by
  rw [keysAfterBatch_eq h]
  split
  · exact h.singleton
  · exact h

theorem newest_afterBatch (batch : List SentMessage) : newest (keysAfterBatch keys batch) = newest keys := by
  rw [keysAfterBatch_eq h]
  split
  · rfl
  · rfl

theorem afterBatch_subset (batch : List SentMessage) (hrec : record ∈ keysAfterBatch keys batch) : record ∈ keys := by
  rw [keysAfterBatch_eq h] at hrec
  split at hrec
  · rw [mem_singleton.mp hrec]
    exact h.newest_mem
  · exact hrec

theorem Held.afterBatch (hm : Held keys m) (hlater : ∀ m' ∈ batch, m'.seqIn ≤ m.seqIn) :
    Held (keysAfterBatch keys batch) m := by
  rw [keysAfterBatch_eq h]
  split
  next hfired =>
      obtain ⟨record, -, hunder, hrec⟩ := hm
      obtain ⟨m', hm', hmax⟩ := exists_maxSeqIn (Nat.lt_of_le_of_lt (Nat.zero_le _) hfired)
      have hle := hlater m' hm'
      rcases hrec with rfl | hseqIn
      · exact ⟨newest keys, mem_cons_self, hunder, .inl rfl⟩
      · omega
  next => exact hm

end

theorem Flow.beginReceiver (hkeys : KeysOk receiver.keys) (h : Flow sender receiver [])
    (hsent : sender.sent = batch ++ rest) : Flow { sender with sent := rest }
      { receiver with seqIn := receiver.seqIn + batch.length, keys := keysAfterBatch receiver.keys batch } batch := by
  have hq := queue_of_sent hsent
  have hsorted := h.sorted
  rw [nil_append, hq] at hsorted
  have hnumbers := h.numbers
  rw [hq, map_append, length_append, ← range'_append_1] at hnumbers
  refine ⟨(append_inj hnumbers (by simp)).2, ?_, ?_, hsorted, h.chosen, ?_⟩
  · have := h.next
    rw [hq, length_append, ← Nat.add_assoc] at this
    exact this
  · intro m hm
    rw [← hq] at hm
    exact h.counters m hm
  · intro before m after hsplit
    have hbatch : sender.queue = (batch ++ before) ++ m :: after := by rw [hq, hsplit, append_assoc]
    rcases h.covered _ m after hbatch with hheld | hcommitted
    · refine .inl (hheld.afterBatch hkeys ?_)
      intro m' hm'
      apply (pairwise_append.mp hsorted).2.2 m' hm'
      rw [hsplit]
      exact mem_append_right _ mem_cons_self
    · exact .inr hcommitted

theorem Flow.chosen_begin (hkeys : KeysOk sender.keys) (h : Flow sender receiver [])
    (hbatch : ∀ m ∈ batch, m.seqIn ≤ receiver.seqIn) (hact : action ∈ sender.outgoing) :
    ∃ record ∈ keysAfterBatch sender.keys batch, record ∈ sender.keys ∧ record.keyId = action.keyId ∧
      (record = newest sender.keys ∨ action.seqOut ≤ (newest sender.keys).firstSeqOut) := by
  obtain ⟨record, hrec, hid, hnewest⟩ := h.chosen action hact
  rw [keysAfterBatch_eq hkeys]
  split
  next hfired =>
      obtain ⟨m, hm, hmax⟩ := exists_maxSeqIn (Nat.lt_of_le_of_lt (Nat.zero_le _) hfired)
      have hle := hbatch m hm
      have hseqOut := (h.outgoing_bounds hact).1
      rcases hnewest with rfl | hseqOut'
      · exact ⟨newest sender.keys, mem_cons_self, hrec, hid, .inl rfl⟩
      · omega
  next => exact ⟨record, hrec, hrec, hid, hnewest⟩

theorem Flow.queue_begin (hkeys : KeysOk sender.keys) (h : Flow sender receiver [])
    (hbatch : ∀ m ∈ batch, m.seqIn ≤ receiver.seqIn) : SecretClient.queue { sender with
      seqIn := sender.seqIn + batch.length, keys := keysAfterBatch sender.keys batch } = sender.queue := by
  apply queue_keys
  intro action hact
  obtain ⟨record, hrecord', hrec, hid, -⟩ := h.chosen_begin hkeys hbatch hact
  rw [← hid, hkeys.encryptionKey_of_mem hrec, (hkeys.afterBatch batch).encryptionKey_of_mem hrecord']

theorem Flow.beginSender (hkeys : KeysOk sender.keys) (h : Flow sender receiver [])
    (hbatch : ∀ m ∈ batch, m.seqIn ≤ receiver.seqIn) :
    Flow { sender with seqIn := sender.seqIn + batch.length, keys := keysAfterBatch sender.keys batch } receiver [] := by
  have hq := h.queue_begin hkeys hbatch
  refine ⟨?_, ?_, ?_, ?_, ?_, ?_⟩
  · rw [hq]
    exact h.numbers
  · rw [hq]
    exact h.next
  · rw [hq]
    intro m hm
    exact Nat.le_add_right_of_le (h.counters m hm)
  · rw [hq]
    exact h.sorted
  · intro action hact
    obtain ⟨record, hrecord', -, hid, hnewest⟩ := h.chosen_begin hkeys hbatch hact
    refine ⟨record, hrecord', hid, ?_⟩
    rw [newest_afterBatch hkeys]
    exact hnewest
  · intro before m after hsplit
    rw [hq] at hsplit
    unfold Covered
    rw [newest_afterBatch hkeys]
    exact h.covered before m after hsplit

/-! ## Both directions -/

/-- Two clients, the first of which executes the pending messages of the second. -/
structure Base (own peer : SecretClient) (pending : List SentMessage) : Prop where
  ownKeys : KeysOk own.keys
  peerKeys : KeysOk peer.keys
  ownFirst : ∀ record ∈ own.keys, record.firstSeqOut ≤ own.nextSeqOut
  peerFirst : ∀ record ∈ peer.keys, record.firstSeqOut ≤ peer.nextSeqOut
  incoming : Flow peer own pending
  outgoing : Flow own peer []
  taken : ∀ m ∈ pending, m.seqOut < own.seqIn
  /-- Keys that the counters of the batch allow to remove are removed. -/
  disposed : ∀ m ∈ pending, m.seqIn ≤ (newest own.keys).firstSeqOut ∨ own.keys = [newest own.keys]

variable {own peer : SecretClient} {pending : List SentMessage}

theorem Base.swap (h : Base own peer []) : Base peer own [] :=
  ⟨h.peerKeys, h.ownKeys, h.peerFirst, h.ownFirst, h.outgoing, h.incoming, by simp, by simp⟩

theorem Base.peer_seqIn_le (h : Base own peer pending) : peer.seqIn ≤ own.nextSeqOut := by
  have := h.outgoing.next
  omega

theorem Base.withRekey (h : Base own peer pending) (config isLocal : Bool) (exchangeId keyId : BitVec 64)
    (number key : Bytes) :
    Base { own with
      hasConfig := config
      currentRekeyExchangeId := exchangeId
      currentRekeyIsInitiatedByLocalClient := isLocal
      currentRekeyNumber := number
      currentRekeyKey := key
      currentRekeyKeyId := keyId } peer pending :=
  ⟨h.ownKeys, h.peerKeys, h.ownFirst, h.peerFirst,
    ⟨h.incoming.numbers, h.incoming.next, h.incoming.counters, h.incoming.sorted, h.incoming.chosen,
      h.incoming.covered⟩,
    ⟨h.outgoing.numbers, h.outgoing.next, h.outgoing.counters, h.outgoing.sorted, h.outgoing.chosen,
      h.outgoing.covered⟩, h.taken, h.disposed⟩

theorem Base.enqueue (h : Base own peer pending) {action : Option ServiceAction}
    (hcovered : Covered own peer own.queue (own.newMessage action)) : Base (own.enqueue action) peer pending := by
  refine ⟨h.ownKeys, h.peerKeys, ?_, h.peerFirst, ?_, h.outgoing.enqueue h.ownKeys hcovered, h.taken, h.disposed⟩
  · intro record hrec
    exact Nat.le_succ_of_le (h.ownFirst record hrec)
  · exact ⟨h.incoming.numbers, h.incoming.next, h.incoming.counters, h.incoming.sorted, h.incoming.chosen,
      h.incoming.covered⟩

variable {firstSeqOut : Nat}

theorem Base.store (h : Base own peer pending) {key : Bytes} {keyId : BitVec 64} (hzero : keyId ≠ 0)
    (hfresh : ∀ record ∈ own.keys, record.keyId ≠ keyId)
    (hfirst : ∀ record ∈ own.keys, record.firstSeqOut < firstSeqOut) (hseen : peer.seqIn ≤ firstSeqOut)
    (hlast : own.nextSeqOut ≤ firstSeqOut + 1) (hnext : firstSeqOut ≤ own.nextSeqOut)
    (hheld : ∀ m ∈ own.queue, Held peer.keys m) :
    Base { own with keys := own.keys ++ [⟨keyId, key, firstSeqOut⟩] } peer pending := by
  have hkeys : KeysOk (own.keys ++ [⟨keyId, key, firstSeqOut⟩]) := h.ownKeys.store hzero hfresh hfirst
  refine ⟨hkeys, h.peerKeys, ?_, h.peerFirst, h.incoming.storeReceiver hseen,
    h.outgoing.storeSender h.ownKeys hkeys hlast hheld, h.taken, ?_⟩
  · intro record hrec
    rcases mem_append.mp hrec with hrec | hrec
    · exact h.ownFirst record hrec
    · rw [mem_singleton.mp hrec]
      exact hnext
  · intro m hm
    left
    rw [newest_append_singleton]
    exact Nat.le_trans (h.incoming.counters m (mem_append_left _ hm)) hseen

theorem Base.enqueueSame (h : Base own peer pending) (hsame : SameKey (newest own.keys) (newest peer.keys))
    (action : Option ServiceAction) : Base (own.enqueue action) peer pending :=
  h.enqueue (.inl (held_newest h.peerKeys ((under_newMessage own action).of_sameKey hsame)))

/-- **The key of an exchange is stored** next to the newest one alone, or is not stored. -/
theorem Base.storeKey (h : Base own peer pending) (hsingle : own.keys = [newest own.keys]) (key : Bytes)
    (keyId : BitVec 64) (hfirst : (newest own.keys).firstSeqOut < firstSeqOut) (hseen : peer.seqIn ≤ firstSeqOut)
    (hlast : own.nextSeqOut ≤ firstSeqOut + 1) (hnext : firstSeqOut ≤ own.nextSeqOut)
    (hheld : ∀ m ∈ own.queue, Held peer.keys m) :
    Base (own.storeKey key keyId firstSeqOut) peer pending ∧ (own.storeKey key keyId firstSeqOut).queue = own.queue ∧
      Successor (newest own.keys) key keyId (newest (own.storeKey key keyId firstSeqOut).keys) ∧
      (newest (own.storeKey key keyId firstSeqOut).keys = newest own.keys ∨
        (newest (own.storeKey key keyId firstSeqOut).keys).firstSeqOut = firstSeqOut ∧
          (newest (own.storeKey key keyId firstSeqOut).keys).keyId = keyId ∧
          newest own.keys ∈ (own.storeKey key keyId firstSeqOut).keys) := by
  unfold SecretClient.storeKey
  dsimp only
  have hsucc : Successor (newest own.keys) key keyId
      (newest (storeEncryptionKey own.keys key keyId firstSeqOut)) := by
    rw [hsingle]
    exact successor_store h.ownKeys.singleton key keyId firstSeqOut
  rcases store_cases h.ownKeys key keyId firstSeqOut with ⟨hzero, hfresh, hstore⟩ | ⟨-, hstore⟩
  · have hfirst' : ∀ record ∈ own.keys, record.firstSeqOut < firstSeqOut := by
      rw [hsingle]
      simpa using hfirst
    have hkeys : KeysOk (own.keys ++ [⟨keyId, key, firstSeqOut⟩]) := h.ownKeys.store hzero hfresh hfirst'
    rw [hstore] at hsucc ⊢
    refine ⟨h.store hzero hfresh hfirst' hseen hlast hnext hheld, h.outgoing.queue_store h.ownKeys hkeys, hsucc,
      Or.inr ?_⟩
    rw [newest_append_singleton]
    exact ⟨rfl, rfl, mem_append_left _ h.ownKeys.newest_mem⟩
  · rw [hstore] at hsucc ⊢
    exact ⟨h, rfl, hsucc, .inl rfl⟩

theorem Base.transmit (h : Base own peer []) : Base own.transmit peer [] := by
  have hq := queue_transmit own
  cases hout : own.outgoing with
  | nil =>
    rw [SecretClient.transmit, hout]
    exact h
  | cons action outgoing =>
    rw [SecretClient.transmit, hout] at hq ⊢
    dsimp only at hq ⊢
    have hinc := h.incoming
    have hflow := h.outgoing
    refine ⟨h.ownKeys, h.peerKeys, h.ownFirst, h.peerFirst, ⟨hinc.numbers, hinc.next, hinc.counters,
      hinc.sorted, hinc.chosen, hinc.covered⟩, ⟨?_, ?_, ?_, ?_, ?_, ?_⟩, h.taken, h.disposed⟩
    · rw [hq]
      exact hflow.numbers
    · rw [hq]
      exact hflow.next
    · rw [hq]
      exact hflow.counters
    · rw [hq]
      exact hflow.sorted
    · intro other hother
      apply hflow.chosen other
      rw [hout]
      exact mem_cons_of_mem _ hother
    · rw [hq]
      exact hflow.covered

/-- **A poll begins**: keys are disposed of, and its batch is pending. -/
theorem Base.begin (h : Base own peer []) (hsent : peer.sent = batch ++ rest) :
    Base { own with seqIn := own.seqIn + batch.length, keys := keysAfterBatch own.keys batch }
      { peer with sent := rest } batch := by
  have hq := queue_of_sent hsent
  have hcounters := h.incoming.counters_sent hsent
  refine ⟨h.ownKeys.afterBatch batch, h.peerKeys, ?_, h.peerFirst, h.incoming.beginReceiver h.ownKeys hsent, ?_, ?_, ?_⟩
  · intro record hrec
    exact h.ownFirst record (afterBatch_subset h.ownKeys batch hrec)
  · have hflow := h.outgoing.beginSender h.ownKeys hcounters
    exact ⟨hflow.numbers, hflow.next, hflow.counters, hflow.sorted, hflow.chosen, hflow.covered⟩
  · intro m hm
    have hnumbers := h.incoming.numbers
    rw [hq, map_append, length_append, ← range'_append_1] at hnumbers
    have hmem : m.seqOut ∈ range' own.seqIn batch.length := by
      rw [← (append_inj hnumbers (by simp)).1]
      exact mem_map_of_mem hm
    exact (mem_range'_1.mp hmem).2
  · intro m hm
    rw [newest_afterBatch h.ownKeys, keysAfterBatch_eq h.ownKeys]
    split
    next => exact .inr rfl
    next hkept => exact .inl (Nat.le_trans (le_maxSeqIn hm) (Nat.le_of_not_lt hkept))

theorem Base.pop (h : Base own peer (m :: pending))
    (hm : (∀ keyId, ¬Commits m keyId) ∨ SameKey (newest peer.keys) (newest own.keys)) : Base own peer pending := by
  have hinc := h.incoming
  refine ⟨h.ownKeys, h.peerKeys, h.ownFirst, h.peerFirst, ⟨hinc.numbers, hinc.next, ?_, ?_, hinc.chosen,
    ?_⟩, h.outgoing, ?_, ?_⟩
  · exact fun m' hm' => hinc.counters m' (mem_cons_of_mem _ hm')
  · exact (pairwise_cons.mp hinc.sorted).2
  · intro before m' after hsplit
    rcases hinc.covered before m' after hsplit with hheld | ⟨hunder, c, hc, hcommits⟩
    · exact .inl hheld
    · rcases hm with hnone | hsame
      · refine .inr ⟨hunder, c, ?_, hcommits⟩
        rcases mem_cons.mp hc with rfl | hc
        · exact absurd hcommits (hnone _)
        · exact hc
      · exact .inl (held_newest h.ownKeys (hunder.of_sameKey hsame))
  · exact fun m' hm' => h.taken m' (mem_cons_of_mem _ hm')
  · exact fun m' hm' => h.disposed m' (mem_cons_of_mem _ hm')

end TelegramClient.Secret
