import TelegramClient.Secret.RekeyFlow

/-!
# Both clients of a secret chat agree on the key

* `Quiet` : the states of an exchange that has not been committed, by the messages of it that are under way;
* `ChatInv`, `chatInv_run` : the invariant of all runs;
* `runChat_agreement` : **the newest keys are equal when nothing is under way**; `key_removed` : a key that is made
  again.
-/

namespace TelegramClient.Secret
open List

open MtProto

/-! ## Messages of the exchange -/

def isRekeyAction : Option ServiceAction → Bool
  | some (.requestKey _ _) => true
  | some (.acceptKey _ _ _) => true
  | some (.commitKey _ _) => true
  | some (.abortKey _) => true
  | _ => false

def rekeys (queue : List SentMessage) : List SentMessage := queue.filter fun m => isRekeyAction m.action

theorem rekeys_append (queue queue' : List SentMessage) : rekeys (queue ++ queue') = rekeys queue ++ rekeys queue' :=
  filter_append _ _

variable {queue : List SentMessage} {m : SentMessage}

theorem rekeys_snoc (h : isRekeyAction m.action = true) : rekeys (queue ++ [m]) = rekeys queue ++ [m] := by
  rw [rekeys_append]
  simp [rekeys, h]

theorem rekeys_snoc_other (h : isRekeyAction m.action = false) : rekeys (queue ++ [m]) = rekeys queue := by
  rw [rekeys_append]
  simp [rekeys, h]

theorem rekeys_cons (h : isRekeyAction m.action = true) : rekeys (m :: queue) = m :: rekeys queue := by simp [rekeys, h]

theorem rekeys_cons_other (h : isRekeyAction m.action = false) :
    rekeys (m :: queue) = rekeys queue := by simp [rekeys, h]

theorem Commits.mem_rekeys {keyId : BitVec 64} (h : Commits m keyId) (hm : m ∈ queue) : m ∈ rekeys queue := by
  obtain ⟨exchangeId, hact⟩ := h
  exact mem_filter.mpr ⟨hm, by rw [hact]; rfl⟩

/-! ## States of one client -/

def Idle (c : SecretClient) : Prop := c.currentRekeyExchangeId = 0

structure Asks (c : SecretClient) (exchangeId : BitVec 64) : Prop where
  exchange : c.currentRekeyExchangeId = exchangeId
  nonzero : exchangeId ≠ 0
  initiated : c.currentRekeyIsInitiatedByLocalClient = true
  config : c.hasConfig = true

structure Answers (c : SecretClient) (exchangeId : BitVec 64) : Prop where
  exchange : c.currentRekeyExchangeId = exchangeId
  nonzero : exchangeId ≠ 0
  initiated : c.currentRekeyIsInitiatedByLocalClient = false

variable {c : SecretClient} {exchangeId : BitVec 64}

theorem Asks.not_idle (h : Asks c exchangeId) : ¬Idle c :=
  fun hidle => h.nonzero (h.exchange.symm.trans hidle)

theorem Answers.not_idle (h : Answers c exchangeId) : ¬Idle c :=
  fun hidle => h.nonzero (h.exchange.symm.trans hidle)

def Aborts (exchangeId : BitVec 64) (m : SentMessage) : Prop := m.action = some (.abortKey exchangeId)

def Stale (exchangeId : BitVec 64) (ms : List SentMessage) : Prop := ∀ m ∈ ms, ∃ other, other ≠ exchangeId ∧ Aborts other m

def IsAnswer (m : SentMessage) : Prop := ∃ exchangeId gB keyId, m.action = some (.acceptKey exchangeId gB keyId)

section
variable (mtSha1 : Bytes → Block 20) (config : DhConfig)

structure Request (c : SecretClient) (exchangeId : BitVec 64) (m : SentMessage) : Prop where
  action : m.action = some (.requestKey exchangeId (gPower config c.currentRekeyNumber))
  safe : mtCheckIsSafeGAOrB (gPower config c.currentRekeyNumber) config.p = true
  first : ∀ record ∈ c.keys, record.firstSeqOut ≤ m.seqOut

/-- The answer to the request of `asker`. -/
structure Answer (asker answerer : SecretClient) (exchangeId : BitVec 64) (m : SentMessage) : Prop where
  action : ∃ b, m.action = some (.acceptKey exchangeId (gPower config b) answerer.currentRekeyKeyId) ∧
    answerer.currentRekeyKey = padKey (mtExp (gPower config asker.currentRekeyNumber) b config.p)
  keyId : answerer.currentRekeyKeyId = rekeyFingerprint mtSha1 answerer.currentRekeyKey
  askerFirst : ∀ record ∈ asker.keys, record.firstSeqOut < m.seqIn
  answererFirst : ∀ record ∈ answerer.keys, record.firstSeqOut ≤ m.seqOut

/-- The client does nothing, or its request is all that is under way. -/
def Ready (c : SecretClient) (ms : List SentMessage) : Prop :=
  ms = [] ∧ Idle c ∨ ∃ exchangeId m, ms = [m] ∧ Asks c exchangeId ∧ Request config c exchangeId m

/-! ## States of both -/

/-- Nothing is committed. The lists are the messages of `a` and of `b`. -/
inductive Quiet (a b : SecretClient) : List SentMessage → List SentMessage → Prop where
  | ready {ms : List SentMessage} (hb : Idle b) (ha : Ready config a ms) : Quiet a b ms []
  /-- `b` had no configuration. -/
  | refused {x : BitVec 64} {m : SentMessage} {ms : List SentMessage} (ha : Asks a x) (hm : Aborts x m)
      (hb : Ready config b ms) : Quiet a b [] (m :: ms)
  | bothAsked {x y : BitVec 64} {m m' : SentMessage} (ha : Asks a x) (hm : Request config a x m) (hb : Asks b y)
      (hm' : Request config b y m') : Quiet a b [m] [m']
  /-- `a` has seen the request of `b`, and wins. -/
  | crossed {x y : BitVec 64} {m m' : SentMessage} (ha : Asks a x) (hm : Request config a x m) (hb : Asks b y)
      (hlt : y.toInt < x.toInt) (hm' : Aborts y m') : Quiet a b [m, m'] []
  | answered {x : BitVec 64} {m : SentMessage} {stale : List SentMessage} (ha : Asks a x) (hb : Answers b x)
      (hm : Answer mtSha1 config a b x m) (hstale : Stale x stale) : Quiet a b stale [m]
  /-- `b` has answered, and `a` has not seen the request of `b`. -/
  | answeredBehind {x y : BitVec 64} {gA : Bytes} {m m' : SentMessage} (ha : Asks a x) (hb : Answers b x)
      (hm : Answer mtSha1 config a b x m) (hm' : m'.action = some (.requestKey y gA))
      (hsafe : mtCheckIsSafeGAOrB gA config.p = true) (hle : y.toInt ≤ x.toInt) : Quiet a b [] [m', m]
  | aborted {x : BitVec 64} {m : SentMessage} {stale ms : List SentMessage} (hb : Answers b x) (hstale : Stale x stale)
      (hm : Aborts x m) (ha : Ready config a ms) : Quiet a b (stale ++ m :: ms) []
  /-- Both have asked with one number, and both have answered. -/
  | dead {x y : BitVec 64} {ms ms' : List SentMessage} (ha : Answers a x) (hb : Answers b y) (hms : ∀ m ∈ ms, IsAnswer m)
      (hms' : ∀ m ∈ ms', IsAnswer m) : Quiet a b ms ms'

/-- `a` has committed the key of the exchange with `m`. -/
structure Committed (a b : SecretClient) (m : SentMessage) (stale ms : List SentMessage) : Prop where
  answers : Answers b b.currentRekeyExchangeId
  stale : Stale b.currentRekeyExchangeId stale
  action : m.action = some (.commitKey b.currentRekeyExchangeId b.currentRekeyKeyId)
  first : ∀ record ∈ b.keys, record.firstSeqOut < m.seqIn
  ready : Ready config a ms
  successor : Successor (newest b.keys) b.currentRekeyKey b.currentRekeyKeyId (newest a.keys)
  /-- The new key has the number of `m`, and the old one is still there. -/
  installed : SameKey (newest a.keys) (newest b.keys) ∨
    (newest a.keys).firstSeqOut = m.seqOut ∧ (newest a.keys).keyId = b.currentRekeyKeyId ∧
      ∃ record ∈ a.keys, SameKey record (newest b.keys)

inductive Phase (a b : SecretClient) : List SentMessage → List SentMessage → Prop where
  | quiet {ms ms' : List SentMessage} (hsame : SameKey (newest a.keys) (newest b.keys))
      (h : Quiet mtSha1 config a b ms ms') : Phase a b ms ms'
  | quietSwap {ms ms' : List SentMessage} (hsame : SameKey (newest a.keys) (newest b.keys))
      (h : Quiet mtSha1 config b a ms' ms) : Phase a b ms ms'
  | committed {m : SentMessage} {stale ms : List SentMessage} (h : Committed config a b m stale ms) :
      Phase a b (stale ++ m :: ms) []
  | committedSwap {m : SentMessage} {stale ms : List SentMessage} (h : Committed config b a m stale ms) :
      Phase a b [] (stale ++ m :: ms)

/-- Two clients, the first of which executes the pending messages of the second. -/
structure ChatInv (own peer : SecretClient) (pending : List SentMessage) : Prop where
  base : Base own peer pending
  phase : Phase mtSha1 config own peer (rekeys own.queue) (rekeys (pending ++ peer.queue))

end

/-! ## What an exchange does not depend on -/

/-- The state of the exchange is the same; older keys may be gone. -/
structure Frame (c c' : SecretClient) : Prop where
  exchange : c'.currentRekeyExchangeId = c.currentRekeyExchangeId
  initiated : c'.currentRekeyIsInitiatedByLocalClient = c.currentRekeyIsInitiatedByLocalClient
  number : c'.currentRekeyNumber = c.currentRekeyNumber
  key : c'.currentRekeyKey = c.currentRekeyKey
  keyId : c'.currentRekeyKeyId = c.currentRekeyKeyId
  config : c.hasConfig = true → c'.hasConfig = true
  keys : ∀ record ∈ c'.keys, record ∈ c.keys
  newest : newest c'.keys = newest c.keys

theorem Frame.refl (c : SecretClient) : Frame c c := ⟨rfl, rfl, rfl, rfl, rfl, id, fun _ h => h, rfl⟩

theorem Frame.enqueue (c : SecretClient) (action : Option ServiceAction) : Frame c (c.enqueue action) :=
  ⟨rfl, rfl, rfl, rfl, rfl, id, fun _ h => h, rfl⟩

section
variable {mtSha1 : Bytes → Block 20} {config : DhConfig} {a a' b b' : SecretClient} {x : BitVec 64} {m : SentMessage}
  {ms ms' stale : List SentMessage}

theorem Idle.frame (h : Idle a) (ha : Frame a a') : Idle a' := ha.exchange.trans h

theorem Asks.frame (h : Asks a x) (ha : Frame a a') : Asks a' x :=
  ⟨ha.exchange.trans h.exchange, h.nonzero, ha.initiated.trans h.initiated, ha.config h.config⟩

theorem Answers.frame (h : Answers a x) (ha : Frame a a') : Answers a' x :=
  ⟨ha.exchange.trans h.exchange, h.nonzero, ha.initiated.trans h.initiated⟩

theorem Request.frame (h : Request config a x m) (ha : Frame a a') : Request config a' x m := by
  refine ⟨?_, ?_, fun record hrec => h.first record (ha.keys record hrec)⟩
  · rw [ha.number]
    exact h.action
  · rw [ha.number]
    exact h.safe

theorem Answer.frame (h : Answer mtSha1 config a b x m) (ha : Frame a a') (hb : Frame b b') :
    Answer mtSha1 config a' b' x m := by
  refine ⟨?_, ?_, fun record hrec => h.askerFirst record (ha.keys record hrec),
    fun record hrec => h.answererFirst record (hb.keys record hrec)⟩
  · rw [ha.number, hb.key, hb.keyId]
    exact h.action
  · rw [hb.key, hb.keyId]
    exact h.keyId

theorem Ready.frame (h : Ready config a ms) (ha : Frame a a') : Ready config a' ms := by
  rcases h with ⟨hms, hidle⟩ | ⟨x, m, hms, hasks, hm⟩
  · exact .inl ⟨hms, hidle.frame ha⟩
  · exact .inr ⟨x, m, hms, hasks.frame ha, hm.frame ha⟩

theorem Quiet.frame (h : Quiet mtSha1 config a b ms ms') (ha : Frame a a') (hb : Frame b b') :
    Quiet mtSha1 config a' b' ms ms' := by
  cases h with
  | ready h₁ h₂ => exact .ready (h₁.frame hb) (h₂.frame ha)
  | refused h₁ h₂ h₃ => exact .refused (h₁.frame ha) h₂ (h₃.frame hb)
  | bothAsked h₁ h₂ h₃ h₄ => exact .bothAsked (h₁.frame ha) (h₂.frame ha) (h₃.frame hb) (h₄.frame hb)
  | crossed h₁ h₂ h₃ h₄ h₅ => exact .crossed (h₁.frame ha) (h₂.frame ha) (h₃.frame hb) h₄ h₅
  | answered h₁ h₂ h₃ h₄ => exact .answered (h₁.frame ha) (h₂.frame hb) (h₃.frame ha hb) h₄
  | answeredBehind h₁ h₂ h₃ h₄ h₅ h₆ => exact .answeredBehind (h₁.frame ha) (h₂.frame hb) (h₃.frame ha hb) h₄ h₅ h₆
  | aborted h₁ h₂ h₃ h₄ => exact .aborted (h₁.frame hb) h₂ h₃ (h₄.frame ha)
  | dead h₁ h₂ h₃ h₄ => exact .dead (h₁.frame ha) (h₂.frame hb) h₃ h₄

theorem Committed.frame (h : Committed config a b m stale ms) (ha : Frame a a') (hb : Frame b b')
    (hkept : SameKey (newest a.keys) (newest b.keys) ∨ a'.keys = a.keys) : Committed config a' b' m stale ms := by
  refine ⟨?_, ?_, ?_, fun record hrec => h.first record (hb.keys record hrec), h.ready.frame ha, ?_, ?_⟩
  · rw [hb.exchange]
    exact h.answers.frame hb
  · rw [hb.exchange]
    exact h.stale
  · rw [hb.exchange, hb.keyId]
    exact h.action
  · rw [hb.newest, hb.key, hb.keyId, ha.newest]
    exact h.successor
  · rw [hb.newest, hb.keyId, ha.newest]
    rcases hkept with hsame | hkeys
    · exact .inl hsame
    · rw [hkeys]
      exact h.installed

theorem Phase.frame (h : Phase mtSha1 config a b ms ms') (ha : Frame a a') (hb : Frame b b') (hakeys : a'.keys = a.keys)
    (hbkeys : b'.keys = b.keys) : Phase mtSha1 config a' b' ms ms' := by
  cases h with
  | quiet hsame h => exact .quiet (by rw [ha.newest, hb.newest]; exact hsame) (h.frame ha hb)
  | quietSwap hsame h => exact .quietSwap (by rw [ha.newest, hb.newest]; exact hsame) (h.frame hb ha)
  | committed h => exact .committed (h.frame ha hb (.inr hakeys))
  | committedSwap h => exact .committedSwap (h.frame hb ha (.inr hbkeys))

theorem Phase.swap (h : Phase mtSha1 config a b ms ms') : Phase mtSha1 config b a ms' ms := by
  cases h with
  | quiet hsame h => exact .quietSwap hsame.symm h
  | quietSwap hsame h => exact .quiet hsame.symm h
  | committed h => exact .committedSwap h
  | committedSwap h => exact .committed h

theorem ChatInv.swap (h : ChatInv mtSha1 config a b []) : ChatInv mtSha1 config b a [] :=
  ⟨h.base.swap, h.phase.swap⟩

end

/-! ## Messages of the exchange are executed -/

section
variable {mtSha1 : Bytes → Block 20} {config : DhConfig} {own peer : SecretClient} {m : SentMessage}
  {pending ms ms' stale : List SentMessage} {x y : BitVec 64} {gA : Bytes}

theorem executeAction_other {action : Option ServiceAction} (h : isRekeyAction action = false) (b : Bytes)
    (c : SecretClient) : executeAction mtSha1 config b c action = c := by
  unfold executeAction
  split
  · cases h
  · cases h
  · cases h
  · cases h
  · rfl

theorem executeRequestKey_wins (h : Asks own x) (hlt : y.toInt < x.toInt) (b : Bytes) :
    executeRequestKey mtSha1 config b y gA own = own.enqueue (some (.abortKey y)) := by
  unfold executeRequestKey
  rw [h.exchange, if_pos h.nonzero, if_pos h.initiated, if_pos hlt]

theorem executeRequestKey_yields (h : Asks own x) (hle : x.toInt ≤ y.toInt) (b : Bytes) :
    executeRequestKey mtSha1 config b y gA own = acceptRequest mtSha1 config b y gA own := by
  unfold executeRequestKey
  rw [h.exchange, if_pos h.nonzero, if_pos h.initiated, if_neg (Int.not_lt.mpr hle)]

theorem executeRequestKey_idle (h : Idle own) (b : Bytes) :
    executeRequestKey mtSha1 config b y gA own = acceptRequest mtSha1 config b y gA own := by
  have hzero : own.currentRekeyExchangeId = 0 := h
  unfold executeRequestKey
  rw [if_neg (not_not_intro hzero)]

theorem markHandshakeAsAborted_other (h : own.currentRekeyExchangeId ≠ x) : markHandshakeAsAborted x own = own := if_neg h

theorem markHandshakeAsAborted_same (h : own.currentRekeyExchangeId = x) :
    markHandshakeAsAborted x own = own.clearRekey := if_pos h

theorem idle_clearRekey (c : SecretClient) : Idle c.clearRekey := rfl

theorem not_commits_of_request (h : m.action = some (.requestKey x gA)) (keyId : BitVec 64) : ¬Commits m keyId := by
  rintro ⟨_, hact⟩
  rw [h] at hact
  cases hact

theorem not_commits_of_aborts (h : Aborts x m) (keyId : BitVec 64) : ¬Commits m keyId := by
  rintro ⟨_, hact⟩
  rw [show m.action = some (.abortKey x) from h] at hact
  cases hact

theorem not_commits_of_isAnswer (h : IsAnswer m) (keyId : BitVec 64) : ¬Commits m keyId := by
  obtain ⟨_, _, _, hact⟩ := h
  rintro ⟨_, haction'⟩
  rw [hact] at haction'
  cases haction'

theorem Answer.isAnswer {a b : SecretClient} (h : Answer mtSha1 config a b x m) : IsAnswer m := by
  obtain ⟨_, hact, -⟩ := h.action
  exact ⟨_, _, _, hact⟩

variable {own' : SecretClient}

theorem ChatInv.of_sent {answer : SentMessage} (hbase : Base own' peer (m :: pending))
    (hm : ∀ keyId, ¬Commits m keyId) (hq : own'.queue = own.queue ++ [answer])
    (hanswer : isRekeyAction answer.action = true)
    (hph : Phase mtSha1 config own' peer (rekeys own.queue ++ [answer]) (rekeys (pending ++ peer.queue))) :
    ChatInv mtSha1 config own' peer pending := by
  refine ⟨hbase.pop (.inl hm), ?_⟩
  rw [hq, rekeys_snoc hanswer]
  exact hph

/-- **A request is accepted.** -/
theorem acceptRequest_spec (hbase : Base own peer pending) (hsame : SameKey (newest own.keys) (newest peer.keys))
    (hcfg : own.hasConfig = true) (hsafe : mtCheckIsSafeGAOrB gA config.p = true) (hx : x ≠ 0) (b : Bytes) :
    ∃ answer, Base (acceptRequest mtSha1 config b x gA own) peer pending ∧
      (acceptRequest mtSha1 config b x gA own).queue = own.queue ++ [answer] ∧ IsAnswer answer ∧
      Answers (acceptRequest mtSha1 config b x gA own) x ∧ (acceptRequest mtSha1 config b x gA own).keys = own.keys ∧
      (gA = gPower config peer.currentRekeyNumber → (∀ record ∈ peer.keys, record.firstSeqOut < own.seqIn) →
        Answer mtSha1 config peer (acceptRequest mtSha1 config b x gA own) x answer) := by
  have heq : acceptRequest mtSha1 config b x gA own = SecretClient.enqueue { own with
      currentRekeyExchangeId := x
      currentRekeyKey := padKey (mtExp gA b config.p)
      currentRekeyKeyId := rekeyFingerprint mtSha1 (padKey (mtExp gA b config.p))
      currentRekeyIsInitiatedByLocalClient := false } (some (.acceptKey x (gPower config b)
        (rekeyFingerprint mtSha1 (padKey (mtExp gA b config.p))))) := by
    unfold acceptRequest
    rw [if_pos hcfg, if_neg (by simp [hsafe])]
  rw [heq]
  have hrekey := hbase.withRekey own.hasConfig false x (rekeyFingerprint mtSha1 (padKey (mtExp gA b config.p)))
    own.currentRekeyNumber (padKey (mtExp gA b config.p))
  refine ⟨_, hrekey.enqueueSame hsame _, queue_enqueue hbase.ownKeys _, ⟨_, _, _, rfl⟩, ⟨rfl, hx, rfl⟩, rfl, ?_⟩
  intro hgA hpeer
  refine ⟨⟨b, rfl, ?_⟩, rfl, hpeer, hbase.ownFirst⟩
  rw [← hgA]
  rfl

theorem isRekeyAction_of_isAnswer (h : IsAnswer m) : isRekeyAction m.action = true := by
  obtain ⟨_, _, _, hact⟩ := h
  rw [hact]
  rfl

variable {m' : SentMessage}

theorem chatInv_bothAsked (hbase : Base own peer (m :: pending))
    (hsame : SameKey (newest own.keys) (newest peer.keys)) (hown : rekeys own.queue = [m'])
    (hpeer : rekeys (pending ++ peer.queue) = []) (ha : Asks own x) (hm' : Request config own x m') (hb : Asks peer y)
    (hm : Request config peer y m) (draw : Bytes) :
    ChatInv mtSha1 config (executeAction mtSha1 config draw own m.action) peer pending := by
  rw [hm.action]
  show ChatInv mtSha1 config (executeRequestKey mtSha1 config draw y _ own) peer pending
  by_cases hlt : y.toInt < x.toInt
  · rw [executeRequestKey_wins ha hlt]
    refine ChatInv.of_sent (hbase.enqueueSame hsame _) (not_commits_of_request hm.action)
      (queue_enqueue hbase.ownKeys _) rfl ?_
    rw [hown, hpeer]
    exact .quiet hsame (.crossed (ha.frame (.enqueue _ _)) (hm'.frame (.enqueue _ _)) hb hlt rfl)
  · rw [executeRequestKey_yields ha (Int.not_lt.mp hlt)]
    obtain ⟨answer, hbase', hq, hanswer, hanswers, hkeys, hspec⟩ :=
      acceptRequest_spec (x := y) hbase hsame ha.config hm.safe hb.nonzero draw
    refine ChatInv.of_sent hbase' (not_commits_of_request hm.action) hq (isRekeyAction_of_isAnswer hanswer) ?_
    rw [hown, hpeer]
    refine .quietSwap (by rw [hkeys]; exact hsame) (.answeredBehind hb hanswers (hspec rfl ?_) hm'.action hm'.safe
      (Int.not_lt.mp hlt))
    intro record hrec
    exact Nat.lt_of_le_of_lt (hm.first record hrec) (hbase.taken m mem_cons_self)

theorem Stale.not_commits (h : Stale x stale) : ∀ c ∈ stale, ∀ keyId, ¬Commits c keyId := by
  intro c hc
  obtain ⟨other, -, haborts⟩ := h c hc
  exact not_commits_of_aborts haborts

theorem held_of_rekeys (hbase : Base own peer pending) (hnone : ∀ c ∈ rekeys own.queue, ∀ keyId, ¬Commits c keyId) :
    ∀ c ∈ own.queue, Held peer.keys c := by
  intro c hc
  apply hbase.outgoing.held _ hc
  intro c' hc' keyId hcommits
  exact hnone c' (hcommits.mem_rekeys hc') keyId hcommits

/-- **A key is committed.** -/
theorem commitNewKey_spec (hbase : Base own peer pending) (hsame : SameKey (newest own.keys) (newest peer.keys))
    (hsingle : own.keys = [newest own.keys]) (hfirst : (newest own.keys).firstSeqOut < own.nextSeqOut)
    (hnone : ∀ c ∈ rekeys own.queue, ∀ keyId, ¬Commits c keyId) (key : Bytes) (keyId : BitVec 64) :
    Base (commitNewKey x key keyId own) peer pending ∧ rekeys (commitNewKey x key keyId own).queue =
        rekeys own.queue ++ [own.newMessage (some (.commitKey x keyId))] ∧
      Successor (newest peer.keys) key keyId (newest (commitNewKey x key keyId own).keys) ∧
      (SameKey (newest (commitNewKey x key keyId own).keys) (newest peer.keys) ∨
        (newest (commitNewKey x key keyId own).keys).firstSeqOut = own.nextSeqOut ∧
          (newest (commitNewKey x key keyId own).keys).keyId = keyId ∧
          ∃ record ∈ (commitNewKey x key keyId own).keys, SameKey record (newest peer.keys)) := by
  have hq := queue_enqueue hbase.ownKeys (some (.commitKey x keyId))
  have hheld : ∀ c ∈ (own.enqueue (some (.commitKey x keyId))).queue, Held peer.keys c := by
    intro c hc
    rw [hq] at hc
    rcases mem_append.mp hc with hc | hc
    · exact held_of_rekeys hbase hnone c hc
    · rw [mem_singleton.mp hc]
      exact held_newest hbase.peerKeys ((under_newMessage own _).of_sameKey hsame)
  obtain ⟨hstor, hqueue', hsucc, hnewest⟩ := (hbase.enqueueSame hsame (some (.commitKey x keyId))).storeKey hsingle
    key keyId hfirst hbase.peer_seqIn_le (Nat.le_refl _) (Nat.le_succ _) hheld
  unfold commitNewKey
  dsimp only
  generalize (own.enqueue (some (.commitKey x keyId))).storeKey key keyId own.nextSeqOut = stored
    at hstor hqueue' hsucc hnewest ⊢
  have hcovered : Covered stored peer stored.queue (stored.newMessage none) := by
    rcases hnewest with hsame' | ⟨-, hid, -⟩
    · have hsame'' : SameKey (newest stored.keys) (newest peer.keys) := by
        rw [hsame']
        exact hsame
      exact .inl (held_newest hbase.peerKeys ((under_newMessage stored none).of_sameKey hsame''))
    · refine .inr ⟨under_newMessage stored none, own.newMessage (some (.commitKey x keyId)), ?_, x, ?_⟩
      · rw [hqueue', hq]
        exact mem_append_right _ mem_cons_self
      · show some (ServiceAction.commitKey x keyId) = some (.commitKey x (newest stored.keys).keyId)
        rw [hid]
  refine ⟨(hstor.enqueue hcovered).withRekey _ _ _ _ _ _, ?_, hsucc.of_sameKey hsame, ?_⟩
  · show rekeys (stored.enqueue none).queue = _
    rw [queue_enqueue hstor.ownKeys, rekeys_snoc_other rfl, hqueue', hq, rekeys_snoc rfl]
  · rcases hnewest with hsame' | ⟨hfirst', hid, hm⟩
    · left
      show SameKey (newest stored.keys) _
      rw [hsame']
      exact hsame
    · exact .inr ⟨hfirst', hid, newest own.keys, hm, hsame⟩

theorem chatInv_unchanged (hbase : Base own peer (m :: pending)) (hm : ∀ keyId, ¬Commits m keyId)
    (hph : Phase mtSha1 config own peer (rekeys own.queue) (rekeys (pending ++ peer.queue))) (draw : Bytes)
    (hsame : executeAction mtSha1 config draw own m.action = own) :
    ChatInv mtSha1 config (executeAction mtSha1 config draw own m.action) peer pending := by
  rw [hsame]
  exact ⟨hbase.pop (.inl hm), hph⟩

theorem executeAction_stale (hm : Aborts y m) (hy : own.currentRekeyExchangeId ≠ y) (draw : Bytes) :
    executeAction mtSha1 config draw own m.action = own := by
  rw [show m.action = some (.abortKey y) from hm]
  exact markHandshakeAsAborted_other hy

theorem executeAction_unasked (hm : IsAnswer m) (h : own.currentRekeyIsInitiatedByLocalClient = false) (draw : Bytes) :
    executeAction mtSha1 config draw own m.action = own := by
  obtain ⟨_, _, _, hact⟩ := hm
  rw [hact]
  show executeAcceptKey mtSha1 config _ _ _ own = own
  unfold executeAcceptKey
  rw [if_neg]
  rintro ⟨-, hinitiated⟩
  rw [h] at hinitiated
  cases hinitiated

section
variable (hbase : Base own peer (m :: pending)) (hsame : SameKey (newest own.keys) (newest peer.keys))
include hbase hsame

theorem chatInv_answered (hpeer : rekeys (pending ++ peer.queue) = []) (ha : Asks own x) (hb : Answers peer x)
    (hm : Answer mtSha1 config own peer x m) (hstale : Stale x (rekeys own.queue)) (draw : Bytes) :
    ChatInv mtSha1 config (executeAction mtSha1 config draw own m.action) peer pending := by
  obtain ⟨b, hact, hkey⟩ := hm.action
  have hexchange := hb.exchange
  subst hexchange
  have hcommutes : padKey (mtExp (gPower config b) own.currentRekeyNumber config.p) = peer.currentRekeyKey := by
    rw [hkey, gPower, gPower, mtExp_comm]
  have hdisposed := hbase.disposed m mem_cons_self
  have hasker := hm.askerFirst _ hbase.ownKeys.newest_mem
  have hsingle : own.keys = [newest own.keys] := hdisposed.resolve_left (Nat.not_le.mpr hasker)
  have hcounter : m.seqIn ≤ own.nextSeqOut :=
    Nat.le_trans (hbase.incoming.counters m mem_cons_self) hbase.peer_seqIn_le
  rw [hact]
  show ChatInv mtSha1 config (executeAcceptKey mtSha1 config _ _ _ own) peer pending
  unfold executeAcceptKey
  rw [if_pos ⟨ha.exchange, ha.initiated⟩, if_pos ha.config]
  split
  · -- an answer that is not safe
    rw [abortHandshake, markHandshakeAsAborted_same (by exact ha.exchange)]
    have hbase' := (hbase.enqueueSame hsame (some (.abortKey peer.currentRekeyExchangeId))).withRekey own.hasConfig false
      0 0 [] []
    have hq : (own.enqueue (some (.abortKey peer.currentRekeyExchangeId))).clearRekey.queue =
        own.queue ++ [own.newMessage (some (.abortKey peer.currentRekeyExchangeId))] := queue_enqueue hbase.ownKeys _
    refine ChatInv.of_sent hbase' (not_commits_of_isAnswer hm.isAnswer) hq rfl ?_
    rw [hpeer]
    exact .quiet hsame (.aborted hb hstale rfl (.inl ⟨rfl, idle_clearRekey _⟩))
  · dsimp only
    rw [hcommutes, ← hm.keyId, if_pos rfl]
    obtain ⟨hbase', hq, hsucc, hinstalled⟩ := commitNewKey_spec (x := peer.currentRekeyExchangeId) hbase hsame
      hsingle (Nat.lt_of_lt_of_le hasker hcounter) hstale.not_commits peer.currentRekeyKey peer.currentRekeyKeyId
    refine ⟨hbase'.pop (.inl (not_commits_of_isAnswer hm.isAnswer)), ?_⟩
    rw [hq, hpeer]
    refine .committed ⟨hb, hstale, rfl, ?_, .inl ⟨rfl, idle_clearRekey _⟩, hsucc, hinstalled⟩
    intro record hrec
    exact Nat.lt_of_le_of_lt (hm.answererFirst record hrec) (hbase.taken m mem_cons_self)

theorem chatInv_clear (hown : rekeys own.queue = []) (hm : Aborts x m) (hx : own.currentRekeyExchangeId = x)
    (hpeer : Ready config peer (rekeys (pending ++ peer.queue))) (draw : Bytes) :
    ChatInv mtSha1 config (executeAction mtSha1 config draw own m.action) peer pending := by
  rw [show m.action = some (.abortKey x) from hm]
  show ChatInv mtSha1 config (markHandshakeAsAborted x own) peer pending
  rw [markHandshakeAsAborted_same hx]
  refine ⟨(hbase.withRekey own.hasConfig false 0 0 [] []).pop (.inl (not_commits_of_aborts hm)), ?_⟩
  rw [show rekeys own.clearRekey.queue = [] from hown]
  exact .quietSwap hsame (.ready (idle_clearRekey own) hpeer)

/-- **The client that has asked** executes a message. -/
theorem Quiet.execute (h : Quiet mtSha1 config own peer ms (m :: ms')) (hown : rekeys own.queue = ms)
    (hpeer : rekeys (pending ++ peer.queue) = ms') (draw : Bytes) :
    ChatInv mtSha1 config (executeAction mtSha1 config draw own m.action) peer pending := by
  cases h with
  | refused ha hm hb =>
    rw [← hpeer] at hb
    exact chatInv_clear hbase hsame hown hm ha.exchange hb draw
  | bothAsked ha hm hb hm' => exact chatInv_bothAsked hbase hsame hown hpeer ha hm hb hm' draw
  | answered ha hb hm hstale =>
    rw [← hown] at hstale
    exact chatInv_answered hbase hsame hpeer ha hb hm hstale draw
  | @answeredBehind x y gA m' _ ha hb hm hm' hsafe hle =>
    rw [hm']
    show ChatInv mtSha1 config (executeRequestKey mtSha1 config draw y gA own) peer pending
    by_cases hlt : y.toInt < x.toInt
    · rw [executeRequestKey_wins ha hlt]
      refine ChatInv.of_sent (hbase.enqueueSame hsame _) (not_commits_of_request hm')
        (queue_enqueue hbase.ownKeys _) rfl ?_
      rw [hown, hpeer]
      refine .quiet hsame (.answered (ha.frame (.enqueue _ _)) hb (hm.frame (.enqueue _ _) (.refl _)) ?_)
      intro m'' hm''
      rw [mem_singleton.mp hm'']
      exact ⟨y, fun heq => by rw [heq] at hlt; exact Int.lt_irrefl _ hlt, rfl⟩
    · have hxy : y = x := BitVec.eq_of_toInt_eq (Int.le_antisymm hle (Int.not_lt.mp hlt))
      rw [executeRequestKey_yields ha (Int.not_lt.mp hlt)]
      obtain ⟨answer, hbase', hq, hanswer, hanswers, hkeys, -⟩ :=
        acceptRequest_spec (x := y) hbase hsame ha.config hsafe (hxy ▸ ha.nonzero) draw
      refine ChatInv.of_sent hbase' (not_commits_of_request hm') hq (isRekeyAction_of_isAnswer hanswer) ?_
      rw [hown, hpeer]
      refine .quiet (by rw [hkeys]; exact hsame) (.dead hanswers hb ?_ ?_)
      · intro m'' hm''
        rw [mem_singleton.mp hm'']
        exact hanswer
      · intro m'' hm''
        rw [mem_singleton.mp hm'']
        exact hm.isAnswer
  | dead ha hb hms hms' =>
    have hanswer := hms' m mem_cons_self
    apply chatInv_unchanged hbase (not_commits_of_isAnswer hanswer) _ draw (executeAction_unasked hanswer ha.initiated
      draw)
    rw [hown, hpeer]
    exact .quiet hsame (.dead ha hb hms fun m' hm' => hms' m' (mem_cons_of_mem _ hm'))

theorem chatInv_asked (hown : rekeys own.queue = []) (hpeer : rekeys (pending ++ peer.queue) = []) (hidle : Idle own)
    (ha : Asks peer x) (hm : Request config peer x m) (draw : Bytes) :
    ChatInv mtSha1 config (executeAction mtSha1 config draw own m.action) peer pending := by
  rw [hm.action]
  show ChatInv mtSha1 config (executeRequestKey mtSha1 config draw x _ own) peer pending
  rw [executeRequestKey_idle hidle]
  cases hcfg : own.hasConfig with
  | true =>
    obtain ⟨answer, hbase', hq, hanswer, hanswers, hkeys, hspec⟩ :=
      acceptRequest_spec (x := x) hbase hsame hcfg hm.safe ha.nonzero draw
    refine ChatInv.of_sent hbase' (not_commits_of_request hm.action) hq (isRekeyAction_of_isAnswer hanswer) ?_
    rw [hown, hpeer]
    refine .quietSwap (by rw [hkeys]; exact hsame) (.answered ha hanswers (hspec rfl ?_) (by simp [Stale]))
    intro record hrec
    exact Nat.lt_of_le_of_lt (hm.first record hrec) (hbase.taken m mem_cons_self)
  | false =>
    unfold acceptRequest
    rw [if_neg (by simp [hcfg])]
    refine ChatInv.of_sent (hbase.enqueueSame hsame _) (not_commits_of_request hm.action)
      (queue_enqueue hbase.ownKeys _) rfl ?_
    rw [hown, hpeer]
    exact .quietSwap hsame (.refused ha rfl (.inl ⟨rfl, hidle.frame (.enqueue _ _)⟩))

theorem chatInv_crossed (hown : rekeys own.queue = []) (hpeer : rekeys (pending ++ peer.queue) = [m'])
    (ha : Asks peer x) (hm : Request config peer x m) (hb : Asks own y) (hlt : y.toInt < x.toInt) (hm' : Aborts y m')
    (draw : Bytes) : ChatInv mtSha1 config (executeAction mtSha1 config draw own m.action) peer pending := by
  rw [hm.action]
  show ChatInv mtSha1 config (executeRequestKey mtSha1 config draw x _ own) peer pending
  rw [executeRequestKey_yields hb (Int.le_of_lt hlt)]
  obtain ⟨answer, hbase', hq, hanswer, hanswers, hkeys, hspec⟩ :=
    acceptRequest_spec (x := x) hbase hsame hb.config hm.safe ha.nonzero draw
  refine ChatInv.of_sent hbase' (not_commits_of_request hm.action) hq (isRekeyAction_of_isAnswer hanswer) ?_
  rw [hown, hpeer]
  refine .quietSwap (by rw [hkeys]; exact hsame) (.answered ha hanswers (hspec rfl ?_) ?_)
  · intro record hrec
    exact Nat.lt_of_le_of_lt (hm.first record hrec) (hbase.taken m mem_cons_self)
  · intro m'' hm''
    rw [mem_singleton.mp hm'']
    exact ⟨y, fun heq => by rw [heq] at hlt; exact Int.lt_irrefl _ hlt, hm'⟩

/-- **The client that is asked** executes a message. -/
theorem Quiet.executeSwap {all : List SentMessage} (h : Quiet mtSha1 config peer own all ms) (hall : all = m :: ms')
    (hown : rekeys own.queue = ms) (hpeer : rekeys (pending ++ peer.queue) = ms') (draw : Bytes) :
    ChatInv mtSha1 config (executeAction mtSha1 config draw own m.action) peer pending := by
  cases h with
  | ready hb ha =>
    rcases ha with ⟨rfl, -⟩ | ⟨x, m', rfl, hasks, hreq⟩
    · cases hall
    · obtain ⟨rfl, rfl⟩ := List.cons.inj hall
      exact chatInv_asked hbase hsame hown hpeer hb hasks hreq draw
  | refused ha hm hb => cases hall
  | bothAsked ha hm hb hm' =>
    obtain ⟨rfl, rfl⟩ := List.cons.inj hall
    exact chatInv_bothAsked hbase hsame hown hpeer hb hm' ha hm draw
  | crossed ha hm hb hlt hm' =>
    obtain ⟨rfl, rfl⟩ := List.cons.inj hall
    exact chatInv_crossed hbase hsame hown hpeer ha hm hb hlt hm' draw
  | answered ha hb hm hstale =>
    obtain ⟨other, hother, haborts⟩ := hstale m (hall ▸ mem_cons_self)
    apply chatInv_unchanged hbase (not_commits_of_aborts haborts) _ draw
      (executeAction_stale haborts (by rw [hb.exchange]; exact hother.symm) draw)
    rw [hown, hpeer]
    refine .quietSwap hsame (.answered ha hb hm fun m' hm' => hstale m' ?_)
    rw [hall]
    exact mem_cons_of_mem _ hm'
  | answeredBehind ha hb hm hm' hsafe hle => cases hall
  | @aborted x m' stale rest hb hstale hm ha =>
    cases stale with
    | nil =>
      obtain ⟨rfl, rfl⟩ := List.cons.inj hall
      rw [← hpeer] at ha
      exact chatInv_clear hbase hsame hown hm hb.exchange ha draw
    | cons first stale =>
      obtain ⟨rfl, rfl⟩ := List.cons.inj hall
      obtain ⟨other, hother, haborts⟩ := hstale first mem_cons_self
      apply chatInv_unchanged hbase (not_commits_of_aborts haborts) _ draw
        (executeAction_stale haborts (by rw [hb.exchange]; exact hother.symm) draw)
      rw [hown, hpeer]
      exact .quietSwap hsame (.aborted hb (fun m'' hm'' => hstale m'' (mem_cons_of_mem _ hm'')) hm ha)
  | dead ha hb hms hms' =>
    have hanswer := hms m (hall ▸ mem_cons_self)
    apply chatInv_unchanged hbase (not_commits_of_isAnswer hanswer) _ draw (executeAction_unasked hanswer hb.initiated
      draw)
    rw [hown, hpeer]
    refine .quietSwap hsame (.dead ha hb (fun m' hm' => hms m' ?_) hms')
    rw [hall]
    exact mem_cons_of_mem _ hm'

end

/-- **The other client has committed the key.** -/
theorem chatInv_commit (hbase : Base own peer (m :: pending)) (hown : rekeys own.queue = [])
    (h : Committed config peer own m [] (rekeys (pending ++ peer.queue))) (draw : Bytes) :
    ChatInv mtSha1 config (executeAction mtSha1 config draw own m.action) peer pending := by
  have hfirst := h.first _ hbase.ownKeys.newest_mem
  have hsingle : own.keys = [newest own.keys] :=
    (hbase.disposed m mem_cons_self).resolve_left (Nat.not_le.mpr hfirst)
  have hcounter : m.seqIn ≤ own.nextSeqOut :=
    Nat.le_trans (hbase.incoming.counters m mem_cons_self) hbase.peer_seqIn_le
  have hheld := held_of_rekeys hbase (by rw [hown]; simp)
  obtain ⟨hstor, hq, hsucc, -⟩ := hbase.storeKey hsingle own.currentRekeyKey own.currentRekeyKeyId
    (Nat.lt_of_lt_of_le hfirst hcounter) hbase.peer_seqIn_le (Nat.le_succ _) (Nat.le_refl _) hheld
  have hsame := hsucc.sameKey h.successor
  rw [h.action]
  show ChatInv mtSha1 config (executeCommitKey _ _ own) peer pending
  unfold executeCommitKey
  rw [if_pos ⟨rfl, h.answers.initiated⟩, if_pos rfl]
  dsimp only
  generalize own.storeKey own.currentRekeyKey own.currentRekeyKeyId own.nextSeqOut = stored
    at hstor hq hsame ⊢
  refine ⟨((hstor.enqueueSame hsame none).withRekey _ _ _ _ _ _).pop (.inr hsame.symm), ?_⟩
  have hrekeys : rekeys (stored.enqueue none).clearRekey.queue = [] := by
    show rekeys (stored.enqueue none).queue = []
    rw [queue_enqueue hstor.ownKeys, rekeys_snoc_other rfl, hq, hown]
  rw [hrekeys]
  exact .quietSwap hsame (.ready (idle_clearRekey _) h.ready)

theorem Committed.executeSwap (h : Committed config peer own m' stale ms) (hall : stale ++ m' :: ms = m :: ms')
    (hbase : Base own peer (m :: pending)) (hown : rekeys own.queue = [])
    (hpeer : rekeys (pending ++ peer.queue) = ms') (draw : Bytes) :
    ChatInv mtSha1 config (executeAction mtSha1 config draw own m.action) peer pending := by
  cases stale with
  | nil =>
    obtain ⟨rfl, rfl⟩ := List.cons.inj hall
    rw [← hpeer] at h
    exact chatInv_commit hbase hown h draw
  | cons first stale =>
    obtain ⟨rfl, rfl⟩ := List.cons.inj hall
    obtain ⟨other, hother, haborts⟩ := h.stale first mem_cons_self
    apply chatInv_unchanged hbase (not_commits_of_aborts haborts) _ draw (executeAction_stale haborts hother.symm draw)
    rw [hown, hpeer]
    exact .committedSwap ⟨h.answers, fun m'' hm'' => h.stale m'' (mem_cons_of_mem _ hm''), h.action, h.first,
      h.ready, h.successor, h.installed⟩

/-- **A pending message is executed.** -/
theorem ChatInv.execute (h : ChatInv mtSha1 config own peer (m :: pending)) (draw : Bytes) :
    ChatInv mtSha1 config (executeAction mtSha1 config draw own m.action) peer pending := by
  obtain ⟨hbase, hph⟩ := h
  rw [cons_append] at hph
  cases hrekey : isRekeyAction m.action with
  | false =>
    rw [executeAction_other hrekey]
    rw [rekeys_cons_other hrekey] at hph
    refine ⟨hbase.pop (Or.inl ?_), hph⟩
    rintro keyId ⟨_, hact⟩
    rw [hact] at hrekey
    cases hrekey
  | true =>
    rw [rekeys_cons hrekey] at hph
    generalize hown : rekeys own.queue = ms at hph
    generalize hall : m :: rekeys (pending ++ peer.queue) = all at hph
    cases hph with
    | quiet hsame h =>
      subst hall
      exact h.execute hbase hsame hown rfl draw
    | quietSwap hsame h => exact h.executeSwap hbase hsame hall.symm hown rfl draw
    | committed h => cases hall
    | committedSwap h => exact h.executeSwap hall.symm hbase hown rfl draw

/-! ## Everything else that happens -/

section
variable (h : ChatInv mtSha1 config own peer [])
include h

/-- **A poll begins.** -/
theorem ChatInv.begin {batch rest : List SentMessage} (hsent : peer.sent = batch ++ rest) :
    ChatInv mtSha1 config { own with seqIn := own.seqIn + batch.length, keys := keysAfterBatch own.keys batch }
      { peer with sent := rest } batch := by
  obtain ⟨hbase, hph⟩ := h
  have hq := queue_of_sent hsent
  have hcounters := hbase.incoming.counters_sent hsent
  refine ⟨hbase.begin hsent, ?_⟩
  rw [hbase.outgoing.queue_begin hbase.ownKeys hcounters, ← hq]
  rw [nil_append] at hph
  have hown : Frame own { own with seqIn := own.seqIn + batch.length, keys := keysAfterBatch own.keys batch } :=
    ⟨rfl, rfl, rfl, rfl, rfl, id, fun _ => afterBatch_subset hbase.ownKeys batch, newest_afterBatch hbase.ownKeys batch⟩
  have hpeer : Frame peer { peer with sent := rest } := ⟨rfl, rfl, rfl, rfl, rfl, id, fun _ h => h, rfl⟩
  have hnewest : newest (keysAfterBatch own.keys batch) = newest own.keys := newest_afterBatch hbase.ownKeys batch
  generalize hms : rekeys own.queue = ms at hph
  generalize rekeys peer.queue = ms' at hph
  cases hph with
  | quiet hsame h => exact .quiet (by rw [hnewest]; exact hsame) (h.frame hown hpeer)
  | quietSwap hsame h => exact .quietSwap (by rw [hnewest]; exact hsame) (h.frame hpeer hown)
  | @committed m _ _ h =>
    refine .committed (h.frame hown hpeer ?_)
    rcases h.installed with hsame | ⟨hfirst, -, -⟩
    · exact .inl hsame
    · -- the other client has not seen `m`
      right
      have hm : m ∈ own.queue := by
        apply mem_of_mem_filter
        show m ∈ rekeys own.queue
        rw [hms]
        exact mem_append_right _ mem_cons_self
      have hseqOut := (hbase.outgoing.seqOut_bounds hm).1
      show keysAfterBatch own.keys batch = own.keys
      rw [keysAfterBatch_eq hbase.ownKeys, if_neg]
      intro hfired
      obtain ⟨m', hm', hmax⟩ := exists_maxSeqIn (Nat.lt_of_le_of_lt (Nat.zero_le _) hfired)
      have := hcounters m' hm'
      omega
  | committedSwap h => exact .committedSwap (h.frame hpeer hown (.inr rfl))

theorem ChatInv.covered (action : Option ServiceAction) : Covered own peer own.queue (own.newMessage action) := by
  obtain ⟨hbase, hph⟩ := h
  have hunder := under_newMessage own action
  generalize hms : rekeys own.queue = ms at hph
  generalize hms' : rekeys ([] ++ peer.queue) = ms' at hph
  cases hph with
  | quiet hsame h | quietSwap hsame h => exact .inl (held_newest hbase.peerKeys (hunder.of_sameKey hsame))
  | @committed m _ _ h =>
    rcases h.installed with hsame | ⟨-, hid, -⟩
    · exact .inl (held_newest hbase.peerKeys (hunder.of_sameKey hsame))
    · refine .inr ⟨hunder, m, ?_, peer.currentRekeyExchangeId, ?_⟩
      · apply mem_of_mem_filter
        show m ∈ rekeys own.queue
        rw [hms]
        exact mem_append_right _ mem_cons_self
      · rw [h.action, hunder.1, hid]
  | @committedSwap m _ _ h =>
    left
    rcases h.installed with hsame | ⟨hfirst, -, record, hrec, hsame⟩
    · exact held_newest hbase.peerKeys (hunder.of_sameKey hsame.symm)
    · refine ⟨record, hrec, hunder.of_sameKey hsame.symm, Or.inr ?_⟩
      have hm : m ∈ peer.queue := by
        apply mem_of_mem_filter
        show m ∈ rekeys ([] ++ peer.queue)
        rw [hms']
        exact mem_append_right _ mem_cons_self
      rw [hfirst]
      exact (hbase.incoming.seqOut_bounds hm).1

theorem ChatInv.enqueueMessage : ChatInv mtSha1 config (own.enqueue none) peer [] := by
  refine ⟨h.base.enqueue (h.covered none), ?_⟩
  rw [queue_enqueue h.base.ownKeys, rekeys_snoc_other rfl]
  exact h.phase.frame (.enqueue own none) (.refl peer) rfl rfl

theorem ChatInv.transmit : ChatInv mtSha1 config own.transmit peer [] := by
  refine ⟨h.base.transmit, ?_⟩
  rw [queue_transmit]
  unfold SecretClient.transmit
  split
  · exact h.phase
  · exact h.phase.frame ⟨rfl, rfl, rfl, rfl, rfl, id, fun _ h => h, rfl⟩ (.refl peer) rfl rfl

theorem ChatInv.setConfig : ChatInv mtSha1 config { own with hasConfig := true } peer [] :=
  ⟨h.base.withRekey true _ _ _ _ _,
    h.phase.frame ⟨rfl, rfl, rfl, rfl, rfl, fun _ => rfl, fun _ h => h, rfl⟩ (.refl peer) rfl rfl⟩

end

theorem Ready.of_idle (h : Ready config own ms) (hidle : Idle own) : ms = [] := by
  rcases h with ⟨hms, -⟩ | ⟨x, m, -, hasks, -⟩
  · exact hms
  · exact absurd hidle hasks.not_idle

theorem Phase.ask (h : Phase mtSha1 config own peer ms ms') (hidle : Idle own) (hkeys : own'.keys = own.keys)
    (hasks : Asks own' x) (hm : Request config own' x m) : Phase mtSha1 config own' peer (ms ++ [m]) ms' := by
  have hready : Ready config own' [m] := .inr ⟨x, m, rfl, hasks, hm⟩
  cases h with
  | quiet hsame h =>
    refine .quiet (by rw [hkeys]; exact hsame) ?_
    cases h with
    | ready hb ha =>
      rw [ha.of_idle hidle]
      exact .ready hb hready
    | refused ha hm hb | bothAsked ha hm hb hm' | crossed ha hm hb hlt hm' | answered ha hb hm hstale
    | answeredBehind ha hb hm hm' hsafe hle | dead ha hb hms hms' => exact absurd hidle ha.not_idle
    | aborted hb hstale hm ha =>
      rw [ha.of_idle hidle, append_assoc]
      exact .aborted hb hstale hm hready
  | quietSwap hsame h =>
    have hsame' : SameKey (newest own'.keys) (newest peer.keys) := by
      rw [hkeys]
      exact hsame
    cases h with
    | ready hb ha =>
      rcases ha with ⟨rfl, hpeer⟩ | ⟨y, m', rfl, hpeer, hm'⟩
      · exact .quiet hsame' (.ready hpeer hready)
      · exact .quietSwap hsame' (.bothAsked hpeer hm' hasks hm)
    | refused ha hm hb =>
      rw [hb.of_idle hidle]
      exact .quietSwap hsame' (.refused ha hm hready)
    | bothAsked ha hm hb hm' | crossed ha hm hb hlt hm' | answered ha hb hm hstale
    | answeredBehind ha hb hm hm' hsafe hle | aborted hb hstale hm ha | dead ha hb hms hms' =>
      exact absurd hidle hb.not_idle
  | @committed m' stale rest h =>
    have hrest := h.ready.of_idle hidle
    subst hrest
    rw [append_assoc]
    refine .committed ⟨h.answers, h.stale, h.action, h.first, hready, ?_, ?_⟩
    · rw [hkeys]
      exact h.successor
    · rw [hkeys]
      exact h.installed
  | committedSwap h => exact absurd hidle h.answers.not_idle

theorem ChatInv.maybeRekey (h : ChatInv mtSha1 config own peer []) (a : Bytes) (hx : x ≠ 0) :
    ChatInv mtSha1 config (maybeRekey config a x own) peer [] := by
  unfold Secret.maybeRekey
  split
  next hguard =>
      split
      · exact h
      next hsafe =>
          have hbase := (h.base.withRekey own.hasConfig true x own.currentRekeyKeyId a own.currentRekeyKey)
          refine ⟨hbase.enqueue (h.covered _), ?_⟩
          rw [queue_enqueue hbase.ownKeys, rekeys_snoc rfl]
          refine h.phase.ask hguard.2.2.1 rfl ⟨rfl, hx, rfl, hguard.2.2.2⟩ ⟨rfl, ?_, h.base.ownFirst⟩
          show mtCheckIsSafeGAOrB (gPower config a) config.p = true
          simpa using hsafe
  next => exact h

/-! ## Runs -/

theorem pollBatch_append (keys : List EncryptionKeyData) (count : Nat) (sent : List SentMessage) :
    sent = pollBatch keys count sent ++ sent.drop (pollBatch keys count sent).length := by
  have hprefix : pollBatch keys count sent <+: sent := (List.takeWhile_prefix _).trans (List.take_prefix count sent)
  obtain ⟨rest, hrest⟩ := hprefix
  generalize pollBatch keys count sent = batch at hrest ⊢
  rw [← hrest, drop_left]

theorem ChatInv.executeAll {draws : Nat → Bytes} (h : ChatInv mtSha1 config own peer pending) : ChatInv mtSha1 config
      (pending.foldl (fun c message => executeAction mtSha1 config (draws message.seqOut) c message.action) own) peer
      [] := by
  induction pending generalizing own with
  | nil => exact h
  | cons m pending ih => exact ih (h.execute _)

def ChatEvent.drawsNonzero : ChatEvent → Bool
  | .maybeRekey _ exchangeId => decide (exchangeId ≠ 0)
  | _ => true

variable {s : SecretChat}

theorem ChatInv.stepOwn (h : ChatInv mtSha1 config s.own s.peer []) {e : ChatEvent} (he : e.drawsNonzero = true) :
    ChatInv mtSha1 config (stepOwn mtSha1 config s e).own (stepOwn mtSha1 config s e).peer [] := by
  cases e with
  | maybeRekey a exchangeId => exact h.maybeRekey a (of_decide_eq_true he)
  | enqueueMessage => exact h.enqueueMessage
  | transmit => exact h.transmit
  | poll count draws => exact (h.begin (pollBatch_append s.own.keys count s.peer.sent)).executeAll
  | setCachedEncryptionConfig => exact h.setConfig

theorem ChatInv.run (h : ChatInv mtSha1 config s.own s.peer []) {events : List (Bool × ChatEvent)}
    (hevents : events.all (fun e => e.2.drawsNonzero) = true) :
    ChatInv mtSha1 config (runChat mtSha1 config s events).own (runChat mtSha1 config s events).peer [] := by
  induction events generalizing s with
  | nil => exact h
  | cons e events ih =>
    obtain ⟨he, hevents⟩ := Bool.and_eq_true_iff.mp hevents
    refine ih ?_ hevents
    unfold stepChat
    split
    · exact h.stepOwn he
    · exact (ChatInv.stepOwn (s := s.swap) h.swap he).swap

/-- Both clients have the same keys, and nothing is under way. -/
structure Starts (s : SecretChat) : Prop where
  keys : KeysOk s.own.keys
  same : s.peer.keys = s.own.keys
  first : ∀ record ∈ s.own.keys, record.firstSeqOut ≤ s.own.nextSeqOut ∧ record.firstSeqOut ≤ s.peer.nextSeqOut
  idle : Idle s.own ∧ Idle s.peer
  empty : s.own.queue = [] ∧ s.peer.queue = []
  counters : s.own.seqIn = s.peer.nextSeqOut ∧ s.peer.seqIn = s.own.nextSeqOut

theorem Flow.empty {sender receiver : SecretClient} (hq : sender.queue = [])
    (hcounter : receiver.seqIn = sender.nextSeqOut) : Flow sender receiver [] := by
  have hout : sender.outgoing = [] := by
    have := (append_eq_nil_iff.mp hq).2
    simpa using this
  refine ⟨?_, ?_, ?_, ?_, ?_, ?_⟩
  · rw [hq]
    rfl
  · rw [hq, hcounter]
    rfl
  · simp [hq]
  · simp [hq]
  · simp [hout]
  · intro before m after hsplit
    rw [hq] at hsplit
    simp at hsplit

theorem Starts.chatInv (h : Starts s) : ChatInv mtSha1 config s.own s.peer [] := by
  have hpeerKeys : KeysOk s.peer.keys := by
    rw [h.same]
    exact h.keys
  refine ⟨⟨h.keys, hpeerKeys, fun record hrec => (h.first record hrec).1, ?_, .empty h.empty.2 h.counters.1,
    .empty h.empty.1 h.counters.2, by simp, by simp⟩, ?_⟩
  · rw [h.same]
    exact fun record hrec => (h.first record hrec).2
  · rw [nil_append, h.empty.1, h.empty.2]
    refine .quiet ?_ (.ready h.idle.2 (.inl ⟨rfl, h.idle.1⟩))
    rw [h.same]
    exact SameKey.refl _

end

/-! ## Results -/

/-- The next message from `sender` was encrypted with a key that `receiver` has. -/
def ReadableInTurn (sender receiver : SecretClient) : Prop :=
  ∀ m rest, sender.sent = m :: rest → ∃ record ∈ receiver.keys,
    encryptionKeyForConversationId receiver.keys m.keyId = some record ∧ m.key = some record.key

/-- A key that a poll of `receiver` removes, and a message that is left after the poll and was encrypted with it. -/
structure Removed (sender receiver : SecretClient) (count : Nat) (record : EncryptionKeyData)
    (before : List SentMessage) (m : SentMessage) : Prop where
  stored : record ∈ receiver.keys
  removed : record ∉ keysAfterBatch receiver.keys (pollBatch receiver.keys count sender.sent)
  left : ∃ after, sender.queue.drop (pollBatch receiver.keys count sender.sent).length = before ++ m :: after
  under : Under record m

/-- A removed key is not needed: messages under it follow one that stores it again. -/
def RemovesUnneeded (sender receiver : SecretClient) : Prop :=
  ∀ count record before m, Removed sender receiver count record before m →
    ∃ c ∈ pollBatch receiver.keys count sender.sent ++ before, Commits c record.keyId

structure Agreement (s : SecretChat) : Prop where
  /-- The newest keys are equal when nobody waits and nothing of an exchange is under way. -/
  agreed : Idle s.own → Idle s.peer → rekeys s.own.queue = [] → rekeys s.peer.queue = [] →
    ∃ record record', s.own.keys.getLast? = some record ∧ s.peer.keys.getLast? = some record' ∧
      record.keyId = record'.keyId ∧ record.key = record'.key
  readable : ReadableInTurn s.own s.peer ∧ ReadableInTurn s.peer s.own
  unneeded : RemovesUnneeded s.own s.peer ∧ RemovesUnneeded s.peer s.own

section
variable {mtSha1 : Bytes → Block 20} {config : DhConfig} {own peer : SecretClient}

theorem ChatInv.sameKey (h : ChatInv mtSha1 config own peer []) (hown : Idle own) (hpeer : Idle peer) :
    SameKey (newest own.keys) (newest peer.keys) := by
  obtain ⟨-, hph⟩ := h
  generalize rekeys own.queue = ms at hph
  generalize rekeys ([] ++ peer.queue) = ms' at hph
  cases hph with
  | quiet hsame h | quietSwap hsame h => exact hsame
  | committed h => exact absurd hpeer h.answers.not_idle
  | committedSwap h => exact absurd hown h.answers.not_idle

theorem Base.held_of_sent (h : Base own peer []) {m : SentMessage} {rest : List SentMessage}
    (hsent : peer.sent = m :: rest) : Held own.keys m := by
  have hq : peer.queue = [] ++ m :: (rest ++ peer.outgoing.map (encryptAction peer.keys)) := by
    unfold SecretClient.queue
    rw [hsent]
    rfl
  rcases h.incoming.covered [] m _ hq with hheld | ⟨-, c, hc, -⟩
  · exact hheld
  · cases hc

theorem Base.readableInTurn (h : Base own peer []) : ReadableInTurn peer own :=
  fun _ _ hsent => (h.held_of_sent hsent).canDecrypt h.ownKeys

theorem Base.removesUnneeded (h : Base own peer []) : RemovesUnneeded peer own := by
  intro count record before m hrem
  obtain ⟨after, hleft⟩ := hrem.left
  have hsent := pollBatch_append own.keys count peer.sent
  have hgone := hrem.removed
  generalize pollBatch own.keys count peer.sent = batch at hsent hleft hgone ⊢
  have hq : peer.queue = (batch ++ before) ++ m :: after := by
    rw [append_assoc, ← hleft]
    unfold SecretClient.queue
    nth_rewrite 1 [hsent]
    rw [append_assoc]
    congr 1
    rw [hsent, append_assoc, drop_left, drop_left]
  rcases h.incoming.covered _ m after hq with hheld | ⟨-, c, hc, hcommits⟩
  · exfalso
    obtain ⟨other, hother, hunder, hnewest⟩ := hheld
    have hsame : other = record := h.ownKeys.eq_of_keyId hother hrem.stored (hunder.1.symm.trans hrem.under.1)
    rw [keysAfterBatch_eq h.ownKeys] at hgone
    split at hgone
    next hfired =>
        obtain ⟨m', hm', hmax⟩ := exists_maxSeqIn (Nat.lt_of_le_of_lt (Nat.zero_le _) hfired)
        have hsorted := h.incoming.sorted
        rw [nil_append, hq, append_assoc] at hsorted
        have hle := (pairwise_append.mp hsorted).2.2 m' hm' m (mem_append_right _ mem_cons_self)
        rcases hnewest with hnewest | hseqIn
        · rw [← hsame, hnewest] at hgone
          exact hgone mem_cons_self
        · omega
    next => exact hgone hrem.stored
  · refine ⟨c, hc, ?_⟩
    rw [← hrem.under.1]
    exact hcommits

end

/-- **Both clients agree on the key**, in every run. -/
theorem runChat_agreement (mtSha1 : Bytes → Block 20) (config : DhConfig) (s : SecretChat) (hs : Starts s)
    (events : List (Bool × ChatEvent)) (hevents : events.all (fun e => e.2.drawsNonzero) = true) :
    Agreement (runChat mtSha1 config s events) := by
  have hinv : ChatInv mtSha1 config (runChat mtSha1 config s events).own (runChat mtSha1 config s events).peer [] :=
    hs.chatInv.run hevents
  refine ⟨?_, ⟨hinv.swap.base.readableInTurn, hinv.base.readableInTurn⟩,
    ⟨hinv.swap.base.removesUnneeded, hinv.base.removesUnneeded⟩⟩
  intro hown hpeer _ _
  obtain ⟨hid, hkey⟩ := hinv.sameKey hown hpeer
  exact ⟨_, _, getLast?_eq_newest hinv.base.ownKeys.nonempty, getLast?_eq_newest hinv.base.peerKeys.nonempty, hid, hkey⟩

/-! ## A key that is made twice -/

def smallNumber (n : UInt8) : Bytes := List.replicate 255 0 ++ [n]

def smallKeySha1 (data : Bytes) : Block 20 :=
  if data = smallNumber 3 then
    #v[0xae, 0x70, 0x1b, 0x47, 0x83, 0x0e, 0x86, 0x8a, 0x79, 0x8b, 0x08, 0x4e, 0xf6, 0xaf, 0x00, 0x6b, 0xd0, 0xe5, 0x63,
      0x60]
  else
    #v[0x68, 0x3d, 0x16, 0x9c, 0x52, 0xd1, 0x59, 0xc1, 0xf4, 0xe5, 0xe1, 0x32, 0xf9, 0x55, 0xc2, 0x95, 0x5b, 0xf9, 0xe0,
      0x66]

def goodConfig : DhConfig := ⟨3, goodPrime0⟩

/-- A client with the first key of the chat, the eighty-first power. -/
def newClient : SecretClient where
  encryptedConversationId := 1
  keyFingerprint := rekeyFingerprint smallKeySha1 (smallNumber 81)
  hasConfig := true
  keys := [⟨rekeyFingerprint smallKeySha1 (smallNumber 81), smallNumber 81, 0⟩]
  currentRekeyExchangeId := 0
  currentRekeyIsInitiatedByLocalClient := false
  currentRekeyNumber := []
  currentRekeyKey := []
  currentRekeyKeyId := 0
  nextSeqOut := 0
  seqIn := 0
  outgoing := []
  sent := []

theorem starts_newClient : Starts ⟨newClient, newClient⟩ where
  keys := ⟨by simp [newClient], by decide +kernel, by simp [newClient], by simp [newClient]⟩
  same := rfl
  first := by decide +kernel
  idle := ⟨rfl, rfl⟩
  empty := ⟨rfl, rfl⟩
  counters := ⟨rfl, rfl⟩

/-- Two exchanges that the first client asks for. The second makes the first key of the chat again, and its commit is
under way. -/
def repeatedKeyRun : List (Bool × ChatEvent) :=
  [(true, .maybeRekey (smallNumber 1) 1), (true, .transmit), (false, .poll 1 fun _ => smallNumber 1), (false, .transmit),
    (true, .poll 1 fun _ => []), (true, .transmit), (true, .transmit), (false, .poll 1 fun _ => []),
    (false, .poll 1 fun _ => []), (true, .maybeRekey (smallNumber 2) 2), (true, .transmit),
    (false, .poll 1 fun _ => smallNumber 2), (false, .transmit), (false, .transmit), (true, .poll 2 fun _ => []),
    (true, .transmit), (true, .transmit)]

theorem repeatedKeyRun_agreement :
    ((runChat smallKeySha1 goodConfig ⟨newClient, newClient⟩ repeatedKeyRun).own.keys.map fun record => record.key) =
        [smallNumber 3, smallNumber 81] ∧
      Agreement (runChat smallKeySha1 goodConfig ⟨newClient, newClient⟩ repeatedKeyRun) :=
  ⟨by decide +kernel, runChat_agreement smallKeySha1 goodConfig ⟨newClient, newClient⟩ starts_newClient repeatedKeyRun
    (by decide +kernel)⟩

instance (record : EncryptionKeyData) (m : SentMessage) : Decidable (Under record m) :=
  inferInstanceAs (Decidable (_ ∧ _))

/-- **A key is removed** that a message which is left was encrypted with: its `commitKey` has not been executed. -/
theorem key_removed : Starts ⟨newClient, newClient⟩ ∧ repeatedKeyRun.all (fun e => e.2.drawsNonzero) = true ∧
    ∃ record before m, Removed (runChat smallKeySha1 goodConfig ⟨newClient, newClient⟩ repeatedKeyRun).own
      (runChat smallKeySha1 goodConfig ⟨newClient, newClient⟩ repeatedKeyRun).peer 1 record before m := by
  refine ⟨starts_newClient, by decide +kernel, ⟨rekeyFingerprint smallKeySha1 (smallNumber 81), smallNumber 81, 0⟩, [],
    ⟨⟨5, 3, rekeyFingerprint smallKeySha1 (smallNumber 81), none⟩, some (smallNumber 81)⟩, ?_, ?_, ⟨[], ?_⟩, ?_⟩
  · decide +kernel
  · decide +kernel
  · decide +kernel
  · decide +kernel

end TelegramClient.Secret
