import TelegramClient.Calls.KeyProvenance

/-!
# Both sides of a call agree on the key

A caller and a callee, each with its manager, and a server between them that may do anything.

* `CallPair`, `runPair` : two devices, and everything that happens to them in any order;
* `callKeys_agree` : **the keys of both sides are the same**.
-/

namespace TelegramClient.Calls

open MtProto Secret

/-! ## Two devices -/

structure CallPair where
  caller : TGCallManager
  callee : TGCallManager

section
variable (crypto : CallCrypto)

def stepPair (s : CallPair) (e : Bool × ManagerEvent) : CallPair :=
  if e.1 then { s with caller := stepManager crypto s.caller e.2 }
  else { s with callee := stepManager crypto s.callee e.2 }

def runPair (events : List (Bool × ManagerEvent)) : CallPair := events.foldl (stepPair crypto) ⟨.init, .init⟩

def eventsAt (side : Bool) (events : List (Bool × ManagerEvent)) : List ManagerEvent :=
  (events.filter fun e => e.1 == side).map Prod.snd

theorem runPair_eq (events : List (Bool × ManagerEvent)) :
    runPair crypto events = ⟨runManager crypto (eventsAt true events), runManager crypto (eventsAt false events)⟩ := by
  induction events using List.reverseRecOn with
  | nil => rfl
  | append_singleton events e ih =>
    obtain ⟨side, e⟩ := e
    have hrun : runPair crypto (events ++ [(side, e)]) = stepPair crypto (runPair crypto events) (side, e) := by
      simp [runPair]
    rw [hrun, ih]
    cases side <;> simp [stepPair, eventsAt, runManager]

theorem eventsAt_mono {before events : List (Bool × ManagerEvent)} (h : before <+: events) (side : Bool) :
    eventsAt side before <+: eventsAt side events := by
  obtain ⟨after, rfl⟩ := h
  simp [eventsAt]

/-! ## Runs -/

abbrev Any : AcceptedConfig → Bytes → Prop := fun _ _ => True

theorem valuesOk_any (c : TGCallContext) (given : Option Context) : ValuesOk crypto Any c given :=
  ⟨fun _ _ _ _ _ _ => trivial, fun _ _ _ _ _ => trivial⟩

theorem keyInv_run (events : List ManagerEvent) (i : Nat) : KeyInv crypto Any ((runManager crypto events).slots i) :=
  ((slots_invariant_all crypto (P := fun _ s => SlotOk s ∧ KeyInv crypto Any s)
    (fun _ => ⟨slotOk_init, keyInv_init crypto Any⟩)
    (fun i _ _ hadm h => ⟨h.1.step hadm, h.2.step i h.1 hadm fun c _ =>
      valuesOk_any crypto c _⟩) events).2 i).2

/-! ## Messages that reach the other side unaltered -/

/-- What has happened to a call of the caller, and of the callee. -/
def CallPair.callerHistory (s : CallPair) (i : Nat) : List CallItem := (s.caller.slots i).history

def CallPair.calleeHistory (s : CallPair) (j : Nat) : List CallItem := (s.callee.slots j).history

/-- The calls `i` and `j` are two sides of one call, with the parameters of the server, and each is given what the other
has sent. -/
structure Unaltered (s : CallPair) (i j : Nat) : Prop where
  outgoing : OutgoingCall (s.callerHistory i)
  config : ∀ config a config' b, draw (s.callerHistory i) = some (config, a) →
    draw (s.calleeHistory j) = some (config', b) → config = config'
  request : ∃ q peerId, IncomingCall (s.calleeHistory j) q ∧
    .sent (.requestCall peerId q.gAHash) ∈ s.callerHistory i
  accepted : ∀ u : AcceptedContext, .given (.accepted u) ∈ s.callerHistory i →
    ∃ callId accessHash, .sent (.acceptCall callId accessHash u.gB) ∈ s.calleeHistory j
  confirmed : ∀ u : ConfirmedContext, .given (.confirmed u) ∈ s.calleeHistory j →
    ∃ callId accessHash, .sent (.confirmCall callId accessHash u.gA u.keyFingerprint) ∈ s.callerHistory i

/-- The call is ongoing, with what it keeps and what it has told. -/
def OngoingCall (m : TGCallManager) (i : Nat) (o : OngoingContext) (connection : TGCallConnection) : Prop :=
  ∃ c data, m.callContexts i = some c ∧ c.context = some (.ongoing o) ∧ c.state = some data ∧ data.state = .ongoing ∧
    data.connection = some connection

def sharedKey (config : AcceptedConfig) (a b : Bytes) : Bytes :=
  beBytes 256 (config.g.toNat ^ (ofBe a * ofBe b) % ofBe config.p)

/-- The numbers of both sides, the key and the power of the caller. -/
structure Agreed (s : CallPair) (i j : Nat) (key gA : Bytes) (config : AcceptedConfig) (a b : Bytes) : Prop where
  caller : draw (s.callerHistory i) = some (config, a)
  callee : draw (s.calleeHistory j) = some (config, b)
  gA_eq : gA = gPower config.toDhConfig a
  key_eq : key = sharedKey config a b

variable {crypto} {events : List (Bool × ManagerEvent)} {i j : Nat}

theorem callerInv (events : List (Bool × ManagerEvent)) (i : Nat) :
    KeyInv crypto Any ((runPair crypto events).caller.slots i) := by
  rw [runPair_eq]
  exact keyInv_run crypto _ i

theorem calleeInv (events : List (Bool × ManagerEvent)) (j : Nat) :
    KeyInv crypto Any ((runPair crypto events).callee.slots j) := by
  rw [runPair_eq]
  exact keyInv_run crypto _ j

variable {key gA : Bytes}

theorem Unaltered.agreed_caller (h : Unaltered (runPair crypto events) i j)
    (hkey : KeyOf crypto Any ((runPair crypto events).callerHistory i) key gA) :
    ∃ config a b, Agreed (runPair crypto events) i j key gA config a b := by
  rcases hkey with ⟨config, a, gB, hkey⟩ | ⟨config, b, q, hkey⟩
  · obtain ⟨u, hu, rfl⟩ := hkey.received
    obtain ⟨callId, accessHash, hsent⟩ := h.accepted u hu
    obtain ⟨config', b, hdraw, hgB⟩ := (calleeInv events j).sent _ hsent
    obtain rfl := h.config config a config' b hkey.drawn hdraw
    refine ⟨config, a, b, hkey.drawn, hdraw, hkey.gA_eq, ?_⟩
    rw [hkey.key_eq, hgB, config.outgoingKey_gPower, sharedKey]
  · exact absurd h.outgoing hkey.incoming.not_outgoing

theorem Unaltered.agreed_callee (h : Unaltered (runPair crypto events) i j)
    (hkey : KeyOf crypto Any ((runPair crypto events).calleeHistory j) key gA) :
    ∃ config a b, Agreed (runPair crypto events) i j key gA config a b := by
  rcases hkey with ⟨config, b, gB, hkey⟩ | ⟨config, b, q, hkey⟩
  · obtain ⟨q, peerId, hin, -⟩ := h.request
    exact absurd hkey.outgoing hin.not_outgoing
  · obtain ⟨u, hu, rfl, -⟩ := hkey.received
    obtain ⟨callId, accessHash, hsent⟩ := h.confirmed u hu
    obtain ⟨config', a, hdraw, hgA⟩ := (callerInv events i).sent _ hsent
    obtain rfl := h.config config' a config b hdraw hkey.drawn
    refine ⟨config', a, b, hdraw, hkey.drawn, hgA, ?_⟩
    rw [hkey.key_eq, hgA, gPower, mtExp_comm, ← gPower, config'.outgoingKey_gPower, sharedKey]

theorem Agreed.unique {s : CallPair} {key' gA' a a' b b' : Bytes} {config config' : AcceptedConfig}
    (h : Agreed s i j key gA config a b) (h' : Agreed s i j key' gA' config' a' b') : key = key' ∧ gA = gA' := by
  obtain ⟨rfl, rfl⟩ : config = config' ∧ a = a' := by simpa [h.caller] using h'.caller
  obtain rfl : b = b' := by simpa [h.callee] using h'.callee
  exact ⟨h.key_eq.trans h'.key_eq.symm, h.gA_eq.trans h'.gA_eq.symm⟩

theorem KeyOf.of_prefix {h h' : List CallItem} (hpre : h <+: h') (hkey : KeyOf crypto Any h key gA) :
    KeyOf crypto Any h' key gA := by
  obtain ⟨items, rfl⟩ := hpre
  exact hkey.append crypto Any items

theorem OngoingCall.keyOf {before : List ManagerEvent} {o : OngoingContext} {connection : TGCallConnection}
    (h : OngoingCall (runManager crypto before) i o connection) {events : List ManagerEvent}
    (hpre : before <+: events) : o.keyFingerprint = keyFingerprint crypto o.key ∧
      (∃ gA, KeyOf crypto Any ((runManager crypto events).slots i).history o.key gA) ∧
      ∃ gA, KeyOf crypto Any ((runManager crypto events).slots i).history connection.key gA ∧
        connection.keyHash = visKeyHash crypto connection.key gA := by
  obtain ⟨c, data, hc, hctx, hstate, hongoing, hconn⟩ := h
  have hhist := history_grows crypto hpre i
  have hinv := keyInv_run crypto before i
  obtain ⟨hfp, gA, hkey⟩ := hinv.context c hc _ hctx
  have htold := ((slotOk_run crypto before).2 i).told c hc data hstate
  obtain ⟨connection', gA', hconnection', hkey', hhash⟩ := hinv.reported data htold hongoing
  obtain rfl : connection' = connection := by simpa [hconn] using hconnection'.symm
  exact ⟨hfp, ⟨gA, hkey.of_prefix hhist⟩, gA', hkey'.of_prefix hhist, hhash⟩

variable (crypto)

/-- **Both sides of a call have the same key.** If the messages reach both unaltered, a call that is ongoing at both, at
whatever time, has at both the key `g ^ (a * b) mod p` of 256 bytes, its fingerprint and the hash of it with `g ^ a`.
Whatever the server sends, a callee is told of a key only after it has been given a value whose hash the first request of
the call holds and the fingerprint of the key that it makes of the value. -/
theorem callKeys_agree :
    (∀ (events before before' : List (Bool × ManagerEvent)) (i j : Nat) (o o' : OngoingContext)
      (connection connection' : TGCallConnection), before <+: events → before' <+: events →
      Unaltered (runPair crypto events) i j → OngoingCall (runPair crypto before).caller i o connection →
      OngoingCall (runPair crypto before').callee j o' connection' →
      ∃ config a b, draw ((runPair crypto events).callerHistory i) = some (config, a) ∧
        draw ((runPair crypto events).calleeHistory j) = some (config, b) ∧
        o.key = sharedKey config a b ∧ o'.key = o.key ∧ connection.key = o.key ∧ connection'.key = o.key ∧
        o.key.length = 256 ∧ o'.keyFingerprint = o.keyFingerprint ∧
        connection.keyHash = visKeyHash crypto o.key (gPower config.toDhConfig a) ∧
        connection'.keyHash = connection.keyHash) ∧
    (∀ (events : List ManagerEvent) (j : Nat) (data : TGCallStateData),
      .reported data ∈ ((runManager crypto events).slots j).history → data.state = .ongoing →
      ¬ OutgoingCall ((runManager crypto events).slots j).history →
      ∃ q connection config b callId accessHash, ∃ u : ConfirmedContext,
        IncomingCall ((runManager crypto events).slots j).history q ∧ data.connection = some connection ∧
        draw ((runManager crypto events).slots j).history = some (config, b) ∧
        .sent (.acceptCall callId accessHash (gPower config.toDhConfig b)) ∈
          ((runManager crypto events).slots j).history ∧
        .given (.confirmed u) ∈ ((runManager crypto events).slots j).history ∧ u.callId = q.callId ∧
        (crypto.mtSha256 u.gA).toList = q.gAHash ∧ connection.key = outgoingKey (mtExp u.gA b config.p) ∧
        u.keyFingerprint = keyFingerprint crypto connection.key ∧
        connection.keyHash = visKeyHash crypto connection.key u.gA) := by
  constructor
  · intro events before before' i j o o' connection connection' hbefore hbefore' h ho ho'
    rw [runPair_eq] at ho ho'
    obtain ⟨hfp, ⟨gA, hkey⟩, gA₁, hkey₁, hhash⟩ := ho.keyOf (eventsAt_mono hbefore true)
    obtain ⟨hfp', ⟨gA', hkey'⟩, gA₁', hkey₁', hhash'⟩ := ho'.keyOf (eventsAt_mono hbefore' false)
    have hcaller : (runPair crypto events).callerHistory i =
        ((runManager crypto (eventsAt true events)).slots i).history := by rw [runPair_eq]; rfl
    have hcallee : (runPair crypto events).calleeHistory j =
        ((runManager crypto (eventsAt false events)).slots j).history := by rw [runPair_eq]; rfl
    rw [← hcaller] at hkey hkey₁
    rw [← hcallee] at hkey' hkey₁'
    obtain ⟨config, a, b, hagreed⟩ := h.agreed_caller hkey
    obtain ⟨_, _, _, hagreed₁⟩ := h.agreed_caller hkey₁
    obtain ⟨_, _, _, hagreed'⟩ := h.agreed_callee hkey'
    obtain ⟨_, _, _, hagreed₁'⟩ := h.agreed_callee hkey₁'
    obtain ⟨hk₁, hg₁⟩ := hagreed₁.unique hagreed
    obtain ⟨hk', -⟩ := hagreed'.unique hagreed
    obtain ⟨hk₁', hg₁'⟩ := hagreed₁'.unique hagreed
    refine ⟨config, a, b, hagreed.caller, hagreed.callee, hagreed.key_eq, hk', hk₁, hk₁', ?_, ?_, ?_, ?_⟩
    · rw [hagreed.key_eq, sharedKey, length_beBytes]
    · rw [hfp, hfp', hk']
    · rw [hhash, hk₁, hg₁, hagreed.gA_eq]
    · rw [hhash, hhash', hk₁, hk₁', hg₁, hg₁']
  · intro events j data hreported hongoing hnot
    obtain ⟨connection, gA, hconnection, hkey, hhash⟩ := (keyInv_run crypto events j).reported data hreported hongoing
    rcases hkey with ⟨config, a, gB, hkey⟩ | ⟨config, b, q, hkey⟩
    · exact absurd hkey.outgoing hnot
    · obtain ⟨callId, accessHash, hsent⟩ := hkey.sent
      obtain ⟨u, hu, rfl, hid, hfingerprint⟩ := hkey.received
      exact ⟨q, connection, config, b, callId, accessHash, u, hkey.incoming, hconnection, hkey.drawn, hsent, hu, hid,
        hkey.commitment, hkey.key_eq, hfingerprint, hhash⟩

end

/-! ## A call between two devices -/

def zeroCallCrypto : CallCrypto := ⟨fun _ => Vector.replicate 20 0, fun _ => Vector.replicate 32 0⟩

/-- The prime that is known to be safe, and `g = 4`. -/
def goodConfig : AcceptedConfig where
  g := 4
  p := goodPrime0
  ok := ⟨by decide, by decide +kernel, by decide +kernel, by decide +kernel⟩

def drawOf (b : UInt8) : Block 256 := (Vector.replicate 256 0).set 255 b

def callInfo : CallInfo := ⟨5, 6, 0, 1, 2⟩

/-- A call from its request until both sides have the key, made of the numbers 2 and 3. -/
def wholeCall : List (Bool × ManagerEvent) :=
  [(true, .requestCall 2 false false), (true, .call 0 (.configured goodConfig (drawOf 2))),
   (true, .call 0 (.answered (.phoneCallWaiting callInfo 0))),
   (false, .update (.phoneCallRequested callInfo (List.replicate 32 0)) none false),
   (false, .call 0 (.configured goodConfig (drawOf 3))), (false, .call 0 (.answered .phoneCallEmpty)),
   (false, .call 0 .acceptCall), (false, .call 0 (.answered (.phoneCallWaiting callInfo 0))),
   (true, .update (.phoneCallAccepted callInfo [64]) (some 0) false),
   (true, .call 0 (.answered (.phoneCall callInfo [64] 0 ⟨none, []⟩))),
   (false, .update (.phoneCall callInfo [16] 0 ⟨none, []⟩) (some 0) false)]

def wholeOngoing : OngoingContext :=
  { callInfo with key := beBytes 256 4096, keyFingerprint := 0, connections := ⟨none, []⟩ }

def wholeConnection : TGCallConnection := ⟨beBytes 256 4096, List.replicate 32 0, ⟨none, []⟩⟩

def givesOnly (gB gA : Bytes) : CallItem → Bool
  | .given (.accepted u) => u.gB == gB
  | .given (.confirmed u) => u.gA == gA && u.keyFingerprint == 0
  | _ => true

theorem wholeCall_unaltered : Unaltered (runPair zeroCallCrypto wholeCall) 0 0 where
  outgoing := ⟨{ internalId := 0, state := .requesting, peerId := 2 }, by decide +kernel⟩
  config := fun config a config' b hcaller hcallee => by
    have hdraw : draw ((runPair zeroCallCrypto wholeCall).callerHistory 0) = some (goodConfig, (drawOf 2).toList) := by
      decide +kernel
    have hdraw' : draw ((runPair zeroCallCrypto wholeCall).calleeHistory 0) = some (goodConfig, (drawOf 3).toList) := by
      decide +kernel
    rw [hdraw] at hcaller
    rw [hdraw'] at hcallee
    cases hcaller
    cases hcallee
    rfl
  request := ⟨{ callInfo with gAHash := List.replicate 32 0, declined := false }, 2,
    by unfold IncomingCall; decide +kernel, by decide +kernel⟩
  accepted := fun u hu => by
    have hall : ((runPair zeroCallCrypto wholeCall).callerHistory 0).all (givesOnly [64] []) = true := by
      decide +kernel
    have hgB : u.gB = [64] := by simpa [givesOnly] using List.all_eq_true.mp hall _ hu
    rw [hgB]
    exact ⟨5, 6, by decide +kernel⟩
  confirmed := fun u hu => by
    have hall : ((runPair zeroCallCrypto wholeCall).calleeHistory 0).all (givesOnly [] [16]) = true := by
      decide +kernel
    have hgA : u.gA = [16] ∧ u.keyFingerprint = 0 := by simpa [givesOnly] using List.all_eq_true.mp hall _ hu
    rw [hgA.1, hgA.2]
    exact ⟨5, 6, by decide +kernel⟩

theorem ongoingCall_of_slot {m : TGCallManager} {i : Nat} {o : OngoingContext} {connection : TGCallConnection}
    (h : (m.callContexts i).map (fun c => (c.context, c.state.map fun data => (data.state, data.connection))) =
      some (some (.ongoing o), some (.ongoing, some connection))) : OngoingCall m i o connection := by
  obtain ⟨c, hc, hpair⟩ := Option.map_eq_some_iff.mp h
  obtain ⟨hctx, hstate⟩ := Prod.ext_iff.mp hpair
  obtain ⟨data, hdata, hpair⟩ := Option.map_eq_some_iff.mp hstate
  obtain ⟨hongoing, hconn⟩ := Prod.ext_iff.mp hpair
  exact ⟨c, data, hc, hctx, hdata, hongoing, hconn⟩

def wholeReport : TGCallStateData :=
  { internalId := 0, callId := 5, accessHash := 6, state := .ongoing, peerId := 2, connection := some wholeConnection }

/-- Both devices have made the key of the numbers 2 and 3, and the callee has been given the value of the commitment. -/
theorem wholeCall_keysAgree :
    (∃ config a b, draw ((runPair zeroCallCrypto wholeCall).callerHistory 0) = some (config, a) ∧
      draw ((runPair zeroCallCrypto wholeCall).calleeHistory 0) = some (config, b) ∧
      wholeOngoing.key = sharedKey config a b) ∧
    ∃ q, IncomingCall ((runManager zeroCallCrypto (eventsAt false wholeCall)).slots 0).history q := by
  constructor
  · obtain ⟨config, a, b, hcaller, hcallee, hkey, -⟩ := (callKeys_agree zeroCallCrypto).1 wholeCall wholeCall wholeCall
      0 0 wholeOngoing wholeOngoing wholeConnection wholeConnection List.prefix_rfl List.prefix_rfl wholeCall_unaltered
      (ongoingCall_of_slot (by decide +kernel)) (ongoingCall_of_slot (by decide +kernel))
    exact ⟨config, a, b, hcaller, hcallee, hkey⟩
  · have hnot : ¬ OutgoingCall ((runManager zeroCallCrypto (eventsAt false wholeCall)).slots 0).history := by
      have hin : IncomingCall ((runManager zeroCallCrypto (eventsAt false wholeCall)).slots 0).history
          { callInfo with gAHash := List.replicate 32 0, declined := false } := by
        unfold IncomingCall
        decide +kernel
      exact hin.not_outgoing
    obtain ⟨q, connection, config, b, callId, accessHash, u, hin, -⟩ := (callKeys_agree zeroCallCrypto).2
      (eventsAt false wholeCall) 0 wholeReport (by decide +kernel) rfl hnot
    exact ⟨q, hin⟩

end TelegramClient.Calls
