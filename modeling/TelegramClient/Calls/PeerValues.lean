import TelegramClient.Calls.KeyAgreement
import TelegramClient.Lib.SafePrimes

/-!
# The values of the other side

A value of the other side that is `0`, `1` or `p - 1`, or is none modulo `p`, makes a key that anybody knows. A call checks
the power of its own number, and not the value it receives.

* `InRange` : a value in the range; `DependsOnNumber` : the key depends on the number of the device;
* `peerValuesInRange_iff` : **the runs for which it holds** are the ones that take no other value.
-/

namespace TelegramClient.Calls

open MtProto Secret

/-- What `MTCheckIsSafeGAOrB` checks. -/
def InRange (config : AcceptedConfig) (v : Bytes) : Prop := 1 < ofBe v ∧ ofBe v < ofBe config.p - 1

instance (config : AcceptedConfig) (v : Bytes) : Decidable (InRange config v) :=
  inferInstanceAs (Decidable (_ ∧ _))

/-- Of the number, the key tells the rest modulo `q`, if the modulus is the safe prime `2 * q + 1`. -/
def DependsOnNumber (config : AcceptedConfig) (v n : Bytes) : Prop :=
  ∀ q n', (ofBe config.p).Prime → q.Prime → ofBe config.p - 1 = 2 * q →
    outgoingKey (mtExp v n' config.p) = outgoingKey (mtExp v n config.p) → ofBe n' ≡ ofBe n [MOD q]

/-- **The key of a value in the range depends on the number.** -/
theorem InRange.dependsOnNumber {config : AcceptedConfig} {v : Bytes} (hv : InRange config v) (n : Bytes) :
    DependsOnNumber config v n := by
  intro q n' hp hq hpq h
  have hlt : ∀ x, x % ofBe config.p < 256 ^ 256 := fun x => (Nat.mod_lt x config.ofBe_p_pos).trans config.ofBe_p_lt
  rw [config.outgoingKey_mtExp, config.outgoingKey_mtExp] at h
  have hmod := congrArg ofBe h
  rw [ofBe_beBytes, ofBe_beBytes, Nat.mod_eq_of_lt (hlt _), Nat.mod_eq_of_lt (hlt _)] at hmod
  exact modEq_of_pow_mod_eq hp hq hpq hv.1 hv.2 hmod

/-! ## Calls that are gone, and calls without a key -/

section
variable {crypto : CallCrypto}

variable {before after : List ManagerEvent} {i : Nat}

/-- A call that is gone is never heard of again. -/
theorem gone_stays {h : List CallItem} (hgone : (runManager crypto before).slots i = ⟨none, h⟩) (hne : h ≠ []) :
    (runManager crypto (before ++ after)).slots i = ⟨none, h⟩ := by
  induction after using List.reverseRecOn with
  | nil => rwa [List.append_nil]
  | append_singleton after e ih =>
    rw [← List.append_assoc, runManager_append, slots_stepManager]
    obtain ⟨hfresh, hok⟩ := slotOk_run crypto (before ++ after)
    cases hev : eventAt (runManager crypto (before ++ after)) i e with
    | none => exact ih
    | some event =>
      have hadm := eventAt_admissible hfresh hev
      show stepSlot crypto i ((runManager crypto (before ++ after)).slots i) event = ⟨none, h⟩
      rcases (hok i).cases_step crypto i hadm with hsame | ⟨hnew, -⟩ | ⟨c, hc, -⟩
      · rw [hsame, ih]
      · rw [ih] at hnew
        exact absurd (congrArg CallSlot.history hnew) hne
      · rw [ih] at hc
        cases hc

def Context.isUnfinished : Context → Bool
  | .ongoing _ | .discarded _ => false
  | _ => true

/-- Before it has its key, a call is not told to be ongoing. -/
def Unkeyed (s : CallSlot) : Prop :=
  ∀ c context, s.call = some c → c.context = some context → context.isUnfinished = true →
    ∀ data, .reported data ∈ s.history → data.state ≠ .ongoing

variable {data : TGCallStateData}

theorem IsEnd.ne_ongoing (h : IsEnd data) : data.state ≠ .ongoing := fun hongoing => by
  have hfinal := h.1
  rw [hongoing] at hfinal
  cases hfinal

variable {c : TGCallContext} {h : List CallItem} {given : Option Context}

theorem Unkeyed.extend (hold : Unkeyed ⟨some c, h⟩) {call : Option TGCallContext} {items : List CallItem}
    (hctx : ∀ c' context, call = some c' → c'.context = some context → context.isUnfinished = true →
      ∃ context', c.context = some context' ∧ context'.isUnfinished = true)
    (hitems : ∀ data, .reported data ∈ items → data.state ≠ .ongoing) : Unkeyed ⟨call, h ++ items⟩ := by
  intro c' context hc' hnew hunfin data hm
  obtain ⟨context', hcontext', hunfinished'⟩ := hctx c' context hc' hnew hunfin
  rcases List.mem_append.mp hm with hm | hm
  · exact hold c context' rfl hcontext' hunfinished' data hm
  · exact hitems data hm

variable {context : Context}

theorem Unkeyed.told (hold : Unkeyed ⟨some c, h⟩) (hctx : c.context = some context)
    (hunfin : context.isUnfinished = true) (hdata : data.state ≠ .ongoing) (call : Option TGCallContext) :
    Unkeyed ⟨call, h ++ [.reported data]⟩ := by
  apply hold.extend
  · intro _ _ _ _ _
    exact ⟨context, hctx, hunfin⟩
  · intro data' hm
    obtain rfl : data' = data := by simpa using hm
    exact hdata

theorem IsProgress.ne_ongoing {state : TGCallState} (hdata : IsProgress data state) (hne : state ≠ .ongoing) :
    data.state ≠ .ongoing := hdata.1 ▸ hne

variable {s : CallSlot}

theorem Change.unkeyed (hold : Unkeyed ⟨some c, h⟩) (hchange : Change crypto c h given s) : Unkeyed s := by
  cases hchange with
  | same c' items hdrawn hctx =>
    apply hold.extend
    · rintro _ context ⟨⟩ hc hunfin
      exact ⟨context, hctx ▸ hc, hunfin⟩
    · intro data hm
      exact absurd hm (hdrawn.not_mem (by simp))
  | removed =>
    rintro _ _ ⟨⟩
  | discarded c' items reports d data hdrawn hctx =>
    rintro _ context ⟨⟩ hc hunfin
    obtain rfl : context = .discarded d := by simpa [hctx] using hc.symm
    cases hunfin
  | ending | configuredOutgoing | configuredIncoming =>
    apply hold.extend
    · rintro _ context ⟨⟩ hc hunfin
      exact ⟨context, hc, hunfin⟩
    · simp
  | endingTold callId accessHash reason data hdata =>
    apply hold.extend
    · rintro _ context ⟨⟩ hc hunfin
      exact ⟨context, hc, hunfin⟩
    · intro data' hm
      obtain rfl : data' = data := by simpa using hm
      exact hdata.ne_ongoing
  | waiting a gA config w data hctx hdisp hw hdata
  | waitingReceived w u w' data hctx hgiven hlater hw' hdata
  | received q r data hctx hdisp haccepting hdata =>
    exact hold.told hctx rfl (hdata.ne_ongoing (by simp)) _
  | accepted w u key hctx =>
    apply hold.extend
    · intro _ _ _ _ _
      exact ⟨_, hctx, rfl⟩
    · simp
  | receivedAccepted q r data data' hctx hdisp hdata hdata' =>
    apply hold.extend
    · intro _ _ _ _ _
      exact ⟨_, hctx, rfl⟩
    · intro data'' hm
      obtain rfl | rfl : data'' = data ∨ data'' = data' := by simpa using hm
      · exact hdata.ne_ongoing (by simp)
      · exact hdata'.ne_ongoing (by simp)
  | acceptNow r data data' hctx hstate hready hdata' =>
    apply hold.extend
    · intro _ _ _ _ _
      exact ⟨_, hctx, rfl⟩
    · intro data'' hm
      obtain rfl : data'' = data' := by simpa using hm
      exact hdata'.ne_ongoing (by simp)
  | waitingConfirm q r w hctx =>
    intro _ _ _ _ _
    exact hold c _ rfl hctx rfl
  | confirmed | ongoing =>
    rintro _ context ⟨⟩ ⟨⟩ hunfin
    cases hunfin

theorem Unkeyed.update (hold : Unkeyed ⟨some c, h⟩) (given : Option Context) :
    Unkeyed ⟨some c, h ++ (given.map CallItem.given).toList⟩ := by
  apply hold.extend
  · rintro _ context ⟨⟩ hc hunfin
    exact ⟨context, hc, hunfin⟩
  · cases given <;> simp

variable {event : SlotEvent}

theorem Unkeyed.step (i : Nat) (hs : SlotOk s) (hold : Unkeyed s) (hadm : Admissible s event) :
    Unkeyed (stepSlot crypto i s event) := by
  rcases hs.cases_step crypto i hadm with
    hsame | ⟨rfl, ⟨peerId, session, rfl⟩ | ⟨q, hasCallKit, rfl⟩ | ⟨q, rfl⟩⟩ | ⟨c, hc, hchange⟩
  · rwa [hsame]
  · obtain ⟨data, hdata, heq⟩ := newOutgoing_eq i peerId session
    rw [stepSlot, heq]
    intro _ _ _ _ _ data' hm
    obtain rfl : data' = data := by simpa using hm
    exact hdata.ne_ongoing (by simp)
  · obtain ⟨data, hdata, heq⟩ := newIncoming_eq crypto i q hasCallKit
    rw [stepSlot, heq]
    intro _ _ _ _ _ data' hm
    obtain rfl : data' = data := by simpa using hm
    exact hdata.ne_ongoing (by simp)
  · apply (newDeclined_change i q).unkeyed
    intro _ _ _ _ _
    simp
  · obtain ⟨call, history⟩ := s
    obtain rfl : call = some c := hc
    exact hchange.unkeyed (hold.update event.update)

variable (crypto) in
theorem unkeyed_run (events : List ManagerEvent) (i : Nat) : Unkeyed ((runManager crypto events).slots i) :=
  ((slots_invariant_all crypto (P := fun _ s => SlotOk s ∧ Unkeyed s)
    (fun _ => ⟨slotOk_init, fun _ _ hc => by cases hc⟩)
    (fun i _ _ hadm h => ⟨h.1.step hadm, h.2.step i h.1 hadm⟩) events).2 i).2

/-! ## Values that are handed to a call -/

/-- The step hands the value to the call `i`, which waits for it: to a caller `gB`, and to a callee `gA`. -/
def Offers (m : TGCallManager) (e : ManagerEvent) (i : Nat) (config : AcceptedConfig) (v : Bytes) : Prop :=
  ∃ c, m.callContexts i = some c ∧
    ((∃ w u, eventAt m i e = some (.given (.accepted u)) ∧ c.context = some (.waiting w) ∧
        w.dhConfig = some config ∧ v = u.gB) ∨
      ∃ w u, eventAt m i e = some (.given (.confirmed u)) ∧ c.context = some (.waitingConfirm w) ∧
        w.dhConfig = config ∧ v = u.gA)

/-- A caller has received this `gB`, or a callee this `gA`. -/
def Received (h : List CallItem) (v : Bytes) : Prop :=
  (OutgoingCall h ∧ ∃ u : AcceptedContext, .given (.accepted u) ∈ h ∧ u.gB = v) ∨
    ∃ q, IncomingCall h q ∧ ∃ u : ConfirmedContext, .given (.confirmed u) ∈ h ∧ u.gA = v

variable (crypto)

/-- The keys of a run are made of values in the range. -/
structure PeerValuesInRange (events : List ManagerEvent) : Prop where
  ongoing : ∀ i data, .reported data ∈ ((runManager crypto events).slots i).history → data.state = .ongoing →
    ∃ connection config n v, data.connection = some connection ∧
      draw ((runManager crypto events).slots i).history = some (config, n) ∧
      Received ((runManager crypto events).slots i).history v ∧
      connection.key = outgoingKey (mtExp v n config.p) ∧ InRange config v ∧ DependsOnNumber config v n
  ended : ∀ before e after, events = before ++ e :: after → ∀ i config v,
    Offers (runManager crypto before) e i config v → ¬ InRange config v →
      (runManager crypto (before ++ [e])).callContexts i = none ∧
        ∀ data, .reported data ∈ ((runManager crypto events).slots i).history → data.state ≠ .ongoing

/-- What the step hands to a waiting caller, or with the right hash and fingerprint to a waiting callee, is in the
range. -/
def TakesInRange (m : TGCallManager) (e : ManagerEvent) : Prop :=
  ∀ i c event, m.callContexts i = some c → eventAt m i e = some event → ValuesOk crypto InRange c event.update

variable {crypto}

theorem KeyOf.received {key gA : Bytes} (hkey : KeyOf crypto InRange h key gA) :
    ∃ config n v, draw h = some (config, n) ∧ Received h v ∧ key = outgoingKey (mtExp v n config.p) ∧
      InRange config v := by
  rcases hkey with ⟨config, a, gB, hkey⟩ | ⟨config, b, q, hkey⟩
  · exact ⟨config, a, gB, hkey.drawn, .inl ⟨hkey.outgoing, hkey.received⟩, hkey.key_eq, hkey.value⟩
  · obtain ⟨u, hu, hgA, -⟩ := hkey.received
    exact ⟨config, b, gA, hkey.drawn, .inr ⟨q, hkey.incoming, u, hu, hgA⟩, hkey.key_eq, hkey.value⟩

variable {w : WaitingConfirmContext} {u : ConfirmedContext}

theorem unconfirmed_ends (hctx : c.context = some (.waitingConfirm w)) (hconf : confirms crypto w u = false) :
    stepSlot crypto i ⟨some c, h⟩ (.given (.confirmed u)) = ⟨none, h ++ [.given (.confirmed u),
        .reported { internalId := i, state := .ended, error := some "FINGERPRINT_MISMATCH" }]⟩ := by
  simp [stepSlot, performCallContextTransition, hctx, transitionFrom, transitionFromWaitingConfirm, hconf,
    endCall, setContextState_eq, cleanupContext]

theorem accepted_goes_on {w : WaitingContext} {u : AcceptedContext} (hctx : c.context = some (.waiting w)) :
    (stepSlot crypto i ⟨some c, h⟩ (.given (.accepted u))).call ≠ none := by
  simp [stepSlot, performCallContextTransition, hctx, transitionFrom, transitionFromWaiting]

theorem confirmed_goes_on (hctx : c.context = some (.waitingConfirm w)) (hconf : confirms crypto w u = true) :
    (stepSlot crypto i ⟨some c, h⟩ (.given (.confirmed u))).call ≠ none := by
  obtain ⟨data, -, heq⟩ := setOngoing_eq crypto i
    { u with key := w.key u.gA, keyFingerprint := keyFingerprint crypto (w.key u.gA) } u.gA c
    (h ++ [.given (.confirmed u)])
  simp [stepSlot, performCallContextTransition, hctx, transitionFrom, transitionFromWaitingConfirm, hconf, heq]

variable {e : ManagerEvent}

theorem callContexts_step (hev : eventAt (runManager crypto before) i e = some event) :
    (runManager crypto (before ++ [e])).slots i = stepSlot crypto i ((runManager crypto before).slots i) event := by
  rw [runManager_append, slots_stepManager, hev]
  rfl

theorem slot_of_callContexts {m : TGCallManager} (hc : m.callContexts i = some c) :
    m.slots i = ⟨some c, (m.slots i).history⟩ := by
  rw [← hc]
  rfl

theorem TakesInRange.ended (hrange : TakesInRange crypto (runManager crypto before) e) {config : AcceptedConfig}
    {v : Bytes} (hoffers : Offers (runManager crypto before) e i config v) (hv : ¬ InRange config v) :
    (runManager crypto (before ++ [e])).callContexts i = none ∧
      ∀ data, .reported data ∈ ((runManager crypto (before ++ e :: after)).slots i).history → data.state ≠ .ongoing := by
  obtain ⟨c, hc, ⟨w, u, hev, hctx, hcfg, rfl⟩ | ⟨w, u, hev, hctx, rfl, rfl⟩⟩ := hoffers
  · exact absurd ((hrange i c _ hc hev).accepted w u config hctx rfl hcfg) hv
  · have hconf : confirms crypto w u = false := by
      by_contra hconf
      exact hv ((hrange i c _ hc hev).confirmed w u hctx rfl (by simpa using hconf))
    have hstep := callContexts_step hev
    rw [slot_of_callContexts hc, unconfirmed_ends hctx hconf] at hstep
    refine ⟨by rw [TGCallManager.callContexts, hstep], fun data hm => ?_⟩
    rw [List.append_cons, gone_stays hstep (by simp)] at hm
    rcases List.mem_append.mp hm with hm | hm
    · exact unkeyed_run crypto before i c _ hc hctx rfl data hm
    · obtain rfl : data = { internalId := i, state := .ended, error := some "FINGERPRINT_MISMATCH" } := by
        simpa using hm
      simp

theorem SlotEvent.eq_given (h : event.update = some context) : event = .given context := by
  cases event <;> cases h
  rfl

theorem PeerValuesInRange.takesInRange (hrange : PeerValuesInRange crypto (before ++ e :: after)) :
    TakesInRange crypto (runManager crypto before) e := by
  intro i c event hc hev
  have hgone : ∀ config v, Offers (runManager crypto before) e i config v → ¬ InRange config v →
      (stepSlot crypto i ⟨some c, ((runManager crypto before).slots i).history⟩ event).call = none :=
    fun config v hoffers hv => by
      have hend := (hrange.ended before e after rfl i config v hoffers hv).1
      rwa [TGCallManager.callContexts, callContexts_step hev, slot_of_callContexts hc] at hend
  constructor
  · intro w u config hctx hgiven hcfg
    obtain rfl := SlotEvent.eq_given hgiven
    by_contra hv
    exact accepted_goes_on hctx (hgone config u.gB ⟨c, hc, .inl ⟨w, u, hev, hctx, hcfg, rfl⟩⟩ hv)
  · intro w u hctx hgiven hconf
    obtain rfl := SlotEvent.eq_given hgiven
    by_contra hv
    exact confirmed_goes_on hctx hconf
      (hgone w.dhConfig u.gA ⟨c, hc, .inr ⟨w, u, hev, hctx, rfl, rfl⟩⟩ hv)

/-- **The keys of a run are made of values in the range** if and only if no value outside it is taken. -/
theorem peerValuesInRange_iff (events : List ManagerEvent) :
    PeerValuesInRange crypto events ↔ AllSteps (stepManager crypto) (TakesInRange crypto) .init events := by
  constructor
  · intro hrange
    rw [allSteps_iff_forall]
    rintro before e after rfl
    exact hrange.takesInRange
  · intro hsteps
    have hinv := (slots_invariant crypto (P := fun _ s => SlotOk s ∧ KeyInv crypto InRange s)
      (fun _ => ⟨slotOk_init, keyInv_init crypto InRange⟩)
      (fun _ _ i event htakes hevent hadmissible h => ⟨h.1.step hadmissible,
        h.2.step i h.1 hadmissible fun c hc => htakes i c event hc hevent⟩) hsteps).2
    constructor
    · intro i data hmem hongoing
      obtain ⟨connection, gA, hconnection, hkey, -⟩ := (hinv i).2.reported data hmem hongoing
      obtain ⟨config, n, v, hdraw, hreceived, hkey, hv⟩ := hkey.received
      exact ⟨connection, config, n, v, hconnection, hdraw, hreceived, hkey, hv, hv.dependsOnNumber n⟩
    · rintro before e after rfl i config v hoffers hv
      exact (allSteps_iff_forall.mp hsteps before e after rfl).ended hoffers hv

end

/-! ## A key that the server knows -/

/-- The other side sends `1`. -/
def degenerateCall : List ManagerEvent :=
  [.requestCall 2 false false, .call 0 (.configured goodConfig (drawOf 2)),
   .call 0 (.answered (.phoneCallWaiting callInfo 0)), .update (.phoneCallAccepted callInfo [1]) (some 0) false,
   .call 0 (.answered (.phoneCall callInfo [1] 0 ⟨none, []⟩))]

def degenerateReport : TGCallStateData :=
  { internalId := 0, callId := 5, accessHash := 6, state := .ongoing, peerId := 2
    connection := some ⟨beBytes 256 1, List.replicate 32 0, ⟨none, []⟩⟩ }

theorem degenerateCall_history :
    ((runManager zeroCallCrypto degenerateCall).slots 0).history.all (givesOnly [1] []) = true ∧
      .reported degenerateReport ∈ ((runManager zeroCallCrypto degenerateCall).slots 0).history := by
  decide +kernel

/-- The caller takes `1` for the power of the other side, and its key is `1`. -/
theorem degenerateCall_key : .reported degenerateReport ∈ ((runManager zeroCallCrypto degenerateCall).slots 0).history ∧
    ¬ PeerValuesInRange zeroCallCrypto degenerateCall := by
  obtain ⟨hgives, hreported⟩ := degenerateCall_history
  refine ⟨hreported, fun hrange => ?_⟩
  obtain ⟨connection, config, n, v, -, -, hreceived, -, hv, -⟩ := hrange.ongoing 0 degenerateReport hreported rfl
  rcases hreceived with ⟨-, u, hu, rfl⟩ | ⟨q, hin, -⟩
  · have hgB : u.gB = [1] := by simpa [givesOnly] using List.all_eq_true.mp hgives _ hu
    rw [hgB] at hv
    exact absurd hv.1 (by decide)
  · apply hin.not_outgoing
    exact ⟨{ internalId := 0, state := .requesting, peerId := 2 }, by decide +kernel⟩

end TelegramClient.Calls
