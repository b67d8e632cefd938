import TelegramClient.Calls.KeyAgreement

/-!
# Updates that come again

An update of a call may be handed to the manager again at any later time.

* `Seen` : what a call with this context may have been given before; `SeenInv` : nothing else has been;
* `performCallContextTransition_repeated` : what such an update does;
* `repeatedUpdate_unchanged` : **when it leaves the call as it is**.
-/

namespace TelegramClient.Calls

open MtProto Secret

/-! ## What a call has been given -/

/-- A call with this context may have been given this one. -/
def Seen : Context → Context → Prop
  | .requesting, _ => False
  | .waiting w, u => ∃ v, u = .waiting v ∧ v.receiveDate ≤ w.receiveDate
  | .requested _, u | .received _, u => ∃ q, u = .requested q
  | .waitingConfirm _, u => ∀ v, u ≠ .confirmed v
  | _, _ => True

/-- A call has been given only what its context may have been. -/
def SeenInv (s : CallSlot) : Prop :=
  ∀ c context, s.call = some c → c.context = some context → ∀ u, .given u ∈ s.history → Seen context u

section
variable {crypto : CallCrypto} {i : Nat} {c : TGCallContext} {h : List CallItem} {given : Option Context}

variable {c' : TGCallContext}

theorem Drawn.not_given {items : List CallItem} (hdrawn : Drawn c c' items) (u : Context) : .given u ∉ items := by
  rcases hdrawn with ⟨rfl, -⟩ | ⟨config, n, taken, rfl, -⟩ <;> simp

variable {s : CallSlot} {u : Context}

theorem Change.given_mem (hchange : Change crypto c h given s) (hm : .given u ∈ s.history) : .given u ∈ h := by
  cases hchange with
  | same c' items hdrawn => simpa [hdrawn.not_given u] using hm
  | removed c' items reports hdrawn | discarded c' items reports d data hdrawn => simpa [hdrawn.not_given u] using hm
  | _ => simpa using hm

variable {context : Context}

variable {context' : Context}

theorem Change.seen (hchange : Change crypto c h given s) (hctx : c.context = some context)
    (hc' : s.call = some c') (hcontext' : c'.context = some context') (hseen : Seen context u) : Seen context' u := by
  cases hchange with
  | same c₁ items hdrawn hsame =>
    cases hc'
    obtain rfl : context = context' := by simpa [hsame, hctx] using hcontext'
    exact hseen
  | removed => cases hc'
  | discarded c₁ items reports d data hdrawn hdisc =>
    cases hc'
    obtain rfl : .discarded d = context' := by simpa [hdisc] using hcontext'
    trivial
  | ending | endingTold | configuredOutgoing | configuredIncoming | acceptNow =>
    cases hc'
    obtain rfl : context = context' := by simpa [hctx] using hcontext'
    exact hseen
  | waiting a gA config w data hrequesting =>
    obtain rfl : .requesting = context := by simpa [hrequesting] using hctx
    exact hseen.elim
  | waitingReceived w v w' data hwait hgiven hlater hw' =>
    cases hc'
    cases hcontext'
    obtain rfl : .waiting w = context := by simpa [hwait] using hctx
    obtain ⟨v', rfl, hle⟩ := hseen
    refine ⟨v', rfl, ?_⟩
    rw [hw']
    show v'.receiveDate ≤ v.receiveDate
    omega
  | accepted | confirmed | ongoing =>
    cases hc'
    cases hcontext'
    trivial
  | received q r data hrequested | receivedAccepted q r data data' hrequested =>
    cases hc'
    cases hcontext'
    obtain rfl : .requested q = context := by simpa [hrequested] using hctx
    exact hseen
  | waitingConfirm q r w hreceived =>
    cases hc'
    cases hcontext'
    obtain rfl : .received q = context := by simpa [hreceived] using hctx
    obtain ⟨v, rfl⟩ := hseen
    simp [Seen]

theorem transitionToDiscarded_context (context : Context) (d : DiscardedContext)
    (hc' : (transitionToDiscarded i context d ⟨some c, h⟩).call = some c') : c'.context = some (.discarded d) := by
  have hfinal := discardedState_isFinal d.reason ((c.session.map TGCallSession.outgoing).getD false)
  simp only [transitionToDiscarded, CallSlot.setContext_some] at hc'
  rw [setContextState_eq i (ne_of_isFinal hfinal).1 (ne_of_isFinal hfinal).2] at hc'
  split at hc' <;> cases hc'
  rfl

theorem performDiscarded_context (hctx : c.context = some context) (d : DiscardedContext)
    (hc' : (performCallContextTransition crypto i (.discarded d) ⟨some c, h⟩).call = some c') :
    ∃ d', c'.context = some (.discarded d') := by
  simp only [performCallContextTransition, hctx] at hc'
  cases context with
  | discarded d' =>
    cases hc'
    exact ⟨d', hctx⟩
  | _ => exact ⟨d, transitionToDiscarded_context _ d hc'⟩

theorem given_seen (hctx : c.context = some context) (hupd : u.isUpdate = true)
    (hid : context.callId = u.callId) (hc' : (performCallContextTransition crypto i u ⟨some c, h⟩).call = some c')
    (hcontext' : c'.context = some context') : Seen context' u := by
  by_cases hdisc : ∃ d, u = .discarded d
  · obtain ⟨d, rfl⟩ := hdisc
    obtain ⟨d', hd'⟩ := performDiscarded_context hctx d hc'
    obtain rfl : context' = .discarded d' := by simpa [hd'] using hcontext'.symm
    trivial
  · rw [perform_of_context hctx fun d hd => hdisc ⟨d, hd⟩] at hc'
    have hsame : ∀ {s : CallSlot}, s = ⟨some c, h⟩ → s.call = some c' → context' = context := by
      rintro s rfl hs
      cases hs
      simpa [hctx] using hcontext'.symm
    cases context with
    | requesting =>
      rw [callId_of_isUpdate hupd] at hid
      cases hid
    | waiting w =>
      cases u with
      | waiting v =>
        simp only [transitionFrom, transitionFromWaiting] at hc'
        split at hc'
        · rw [CallSlot.setContext_some, setContextState_eq i (by simp [stateOf]) (by simp [stateOf])] at hc'
          cases hc'
          cases hcontext'
          exact ⟨v, rfl, le_refl _⟩
        next hlater =>
          obtain rfl := hsame rfl hc'
          exact ⟨v, rfl, by omega⟩
      | accepted v =>
        cases hc'
        cases hcontext'
        trivial
      | _ => cases hc'
    | requested q =>
      cases u with
      | requested q' =>
        obtain rfl := hsame rfl hc'
        exact ⟨q', rfl⟩
      | waitingConfirm v | received v => cases hupd
      | _ => cases hc'
    | received q =>
      cases u with
      | waitingConfirm v => cases hupd
      | _ => cases hc'
    | waitingConfirm w =>
      cases u with
      | confirmed v =>
        simp only [transitionFrom, transitionFromWaitingConfirm] at hc'
        split at hc'
        · obtain ⟨data, -, heq⟩ := setOngoing_eq crypto i
            { v with key := w.key v.gA, keyFingerprint := keyFingerprint crypto (w.key v.gA) } v.gA c h
          rw [heq] at hc'
          cases hc'
          cases hcontext'
          trivial
        · cases hc'
      | _ =>
        obtain rfl := hsame rfl hc'
        simp [Seen]
    | accepted a =>
      cases u with
      | ongoing o => cases hupd
      | _ =>
        obtain rfl := hsame rfl hc'
        trivial
    | ongoing o =>
      cases u with
      | confirmed v =>
        obtain rfl := hsame rfl hc'
        trivial
      | _ => cases hc'
    | confirmed v | discarded d =>
      obtain rfl := hsame rfl hc'
      trivial

theorem SeenInv.change (hold : SeenInv ⟨some c, h⟩) (hpaired : Paired c) (hchange : Change crypto c h none s) :
    SeenInv s := by
  obtain ⟨context, hctx, -⟩ := hpaired
  intro c' context' hc' hcontext' u hm
  exact hchange.seen hctx hc' hcontext' (hold c context rfl hctx u (hchange.given_mem hm))

variable {event : SlotEvent}

theorem SeenInv.step (i : Nat) (hs : SlotOk s) (hold : SeenInv s) (hadm : Admissible s event) :
    SeenInv (stepSlot crypto i s event) := by
  rcases hs.cases_step crypto i hadm with
    hsame | ⟨rfl, ⟨peerId, session, rfl⟩ | ⟨q, hasCallKit, rfl⟩ | ⟨q, rfl⟩⟩ | ⟨c, hc, hchange⟩
  · rwa [hsame]
  · obtain ⟨data, -, heq⟩ := newOutgoing_eq i peerId session
    rw [stepSlot, heq]
    rintro c context ⟨⟩ ⟨⟩ u hm
    simp at hm
  · obtain ⟨data, -, heq⟩ := newIncoming_eq crypto i q hasCallKit
    rw [stepSlot, heq]
    rintro c context ⟨⟩ ⟨⟩ u hm
    obtain rfl : u = .requested q := by simpa using hm
    exact ⟨q, rfl⟩
  · have hnew : SeenInv ⟨some (declinedCall q), [.given (.requested q)]⟩ := by
      rintro c context ⟨⟩ ⟨⟩ u hm
      obtain rfl : u = .requested q := by simpa using hm
      exact ⟨q, rfl⟩
    exact hnew.change ⟨_, rfl, rfl, by simp [declinedCall]⟩ (newDeclined_change i q)
  · obtain ⟨call, history⟩ := s
    obtain rfl : call = some c := hc
    obtain ⟨context, hctx, -⟩ := hs.paired c rfl
    intro c' context' hc' hcontext' u hm
    rcases List.mem_append.mp (hchange.given_mem hm) with hm | hm
    · exact hchange.seen hctx hc' hcontext' (hold c context rfl hctx u hm)
    · cases event with
      | given u' =>
        obtain rfl : u = u' := by simpa [SlotEvent.update] using hm
        obtain ⟨hupd, c₁, hc₁, hid⟩ := hadm
        cases hc₁
        rw [hctx] at hid
        exact given_seen hctx hupd hid hc' hcontext'
      | _ => simp [SlotEvent.update] at hm

variable (crypto) in
theorem seenInv_run (events : List ManagerEvent) (i : Nat) : SeenInv ((runManager crypto events).slots i) :=
  ((slots_invariant_all crypto (P := fun _ s => SlotOk s ∧ SeenInv s)
    (fun _ => ⟨slotOk_init, fun _ _ hc => by cases hc⟩)
    (fun i _ _ hadm h => ⟨h.1.step hadm, h.2.step i h.1 hadm⟩) events).2 i).2

/-! ## The same update again -/

def Context.isHandshake : Context → Bool
  | .requested _ | .waiting _ | .accepted _ | .confirmed _ => true
  | _ => false

/-- A call with this context ends when the update comes again. -/
def rejects : Context → Context → Bool
  | .received _, _ => true
  | .ongoing _, .confirmed _ => false
  | .ongoing _, _ => true
  | _, _ => false

theorem performCallContextTransition_repeated (hctx : c.context = some context) (hseen : Seen context u)
    (hhandshake : u.isHandshake = true) : performCallContextTransition crypto i u ⟨some c, h⟩ =
      if rejects context u then invalidTransition i ⟨some c, h⟩ else ⟨some c, h⟩ := by
  rw [perform_of_context hctx]
  · cases context with
    | requesting => exact hseen.elim
    | waiting w =>
      obtain ⟨v, rfl, hle⟩ := hseen
      simp only [transitionFrom, transitionFromWaiting]
      rw [if_neg (by omega)]
      rfl
    | requested q | received q =>
      obtain ⟨q', rfl⟩ := hseen
      rfl
    | waitingConfirm w =>
      cases u with
      | confirmed v => exact absurd rfl (hseen v)
      | _ => rfl
    | accepted a =>
      cases u with
      | ongoing o => cases hhandshake
      | _ => rfl
    | ongoing o => cases u <;> rfl
    | confirmed v | discarded d => rfl
  · rintro d rfl
    cases hhandshake

theorem eventAt_update {m : TGCallManager} (hfresh : Fresh m) {call : TLPhoneCall}
    (hupd : updateContext call = some u) (hc : (m.slots i).call = some c) {found : Option Nat} {useCallKit : Bool}
    (hev : eventAt m i (.update call found useCallKit) = some event) : event = .given u := by
  have hadm := eventAt_admissible hfresh hev
  have hused : m.slots i ≠ ⟨none, []⟩ := fun hnew => by
    rw [hnew] at hc
    cases hc
  simp only [eventAt, hupd, Option.bind_some] at hev
  cases found with
  | some j =>
    simp only [updateAt] at hev
    split at hev <;> cases hev
    rfl
  | none =>
    simp only [updateAt] at hev
    split at hev
    · cases hev
    · cases u with
      | requested q =>
        simp only [unknownAt] at hev
        split at hev
        · cases hev
        · split at hev <;> cases hev <;> exact absurd hadm hused
      | _ => cases hev

/-- The call is in the table as before, with what it has told. -/
def Unchanged (m m' : TGCallManager) (i : Nat) : Prop :=
  ∃ c c', m.callContexts i = some c ∧ m'.callContexts i = some c' ∧ c'.context = c.context ∧ c'.state = c.state

variable (crypto) in
/-- **An update that a call has been given before leaves it as it is**, unless it is handed to a call that is received, or
to one that is ongoing and the update does not confirm it. -/
theorem repeatedUpdate_unchanged (events : List ManagerEvent) (call : TLPhoneCall) (u : Context)
    (hupdate : updateContext call = some u) (hhandshake : u.isHandshake = true) (i : Nat) (context : Context)
    (hgiven : .given u ∈ ((runManager crypto events).slots i).history)
    (hcontext : ((runManager crypto events).callContexts i).bind TGCallContext.context = some context)
    (found : Option Nat) (useCallKit : Bool) :
    Unchanged (runManager crypto events) (stepManager crypto (runManager crypto events) (.update call found useCallKit)) i
      ↔ (eventAt (runManager crypto events) i (.update call found useCallKit) = some (.given u) →
        rejects context u = false) := by
  obtain ⟨c, hc, hcontext⟩ := Option.bind_eq_some_iff.mp hcontext
  obtain ⟨history, hslot⟩ : ∃ history, (runManager crypto events).slots i = ⟨some c, history⟩ :=
    ⟨((runManager crypto events).slots i).history, by rw [← hc]; rfl⟩
  have hseen : Seen context u := seenInv_run crypto events i c context hc hcontext u hgiven
  cases hevent : eventAt (runManager crypto events) i (.update call found useCallKit) with
  | none =>
      have hsame : (stepManager crypto (runManager crypto events) (.update call found useCallKit)).slots i =
          ⟨some c, history⟩ := by
        rw [slots_stepManager, hevent]
        exact hslot
      constructor
      · intro _ h
        cases h
      · intro _
        exact ⟨c, c, hc, congrArg CallSlot.call hsame, rfl, rfl⟩
  | some event =>
      obtain rfl := eventAt_update (slotOk_run crypto events).1 hupdate hc hevent
      have hstep : (stepManager crypto (runManager crypto events) (.update call found useCallKit)).slots i =
          if rejects context u then invalidTransition i ⟨some c, history ++ [.given u]⟩
          else ⟨some c, history ++ [.given u]⟩ := by
        rw [slots_stepManager, hevent]
        show stepSlot crypto i ((runManager crypto events).slots i) (.given u) = _
        rw [hslot]
        exact performCallContextTransition_repeated hcontext hseen hhandshake
      cases hrejects : rejects context u with
      | true =>
          constructor
          · rintro ⟨c₁, c', -, hc', -⟩
            rw [TGCallManager.callContexts, hstep, hrejects] at hc'
            cases hc'
          · intro h
            cases h rfl
      | false =>
          constructor
          · intro _ _
            rfl
          · intro _
            refine ⟨c, c, hc, ?_, rfl, rfl⟩
            rw [TGCallManager.callContexts, hstep, hrejects]
            rfl

end

/-! ## A request that comes again -/

/-- The request of a call, for the call `found`. -/
def requestEvent (found : Option Nat) : ManagerEvent :=
  .update (.phoneCallRequested callInfo (List.replicate 32 0)) found false

def repeatedRequest : RequestedContext :=
  { callInfo with gAHash := List.replicate 32 0, declined := false }

/-- Before the call rings, the request does nothing. -/
theorem requestAgain_unchanged :
    Unchanged (runManager zeroCallCrypto [requestEvent none])
      (stepManager zeroCallCrypto (runManager zeroCallCrypto [requestEvent none]) (requestEvent (some 0))) 0 :=
  (repeatedUpdate_unchanged zeroCallCrypto [requestEvent none] (.phoneCallRequested callInfo (List.replicate 32 0))
    (.requested repeatedRequest) rfl rfl 0 (.requested repeatedRequest) (by decide +kernel) (by decide +kernel)
    (some 0) false).mpr fun _ => rfl

def ringingCall : List ManagerEvent :=
  [requestEvent none, .call 0 (.configured goodConfig (drawOf 3)), .call 0 (.answered .phoneCallEmpty)]

/-- While the call rings, the same request ends it. -/
theorem ringingCall_ends :
    .given (.requested repeatedRequest) ∈ ((runManager zeroCallCrypto ringingCall).slots 0).history ∧
      ((runManager zeroCallCrypto ringingCall).callContexts 0).map (fun c => c.state.map TGCallStateData.state) =
        some (some .ready) ∧
      .reported { internalId := 0, state := .ended, error := some "INVALID_TRANSITION" } ∈
        ((runManager zeroCallCrypto (ringingCall ++ [requestEvent (some 0)])).slots 0).history ∧
      ¬ Unchanged (runManager zeroCallCrypto ringingCall)
        (stepManager zeroCallCrypto (runManager zeroCallCrypto ringingCall) (requestEvent (some 0))) 0 := by
  have hgone : ((stepManager zeroCallCrypto (runManager zeroCallCrypto ringingCall)
      (requestEvent (some 0))).callContexts 0) = none := by decide +kernel
  refine ⟨by decide +kernel, by decide +kernel, by decide +kernel, ?_⟩
  rintro ⟨c, c', -, hc', -⟩
  rw [hgone] at hc'
  cases hc'

end TelegramClient.Calls
