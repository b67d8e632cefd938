import TelegramClient.Calls.CallManager
import TelegramClient.Lib.Runs

/-!
# Calls one by one

A call knows nothing of the others, and neither does what happens to it.

* `SlotEvent`, `stepSlot` : what can happen to a call, a new one or one in the table; `eventAt` : what an event of the
  manager is for one call;
* `slots_stepManager` : **the manager is all its calls side by side**;
* `slots_invariant` : what holds of a call through all its steps holds in every run.
-/

namespace TelegramClient.Calls

open MtProto Secret

/-! ## One call -/

inductive SlotEvent where
  | event (event : CallEvent)
  | given (context : Context)
  | outgoing (peerId : Int) (session : Option TGCallSession)
  | incoming (requestedContext : RequestedContext) (hasCallKit : Bool)
  | declined (requestedContext : RequestedContext)
  | reset

section
variable (crypto : CallCrypto)

def stepSlot (i : Nat) (s : CallSlot) : SlotEvent → CallSlot
  | .event event => stepCall crypto i s event
  | .given context => performCallContextTransition crypto i context (s.record (.given context))
  | .outgoing peerId session => newOutgoing i peerId session s
  | .incoming requestedContext hasCallKit => newIncoming crypto i requestedContext hasCallKit s
  | .declined requestedContext => newDeclined crypto i requestedContext s
  | .reset => cleanupContext s

/-- What an update that belongs to no call is for the call `i`. -/
def unknownAt (m : TGCallManager) (i : Nat) (context : Context) (useCallKit : Bool) : Option SlotEvent :=
  match context with
  | .requested requestedContext =>
    if requestedContext.callId ∈ m.discardedCallIds ∨ i ≠ m.nextInternalId then none
    else if m.hasActiveCall requestedContext then some (.declined requestedContext)
    else some (.incoming requestedContext useCallKit)
  | _ => none

/-- What an update is for the call `i`. -/
def updateAt (m : TGCallManager) (i : Nat) (context : Context) (found : Option Nat) (useCallKit : Bool) :
    Option SlotEvent :=
  match found with
  | some j => if m.hasCallId (context.callId.getD 0) j ∧ i = j then some (.given context) else none
  | none =>
    if (List.range m.nextInternalId).any (m.hasCallId (context.callId.getD 0)) then none
    else unknownAt m i context useCallKit

/-- What an event is for the call `i`. -/
def eventAt (m : TGCallManager) (i : Nat) : ManagerEvent → Option SlotEvent
  | .requestCall peerId hasSession useCallKit =>
    if i = m.nextInternalId then
      some (.outgoing peerId (if hasSession then some ⟨true, useCallKit, false, 0⟩ else none))
    else none
  | .update call found useCallKit =>
    (updateContext call).bind fun context => updateAt m i context found useCallKit
  | .call j event => if i = j then some (.event event) else none
  | .reset => some .reset

variable (m : TGCallManager) (i : Nat)

theorem setSlot_slots (j : Nat) (s : CallSlot) : (m.setSlot j s).slots i = if i = j then s else m.slots i := by
  simp only [TGCallManager.setSlot, Function.update_apply]

theorem slots_updateUnknown (context : Context) (useCallKit : Bool) :
    (updateUnknown crypto (context.callId.getD 0) context useCallKit m).slots i =
      (unknownAt m i context useCallKit).elim (m.slots i) (stepSlot crypto i (m.slots i)) := by
  cases context with
  | requested requestedContext =>
    simp only [updateUnknown, unknownAt, Context.callId, Option.getD_some]
    by_cases hdisc : requestedContext.callId ∈ m.discardedCallIds
    · simp [hdisc]
    · by_cases hi : i = m.nextInternalId
      · subst hi
        cases hact : m.hasActiveCall requestedContext <;> simp [hdisc, setSlot_slots, stepSlot]
      · simp [hdisc, hi, setSlot_slots]
  | _ => rfl

theorem slots_updateCallContext (context : Context) (found : Option Nat) (useCallKit : Bool) :
    (updateCallContext crypto (context.callId.getD 0) context found useCallKit m).slots i =
      (updateAt m i context found useCallKit).elim (m.slots i) (stepSlot crypto i (m.slots i)) := by
  cases found with
  | some j =>
    simp only [updateCallContext, updateAt]
    by_cases hi : i = j
    · subst hi
      cases m.hasCallId (context.callId.getD 0) i <;> simp [setSlot_slots, stepSlot]
    · cases m.hasCallId (context.callId.getD 0) j <;> simp [setSlot_slots, hi]
  | none =>
    simp only [updateCallContext, updateAt]
    split
    · rfl
    · exact slots_updateUnknown crypto m i context useCallKit

/-- **The manager is all its calls side by side.** -/
theorem slots_stepManager (e : ManagerEvent) (i : Nat) : (stepManager crypto m e).slots i =
      (eventAt m i e).elim (m.slots i) (stepSlot crypto i (m.slots i)) := by
  cases e with
  | requestCall peerId hasSession useCallKit =>
    by_cases hi : i = m.nextInternalId <;> simp [stepManager, eventAt, setSlot_slots, hi, stepSlot]
  | update call found useCallKit =>
    simp only [stepManager, eventAt]
    cases updateContext call with
    | none => rfl
    | some context => exact slots_updateCallContext crypto m i context found useCallKit
  | call j event =>
    by_cases hi : i = j
    · subst hi
      simp [stepManager, eventAt, setSlot_slots, stepSlot]
    · simp [stepManager, eventAt, setSlot_slots, hi]
  | reset => rfl

/-! ## What can happen -/

def Fresh (m : TGCallManager) : Prop := ∀ i, m.nextInternalId ≤ i → m.slots i = ⟨none, []⟩

/-- A context that an update hands to the manager. -/
def Context.isUpdate : Context → Bool
  | .waiting _ | .requested _ | .accepted _ | .confirmed _ | .discarded _ => true
  | _ => false

def Admissible (s : CallSlot) : SlotEvent → Prop
  | .event _ | .reset => True
  | .given context => context.isUpdate = true ∧ ∃ c, s.call = some c ∧ c.context.bind Context.callId = context.callId
  | .outgoing _ _ | .declined _ | .incoming _ _ => s = ⟨none, []⟩

theorem stepCall_none (history : List CallItem) (event : CallEvent) :
    stepCall crypto i ⟨none, history⟩ event = ⟨none, history⟩ := by
  cases event <;> rfl

variable {context : Context}

theorem isUpdate_of_updateContext {call : TLPhoneCall} (h : updateContext call = some context) :
    context.isUpdate = true := by
  cases call <;> cases h <;> rfl

theorem callId_of_isUpdate (h : context.isUpdate = true) : context.callId = some (context.callId.getD 0) := by
  cases context <;> first | rfl | cases h

theorem callContext_of_hasCallId {m : TGCallManager} {callId : Int} {i : Nat} (h : m.hasCallId callId i = true) :
    ∃ c, (m.slots i).call = some c ∧ c.context.bind Context.callId = some callId := by
  simp only [TGCallManager.hasCallId, TGCallManager.callContexts] at h
  cases hc : (m.slots i).call with
  | none => simp [hc] at h
  | some c => exact ⟨c, rfl, by simpa [hc] using h⟩

variable {event : SlotEvent}

variable {useCallKit : Bool}

theorem unknownAt_admissible {m : TGCallManager} (h : Fresh m) {i : Nat}
    (hev : unknownAt m i context useCallKit = some event) : Admissible (m.slots i) event := by
  cases context with
  | requested requestedContext =>
    simp only [unknownAt] at hev
    split at hev
    · cases hev
    next hnew =>
      have hfresh : m.slots i = ⟨none, []⟩ := h i (by omega)
      split at hev <;> cases hev <;> exact hfresh
  | _ => cases hev

theorem updateAt_admissible {m : TGCallManager} (h : Fresh m) (hctx : context.isUpdate = true)
    {found : Option Nat} {i : Nat} (hev : updateAt m i context found useCallKit = some event) :
    Admissible (m.slots i) event := by
  cases found with
  | some j =>
    simp only [updateAt] at hev
    split at hev
    next hfound =>
      obtain ⟨hid, rfl⟩ := hfound
      obtain ⟨c, hc, hcallId⟩ := callContext_of_hasCallId hid
      cases hev
      exact ⟨hctx, c, hc, hcallId.trans (callId_of_isUpdate hctx).symm⟩
    · cases hev
  | none =>
    simp only [updateAt] at hev
    split at hev
    · cases hev
    · exact unknownAt_admissible h hev

theorem eventAt_admissible {m : TGCallManager} (h : Fresh m) {e : ManagerEvent} {i : Nat}
    (hev : eventAt m i e = some event) : Admissible (m.slots i) event := by
  cases e with
  | requestCall peerId hasSession useCallKit =>
    simp only [eventAt] at hev
    split at hev
    next hi =>
      cases hev
      exact h i (by omega)
    · cases hev
  | update call found useCallKit =>
    simp only [eventAt, Option.bind_eq_some_iff] at hev
    obtain ⟨context, hctx, hev⟩ := hev
    exact updateAt_admissible h (isUpdate_of_updateContext hctx) hev
  | call j event' =>
    simp only [eventAt] at hev
    split at hev
    · cases hev
      trivial
    · cases hev
  | reset =>
    cases hev
    trivial

theorem updateUnknown_nextInternalId (context : Context) (useCallKit : Bool) :
    (updateUnknown crypto (context.callId.getD 0) context useCallKit m).nextInternalId =
      if (unknownAt m m.nextInternalId context useCallKit).isSome then m.nextInternalId + 1 else m.nextInternalId := by
  cases context with
  | requested requestedContext =>
    simp only [updateUnknown, unknownAt, Context.callId, Option.getD_some]
    by_cases hdisc : requestedContext.callId ∈ m.discardedCallIds
    · simp [hdisc]
    · by_cases hact : m.hasActiveCall requestedContext = true <;> simp [hdisc, hact]
  | _ => rfl

theorem Fresh.step {m : TGCallManager} (h : Fresh m) (e : ManagerEvent) : Fresh (stepManager crypto m e) := by
  intro i hi
  rw [slots_stepManager]
  cases e with
  | requestCall peerId hasSession useCallKit =>
    have hlt : m.nextInternalId < i := hi
    rw [eventAt, if_neg (by omega)]
    exact h i (by omega)
  | update call found useCallKit =>
    simp only [eventAt]
    simp only [stepManager] at hi
    cases hctx : updateContext call with
    | none =>
      rw [hctx] at hi
      exact h i hi
    | some context =>
      simp only [hctx, Option.bind_some, updateCallContext] at hi ⊢
      cases found with
      | some j =>
        have hfresh : m.slots i = ⟨none, []⟩ := by
          apply h i
          simp only at hi
          split at hi <;> exact hi
        rw [updateAt, if_neg]
        · exact hfresh
        · rintro ⟨hfound, rfl⟩
          obtain ⟨c, hc, -⟩ := callContext_of_hasCallId hfound
          simp [hfresh] at hc
      | none =>
        simp only [updateAt] at hi ⊢
        split at hi
        next hknown =>
          rw [if_pos hknown]
          exact h i hi
        next hknown =>
          rw [updateUnknown_nextInternalId] at hi
          rw [if_neg hknown]
          have hle : m.nextInternalId ≤ i := by
            split at hi <;> omega
          cases hunknown : unknownAt m i context useCallKit with
          | none => exact h i hle
          | some event =>
            exfalso
            have hnew : i = m.nextInternalId := by
              cases context with
              | requested requestedContext =>
                simp only [unknownAt] at hunknown
                split at hunknown
                · cases hunknown
                next hnew => exact not_not.mp fun hne => hnew (.inr hne)
              | _ => cases hunknown
            subst hnew
            simp [hunknown] at hi
  | call j event =>
    have hfresh := h i hi
    simp only [eventAt]
    split
    · rw [hfresh]
      exact stepCall_none crypto i [] event
    · exact hfresh
  | reset =>
    rw [h i hi]
    rfl

theorem fresh_init : Fresh .init := fun _ _ => rfl

variable {P : Nat → CallSlot → Prop}

theorem slots_invariant {C : TGCallManager → ManagerEvent → Prop} (hinit : ∀ i, P i ⟨none, []⟩)
    (hstep : ∀ m e i event, C m e → eventAt m i e = some event → Admissible (m.slots i) event → P i (m.slots i) →
      P i (stepSlot crypto i (m.slots i) event)) {events : List ManagerEvent}
    (h : AllSteps (stepManager crypto) C .init events) :
    Fresh (runManager crypto events) ∧ ∀ i, P i ((runManager crypto events).slots i) := by
  have hkeeps : ∀ m e, (Fresh m ∧ ∀ i, P i (m.slots i)) → C m e →
      Fresh (stepManager crypto m e) ∧ ∀ i, P i ((stepManager crypto m e).slots i) := by
    rintro m e ⟨hfresh, hP⟩ hC
    refine ⟨hfresh.step crypto e, fun i => ?_⟩
    rw [slots_stepManager]
    cases hev : eventAt m i e with
    | none => exact hP i
    | some event => exact hstep m e i event hC hev (eventAt_admissible hfresh hev) (hP i)
  exact h.invariant hkeeps ⟨fresh_init, hinit⟩

theorem slots_invariant_all (hinit : ∀ i, P i ⟨none, []⟩)
    (hstep : ∀ i s event, Admissible s event → P i s → P i (stepSlot crypto i s event)) (events : List ManagerEvent) :
    Fresh (runManager crypto events) ∧ ∀ i, P i ((runManager crypto events).slots i) :=
  slots_invariant crypto (C := fun _ _ => True) hinit (fun _ _ i _ _ _ hadm hP => hstep i _ _ hadm hP)
    (allSteps_of_forall (fun _ _ => trivial) _)

end

end TelegramClient.Calls
