import TelegramClient.Calls.PeerValues
import TelegramClient.Calls.RepeatedUpdates

/-!
# Hanging up

A call that has been discarded tells that it is ending, and keeps its context until the server answers.

* `FinalStays` : after a final state no other one is told;
* `FinalInv`, `FinalInv.step` : what else happens to a call that is over leaves it so;
* `finalStays_iff` : **the runs in which hanging up is final**.
-/

namespace TelegramClient.Calls
open List
open TGCallState (isFinal)

open MtProto Secret

/-! ## What is told -/

def CallItem.isFinal : CallItem → Bool
  | .reported data => data.state.isFinal
  | _ => false

def CallItem.isOpen : CallItem → Bool
  | .reported data => !data.state.isFinal
  | _ => false

/-- After a final state every state that is told is final. -/
def FinalStays (h : List CallItem) : Prop := h.Pairwise fun x y => x.isFinal = true → y.isOpen = false

/-- The call has told a final state, the last time. -/
def IsOver (c : TGCallContext) : Prop := ∃ data, c.state = some data ∧ data.state.isFinal = true

/-- A call that is over waits for its discarding, or for the confirmation of the other side, or is discarded. -/
def Settled (c : TGCallContext) : Prop :=
  (∃ d, c.context = some (.discarded d)) ∨ ∀ request, c.disposable = some request →
    (∃ callId accessHash reason, request = .discardCall callId accessHash reason) ∨
      ∃ callId accessHash key gA keyId, request = .confirmCall callId accessHash key gA keyId

structure FinalInv (s : CallSlot) : Prop where
  stays : FinalStays s.history
  told : ∀ c, s.call = some c → (∃ x ∈ s.history, x.isFinal = true) → IsOver c
  settled : ∀ c, s.call = some c → IsOver c → Settled c

section
variable {crypto : CallCrypto} {i : Nat} {c : TGCallContext} {h : List CallItem} {given : Option Context}

variable {items : List CallItem}

theorem finalStays_of_closed (hitems : ∀ x ∈ items, x.isOpen = false) : FinalStays items :=
  pairwise_of_forall_mem_list fun _ _ y hy _ => hitems y hy

theorem FinalInv.extend (hold : FinalInv ⟨some c, h⟩) {call : Option TGCallContext} (hown : FinalStays items)
    (hitems : IsOver c → ∀ x ∈ items, x.isOpen = false)
    (hover : ∀ c', call = some c' → (IsOver c ∨ ∃ x ∈ items, x.isFinal = true) → IsOver c')
    (hsettled : ∀ c', call = some c' → IsOver c' → Settled c') : FinalInv ⟨call, h ++ items⟩ where
  stays := pairwise_append.mpr ⟨hold.stays, hown, fun x hx y hy hfinal =>
    hitems (hold.told c rfl ⟨x, hx, hfinal⟩) y hy⟩
  told := by
    rintro c' hc' ⟨x, hx, hfinal⟩
    apply hover c' hc'
    rcases mem_append.mp hx with hx | hx
    · exact .inl (hold.told c rfl ⟨x, hx, hfinal⟩)
    · exact .inr ⟨x, hx, hfinal⟩
  settled := hsettled

variable {c' : TGCallContext}

theorem FinalInv.quiet (hold : FinalInv ⟨some c, h⟩) (hitems : ∀ data, .reported data ∉ items)
    (hstate : c'.state = c.state) (hsettled : IsOver c → Settled c → Settled c') : FinalInv ⟨some c', h ++ items⟩ := by
  have hneither : ∀ x ∈ items, x.isOpen = false ∧ x.isFinal = false := fun x hx => by
    cases x with
    | reported data => exact absurd hx (hitems data)
    | _ => exact ⟨rfl, rfl⟩
  have hsame : IsOver c' ↔ IsOver c := by rw [IsOver, IsOver, hstate]
  apply hold.extend
  · exact finalStays_of_closed fun x hx => (hneither x hx).1
  · exact fun _ x hx => (hneither x hx).1
  · rintro _ ⟨⟩ (hover | ⟨x, hx, hfinal⟩)
    · exact hsame.mpr hover
    · rw [(hneither x hx).2] at hfinal
      cases hfinal
  · rintro _ ⟨⟩ hover
    exact hsettled (hsame.mp hover) (hold.settled c rfl (hsame.mp hover))

theorem FinalInv.goesOn (hold : FinalInv ⟨some c, h⟩) (hopen : ¬ IsOver c) (hitems : ∀ x ∈ items, x.isFinal = false)
    (hopen' : ¬ IsOver c') : FinalInv ⟨some c', h ++ items⟩ := by
  apply hold.extend
  · exact pairwise_of_forall_mem_list fun x hx y _ hfinal => by
      rw [hitems x hx] at hfinal
      cases hfinal
  · exact fun hover => absurd hover hopen
  · rintro _ - (hover | ⟨x, hx, hfinal⟩)
    · exact absurd hover hopen
    · rw [hitems x hx] at hfinal
      cases hfinal
  · rintro _ ⟨⟩ hover
    exact absurd hover hopen'

theorem not_isOver_of_state {data : TGCallStateData} (hstate : c.state = some data)
    (hdata : data.state.isFinal = false) : ¬ IsOver c := by
  rintro ⟨data', hstate', hfinal⟩
  obtain rfl : data = data' := by simpa [hstate] using hstate'
  rw [hdata] at hfinal
  cases hfinal

variable {context : Context}

theorem FinalInv.not_isOver (hold : FinalInv ⟨some c, h⟩) (hctx : c.context = some context)
    (hkept : ∀ d, context ≠ .discarded d) {request : Request} (hreq : c.disposable = some request)
    (hdiscard : ∀ callId accessHash reason, request ≠ .discardCall callId accessHash reason)
    (hconfirm : ∀ callId accessHash key gA keyId, request ≠ .confirmCall callId accessHash key gA keyId) :
    ¬ IsOver c := by
  intro hover
  rcases hold.settled c rfl hover with ⟨d, hd⟩ | hwaits
  · rw [hctx] at hd
    exact hkept d (Option.some.inj hd)
  · rcases hwaits request hreq with ⟨callId, accessHash, reason, heq⟩ | ⟨callId, accessHash, key, gA, keyId, heq⟩
    · exact hdiscard _ _ _ heq
    · exact hconfirm _ _ _ _ _ heq

theorem Drawn.closed (hdrawn : Drawn c c' items) {reports : List TGCallStateData}
    (hreports : ∀ data ∈ reports, IsEnd data) : ∀ x ∈ items ++ reports.map .reported, x.isOpen = false := by
  intro x hx
  cases x with
  | reported data =>
    rcases mem_append.mp hx with hx | hx
    · exact absurd hx (hdrawn.not_mem (by simp))
    · simp [CallItem.isOpen, (hreports data (by simpa using hx)).1]
  | _ => rfl

variable (crypto) in
structure StaysOver (c : TGCallContext) (given : Option Context) (s : CallSlot) : Prop where
  waiting : ∀ w u, c.context = some (.waiting w) → given = some (.waiting u) → ¬ w.receiveDate < u.receiveDate
  confirmed : ∀ w u, c.context = some (.waitingConfirm w) → given = some (.confirmed u) → confirms crypto w u = false
  ongoing : ∀ a c' o, c.context = some (.accepted a) → s.call = some c' → c'.context ≠ some (.ongoing o)

theorem Change.final (hold : FinalInv ⟨some c, h⟩) {s : CallSlot} (hchange : Change crypto c h given s)
    (hspared : IsOver c → StaysOver crypto c given s) : FinalInv s := by
  cases hchange with
  | same c' items hdrawn hctx hstate =>
    apply hold.quiet (fun data => hdrawn.not_mem (by simp)) hstate
    rintro - (⟨d, hd⟩ | hwaits)
    · exact .inl ⟨d, hctx.trans hd⟩
    · exact .inr fun request hreq => hwaits request (hdrawn.request hreq).2
  | removed c' items reports hdrawn hreports =>
    rw [append_assoc]
    have hclosed := hdrawn.closed hreports
    apply hold.extend (finalStays_of_closed hclosed) fun _ => hclosed
    · rintro _ ⟨⟩
    · rintro _ ⟨⟩
  | discarded c' items reports d data hdrawn hctx hstate haccepting hdata hreports =>
    rw [append_assoc]
    have hclosed := hdrawn.closed hreports
    apply hold.extend (finalStays_of_closed hclosed) fun _ => hclosed
    · rintro _ ⟨⟩ -
      exact ⟨data, hstate, (hreports data hdata).1⟩
    · rintro _ ⟨⟩ -
      exact .inl ⟨d, hctx⟩
  | ending callId accessHash reason =>
    apply hold.quiet
    · simp
    · rfl
    intro _ _
    refine .inr fun request hreq => ?_
    cases hreq
    exact .inl ⟨_, _, _, rfl⟩
  | endingTold callId accessHash reason data hdata =>
    apply hold.extend
    · simp [FinalStays, CallItem.isOpen]
    · simp [CallItem.isOpen, hdata.1]
    · rintro _ ⟨⟩ -
      exact ⟨data, rfl, hdata.1⟩
    · rintro _ ⟨⟩ -
      refine .inr fun request hreq => ?_
      cases hreq
      exact .inl ⟨_, _, _, rfl⟩
  | configuredOutgoing peerId config n hdisp | configuredIncoming q config n hdisp =>
    apply hold.quiet
    · simp
    · rfl
    rintro - (⟨d, hd⟩ | hwaits)
    · exact .inl ⟨d, hd⟩
    · rcases hwaits _ hdisp with ⟨_, _, _, h⟩ | ⟨_, _, _, _, _, h⟩ <;> cases h
  | waiting a gA config w data hctx hdisp hw hdata
  | received q r data hctx hdisp haccepting hdata =>
    have hopen := hold.not_isOver hctx (by simp) hdisp (by simp) (by simp)
    apply hold.goesOn hopen
    · simp [CallItem.isFinal, hdata.1, isFinal]
    · exact not_isOver_of_state rfl (by simp [hdata.1, isFinal])
  | waitingReceived w u w' data hctx hgiven hlater hw' hdata =>
    apply hold.goesOn fun hover => (hspared hover).waiting w u hctx hgiven hlater
    · simp [CallItem.isFinal, hdata.1, isFinal]
    · exact not_isOver_of_state rfl (by simp [hdata.1, isFinal])
  | accepted w u key hctx hgiven hkey =>
    apply hold.quiet
    · simp
    · rfl
    intro _ _
    refine .inr fun request hreq => ?_
    cases hreq
    exact .inr ⟨_, _, _, _, _, rfl⟩
  | receivedAccepted q r data data' hctx hdisp hdata hdata' =>
    have hopen := hold.not_isOver hctx (by simp) hdisp (by simp) (by simp)
    apply hold.goesOn hopen
    · simp [CallItem.isFinal, hdata.1, hdata'.1, isFinal]
    · exact not_isOver_of_state rfl (by simp [hdata'.1, isFinal])
  | acceptNow r data data' hctx hstate hready hdata' =>
    apply hold.goesOn (not_isOver_of_state hstate (by simp [hready, isFinal]))
    · simp [CallItem.isFinal, hdata'.1, isFinal]
    · exact not_isOver_of_state rfl (by simp [hdata'.1, isFinal])
  | waitingConfirm q r w hctx hdisp =>
    have hopen := hold.not_isOver hctx (by simp) hdisp (by simp) (by simp)
    have hnext : FinalInv ⟨some { c with context := some (.waitingConfirm w), disposable := none }, h ++ []⟩ :=
      hold.goesOn hopen (by simp) hopen
    simpa using hnext
  | confirmed w u o data hctx hgiven hconf ho hdata =>
    have hopen : ¬ IsOver c := fun hover => by
      have hnot := (hspared hover).confirmed w u hctx hgiven
      rw [hconf] at hnot
      cases hnot
    apply hold.goesOn hopen
    · simp [CallItem.isFinal, hdata.1, isFinal]
    · exact not_isOver_of_state rfl (by simp [hdata.1, isFinal])
  | ongoing a callId accessHash key gA keyId o data hctx hdisp ho hdata =>
    apply hold.goesOn fun hover => (hspared hover).ongoing a _ o hctx rfl rfl
    · simp [CallItem.isFinal, hdata.1, isFinal]
    · exact not_isOver_of_state rfl (by simp [hdata.1, isFinal])

/-! ## What a step does to the context -/

/-- The call is gone, or it is discarded, or its context is as before. -/
def KeepsContext (c : TGCallContext) (s : CallSlot) : Prop :=
  ∀ c', s.call = some c' → c'.context = c.context ∨ ∃ d, c'.context = some (.discarded d)

theorem KeepsContext.same (hctx : c'.context = c.context) (h : List CallItem) : KeepsContext c ⟨some c', h⟩ := by
  rintro _ ⟨⟩
  exact .inl hctx

theorem KeepsContext.gone (h : List CallItem) : KeepsContext c ⟨none, h⟩ := by
  rintro _ ⟨⟩

variable (crypto) in
theorem performDiscarded_keeps (c' : TGCallContext) (hcontext' : c'.context = some context) (d : DiscardedContext) :
    KeepsContext c (performCallContextTransition crypto i (.discarded d) ⟨some c', h⟩) := by
  intro c₁ hc₁
  exact .inr (performDiscarded_context hcontext' d hc₁)

theorem requestFailed_keeps (hctx : c'.context = some context) (hsame : c'.context = c.context)
    (rpcError : Option String) (request : Request) :
    KeepsContext c (requestFailed crypto i rpcError request ⟨some c', h⟩) := by
  cases request with
  | receivedIncomingCall q | receivedCall r =>
    simp only [requestFailed]
    split
    · exact KeepsContext.same hsame h
    · exact KeepsContext.gone _
  | confirmCall callId accessHash key gA keyId => exact KeepsContext.gone _
  | _ =>
    simp only [requestFailed]
    apply performDiscarded_keeps
    exact hctx

theorem stepCall_keeps (hctx : c.context = some context) {event : CallEvent}
    (hev : ∀ answer, event ≠ .answered answer) : KeepsContext c (stepCall crypto i ⟨some c, h⟩ event) := by
  cases event with
  | configured config n =>
    cases hreq : c.disposable with
    | none =>
      rw [stepCall, configured, takeDisposable_none hreq]
      exact KeepsContext.same rfl h
    | some request =>
      rw [stepCall, configured, takeDisposable_some hreq]
      cases request with
      | requestedOutgoingCall peerId | receivedIncomingCall q =>
        simp only
        split
        · apply requestFailed_keeps
          · exact hctx
          · rfl
        · exact KeepsContext.same rfl _
      | _ => exact KeepsContext.same rfl h
  | answered answer => exact absurd rfl (hev answer)
  | failed rpcError =>
    cases hreq : c.disposable with
    | none =>
      rw [stepCall, failed, takeDisposable_none hreq]
      exact KeepsContext.same rfl h
    | some request =>
      rw [stepCall, failed, takeDisposable_some hreq]
      apply requestFailed_keeps
      · exact hctx
      · rfl
  | timedOut =>
    cases hreq : c.disposable with
    | none =>
      rw [stepCall, timedOut, takeDisposable_none hreq]
      exact KeepsContext.same rfl h
    | some request =>
      rw [stepCall, timedOut, takeDisposable_some hreq]
      cases request with
      | discardCall callId accessHash reason =>
        apply performDiscarded_keeps
        exact hctx
      | _ => exact KeepsContext.same rfl h
  | acceptCall =>
    simp only [stepCall, acceptCall]
    cases hstate : c.state with
    | none => exact KeepsContext.same rfl h
    | some data =>
      simp only
      split
      · exact KeepsContext.same rfl h
      · split
        · simp only [acceptReady]
          split <;> exact KeepsContext.same rfl _
        · exact KeepsContext.same rfl h
  | discardCall reason error =>
    simp only [stepCall, discardCall]
    by_cases htimeout : reason = .missedTimeout
    · simp only [htimeout, if_true]
      split
      · apply performDiscarded_keeps
        exact hctx
      · exact KeepsContext.same rfl _
    · rw [if_neg htimeout, setContextState_eq i (by simp) (by simp)]
      split
      · apply performDiscarded_keeps
        exact hctx
      · exact KeepsContext.same rfl _
  | cleanupContext => exact KeepsContext.gone h
  | session completed peerId => exact KeepsContext.same rfl h

/-! ## Steps -/

variable (crypto) in
/-- The step makes a call tell a state that is not final. -/
def Reopens (c : TGCallContext) : SlotEvent → Prop
  | .given (.waiting u) => ∃ w, c.context = some (.waiting w) ∧ w.receiveDate < u.receiveDate
  | .given (.confirmed u) => ∃ w, c.context = some (.waitingConfirm w) ∧ confirms crypto w u = true
  | .event (.answered (.phoneCall _ _ _ _)) => ∃ a callId accessHash key gA keyId,
      c.context = some (.accepted a) ∧ c.disposable = some (.confirmCall callId accessHash key gA keyId)
  | _ => False

theorem answered_keeps {a : AcceptedContext} (hpaired : Paired c) (hctx : c.context = some (.accepted a))
    {answer : TLPhoneCall} (hnot : ¬ Reopens crypto c (.event (.answered answer))) :
    KeepsContext c (stepCall crypto i ⟨some c, h⟩ (.answered answer)) := by
  obtain ⟨context, hcontext', -, hfits⟩ := hpaired
  obtain rfl : .accepted a = context := by simpa [hctx] using hcontext'
  cases hreq : c.disposable with
  | none =>
    rw [stepCall, answered, takeDisposable_none hreq]
    exact KeepsContext.same rfl h
  | some request =>
    rw [stepCall, answered, takeDisposable_some hreq]
    have hold := hfits request hreq
    have hdiscard : ∀ d, KeepsContext c (performCallContextTransition crypto i (.discarded d)
        ⟨some { c with disposable := none }, h⟩) := fun d =>
      performDiscarded_keeps crypto { c with disposable := none } hctx d
    cases request with
    | confirmCall callId accessHash key gA keyId =>
      cases answer with
      | phoneCall call gAOrB keyFingerprint connections =>
        exact absurd ⟨a, callId, accessHash, key, gA, keyId, hctx, hreq⟩ hnot
      | phoneCallDiscarded callId reason needsRating needsDebug => exact hdiscard _
      | _ => exact KeepsContext.gone _
    | discardCall callId accessHash reason =>
      obtain ⟨d, hd⟩ : ∃ d, (Request.discardCall callId accessHash reason).context answer = some (.discarded d) := by
        cases answer <;> exact ⟨_, rfl⟩
      simp only [Request.isSent, if_true, hd, withLocalReason]
      split <;> exact hdiscard _
    | _ => exact hold.elim

variable {event : SlotEvent}

theorem staysOver_of_not_reopens (hpaired : Paired c) (hadm : Admissible ⟨some c, h⟩ event)
    (hnot : ¬ Reopens crypto c event) : StaysOver crypto c event.update (stepSlot crypto i ⟨some c, h⟩ event) := by
  constructor
  · intro w u hctx hupd hlater
    obtain rfl := SlotEvent.eq_given hupd
    exact hnot ⟨w, hctx, hlater⟩
  · intro w u hctx hupd
    obtain rfl := SlotEvent.eq_given hupd
    by_contra hconf
    exact hnot ⟨w, hctx, by simpa using hconf⟩
  · intro a c' o hctx hc' hongoing
    have hkeeps : KeepsContext c (stepSlot crypto i ⟨some c, h⟩ event) := by
      cases event with
      | event event =>
        by_cases hanswered : ∃ answer, event = .answered answer
        · obtain ⟨answer, rfl⟩ := hanswered
          exact answered_keeps hpaired hctx hnot
        · exact stepCall_keeps hctx fun answer heq => hanswered ⟨answer, heq⟩
      | given u =>
        cases u with
        | discarded d => exact performDiscarded_keeps crypto c hctx d
        | ongoing o => cases hadm.1
        | _ =>
          rw [stepSlot, CallSlot.record_mk, perform_of_context hctx (by simp)]
          exact KeepsContext.same rfl _
      | outgoing peerId session | incoming q hasCallKit | declined q => simp [Admissible] at hadm
      | reset => exact KeepsContext.gone h
    rcases hkeeps c' hc' with hsame | ⟨d, hd⟩
    · rw [hsame, hctx] at hongoing
      cases hongoing
    · rw [hd] at hongoing
      cases hongoing

variable (crypto) in
/-- No call that has told a final state is reopened. -/
def StaysHungUp (m : TGCallManager) (e : ManagerEvent) : Prop :=
  ∀ i c event, m.callContexts i = some c → IsOver c → eventAt m i e = some event → ¬ Reopens crypto c event

theorem FinalInv.step (i : Nat) {s : CallSlot} (hs : SlotOk s) (hold : FinalInv s) (hadm : Admissible s event)
    (hnot : ∀ c, s.call = some c → IsOver c → ¬ Reopens crypto c event) : FinalInv (stepSlot crypto i s event) := by
  rcases hs.cases_step crypto i hadm with
    hsame | ⟨rfl, ⟨peerId, session, rfl⟩ | ⟨q, hasCallKit, rfl⟩ | ⟨q, rfl⟩⟩ | ⟨c, hc, hchange⟩
  · rwa [hsame]
  · obtain ⟨data, hdata, heq⟩ := newOutgoing_eq i peerId session
    rw [stepSlot, heq]
    constructor
    · simp [FinalStays]
    · rintro c ⟨⟩ ⟨x, hx, hfinal⟩
      obtain rfl : x = .reported data := by simpa using hx
      exact ⟨data, rfl, hfinal⟩
    · rintro c ⟨⟩ hover
      exact absurd hover (not_isOver_of_state rfl (by simp [hdata.1, isFinal]))
  · obtain ⟨data, hdata, heq⟩ := newIncoming_eq crypto i q hasCallKit
    rw [stepSlot, heq]
    constructor
    · simp [FinalStays, CallItem.isFinal]
    · rintro c ⟨⟩ ⟨x, hx, hfinal⟩
      obtain rfl | rfl : x = .given (.requested q) ∨ x = .reported data := by simpa using hx
      · cases hfinal
      · exact ⟨data, rfl, hfinal⟩
    · rintro c ⟨⟩ hover
      exact absurd hover (not_isOver_of_state rfl (by simp [hdata.1, isFinal]))
  · have hnew : FinalInv ⟨some (declinedCall q), [.given (.requested q)]⟩ := by
      constructor
      · simp [FinalStays]
      · rintro c ⟨⟩ ⟨x, hx, hfinal⟩
        obtain rfl : x = .given (.requested q) := by simpa using hx
        cases hfinal
      · rintro c ⟨⟩ ⟨data, hstate, -⟩
        cases hstate
    apply (newDeclined_change i q).final hnew
    rintro ⟨data, hstate, -⟩
    cases hstate
  · obtain ⟨call, history⟩ := s
    obtain rfl : call = some c := hc
    apply hchange.final
    · cases hupd : event.update with
      | none => simpa using hold
      | some u =>
        have hgiven : FinalInv ⟨some c, history ++ [.given u]⟩ := hold.quiet (by simp) rfl fun _ h => h
        exact hgiven
    · intro hover
      exact staysOver_of_not_reopens (hs.paired c rfl) hadm (hnot c rfl hover)

theorem Reopens.isOpen (hreopens : Reopens crypto c event) :
    ∃ items x, (stepSlot crypto i ⟨some c, h⟩ event).history = h ++ items ∧ x ∈ items ∧ x.isOpen = true := by
  cases event with
  | given context =>
    cases context with
    | waiting u =>
      obtain ⟨w, hctx, hlater⟩ := hreopens
      rw [stepSlot, CallSlot.record_mk, perform_of_context hctx (by simp), transitionFrom, transitionFromWaiting,
        if_pos hlater]
      simp only [CallSlot.setContext_some]
      rw [setContextState_eq i (by simp [stateOf]) (by simp [stateOf]), append_assoc]
      exact ⟨_, _, rfl, mem_append_right _ (mem_singleton_self _), rfl⟩
    | confirmed u =>
      obtain ⟨w, hctx, hconf⟩ := hreopens
      obtain ⟨data, hdata, heq⟩ := setOngoing_eq crypto i
        { u with key := w.key u.gA, keyFingerprint := keyFingerprint crypto (w.key u.gA) } u.gA c
        (h ++ [.given (.confirmed u)])
      rw [stepSlot, CallSlot.record_mk, perform_of_context hctx (by simp), transitionFrom,
        transitionFromWaitingConfirm, if_pos hconf, heq, append_assoc]
      refine ⟨_, _, rfl, mem_append_right _ (mem_singleton_self _), ?_⟩
      simp [CallItem.isOpen, hdata.1, isFinal]
    | _ => exact hreopens.elim
  | event event =>
    cases event with
    | answered answer =>
      cases answer with
      | phoneCall call gAOrB keyFingerprint connections =>
        obtain ⟨a, callId, accessHash, key, gA, keyId, hctx, hreq⟩ := hreopens
        have hopens : ∀ o, ∃ items x, (performCallContextTransition crypto i (.ongoing o)
            ⟨some { c with disposable := none }, h⟩).history = h ++ items ∧ x ∈ items ∧ x.isOpen = true := by
          intro o
          obtain ⟨data, hdata, heq⟩ := setOngoing_eq crypto i o a.gA { c with disposable := none } h
          rw [perform_of_context (c := { c with disposable := none }) hctx (by simp), transitionFrom,
            transitionFromAccepted, heq]
          refine ⟨_, _, rfl, mem_singleton_self _, ?_⟩
          simp [CallItem.isOpen, hdata.1, isFinal]
        rw [stepSlot, stepCall, answered, takeDisposable_some hreq]
        exact hopens _
      | _ => exact hreopens.elim
    | _ => exact hreopens.elim
  | _ => exact hreopens.elim

theorem staysHungUp_of_finalStays {before after : List ManagerEvent} {e : ManagerEvent}
    (hstays : ∀ i, FinalStays ((runManager crypto (before ++ e :: after)).slots i).history) :
    StaysHungUp crypto (runManager crypto before) e := by
  rintro i c event hc ⟨data, hstate, hfinal⟩ hev hreopens
  have htold := ((slotOk_run crypto before).2 i).told c hc data hstate
  obtain ⟨items, x, hitems, hx, hopen⟩ := hreopens.isOpen (i := i) (h := ((runManager crypto before).slots i).history)
  have hgrows : ((runManager crypto before).slots i).history ++ items <+:
      ((runManager crypto (before ++ e :: after)).slots i).history := by
    rw [← hitems, ← slot_of_callContexts hc, ← callContexts_step hev]
    apply history_grows
    exact ⟨after, by simp⟩
  have hboth := (hstays i).sublist hgrows.sublist
  have hnot := (pairwise_append.mp hboth).2.2 _ htold x hx hfinal
  rw [hopen] at hnot
  cases hnot

variable (crypto) in
/-- **Hanging up is final** in a run if and only if no step reopens a call that is over. -/
theorem finalStays_iff (events : List ManagerEvent) :
    (∀ i, FinalStays ((runManager crypto events).slots i).history) ↔
      AllSteps (stepManager crypto) (StaysHungUp crypto) .init events := by
  constructor
  · intro hstays
    rw [allSteps_iff_forall]
    rintro before e after rfl
    exact staysHungUp_of_finalStays hstays
  · intro hsteps i
    have hinv := (slots_invariant crypto (P := fun _ s => SlotOk s ∧ FinalInv s)
      (fun _ => ⟨slotOk_init, by constructor <;> simp [FinalStays]⟩)
      (fun _ _ i event hnot hevent hadmissible h => ⟨h.1.step hadmissible,
        h.2.step i h.1 hadmissible fun c hc hover => hnot i c event hc hover hevent⟩) hsteps).2
    exact (hinv i).2.stays

end

/-! ## A call that is taken up again -/

/-- The caller hangs up; then the other side accepts the call, and the confirmation is answered. -/
def hungUpCall : List ManagerEvent :=
  [.requestCall 2 false false, .call 0 (.configured goodConfig (drawOf 2)),
   .call 0 (.answered (.phoneCallWaiting callInfo 0)), .call 0 (.discardCall .hangup none),
   .update (.phoneCallAccepted callInfo [64]) (some 0) false,
   .call 0 (.answered (.phoneCall callInfo [64] 0 ⟨none, []⟩))]

def hungUpStates : List TGCallState :=
  ((runManager zeroCallCrypto hungUpCall).slots 0).history.filterMap fun
    | .reported data => some data.state
    | _ => none

/-- A call that the user has discarded becomes ongoing. -/
theorem hungUpCall_ongoing : hungUpStates = [.requesting, .waiting, .ending, .ongoing] ∧
    ¬ ∀ i, FinalStays ((runManager zeroCallCrypto hungUpCall).slots i).history := by
  refine ⟨by decide +kernel, fun hstays => ?_⟩
  have hnot : ¬ FinalStays ((runManager zeroCallCrypto hungUpCall).slots 0).history := by
    unfold FinalStays
    decide +kernel
  exact hnot (hstays 0)

end TelegramClient.Calls
