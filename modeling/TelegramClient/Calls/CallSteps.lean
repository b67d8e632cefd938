import TelegramClient.Calls.CallEvents

/-!
# What a step does to a call

* `Paired` : the signal that a call waits for fits its context;
* `Change` : everything that a step can do to a call in the table; `stepSlot_change`, `SlotOk.cases_step`;
* `SlotOk` : what is true of every call in every run; `history_grows` : histories grow.
-/

namespace TelegramClient.Calls
open List

open MtProto Secret

section
variable (crypto : CallCrypto)

/-! ## What a step does -/

/-- The state is one of those of a call that is over or is being ended. -/
def TGCallState.isFinal : TGCallState → Bool
  | .ending | .ended | .busy | .noAnswer | .missed => true
  | _ => false

/-- The report that a call is over, without a connection. -/
def IsEnd (data : TGCallStateData) : Prop := data.state.isFinal = true ∧ data.connection = none

def IsProgress (data : TGCallStateData) (state : TGCallState) : Prop := data.state = state ∧ data.connection = none

def IsOngoing (data : TGCallStateData) (o : OngoingContext) (gA : Bytes) : Prop :=
  data.state = .ongoing ∧ data.connection = some ⟨o.key, visKeyHash crypto o.key gA, o.connections⟩

/-- The signal goes on or has ended, and a number has been drawn only if it has ended at that. -/
def Drawn (c c' : TGCallContext) (items : List CallItem) : Prop :=
  (items = [] ∧ (c'.disposable = c.disposable ∨ c'.disposable = none)) ∨
    ∃ config n request, items = [.drew config n] ∧ c'.disposable = none ∧ c.disposable = some request ∧
      request.isSent = false

def Fits : Context → Request → Prop
  | .discarded _, _ => True
  | .requesting, .requestedOutgoingCall _ | .requesting, .requestCall _ _ _ => True
  | .requested _, .receivedIncomingCall _ | .requested _, .receivedCall _ => True
  | .received _, .acceptCall _ => True
  | .accepted _, .confirmCall _ _ _ _ _ => True
  | _, .discardCall _ _ _ => True
  | _, _ => False

def Context.isKept : Context → Bool
  | .confirmed _ => false
  | _ => true

/-- The call has a context, and waits for what belongs to it. -/
def Paired (c : TGCallContext) : Prop :=
  ∃ context, c.context = some context ∧ context.isKept = true ∧
    ∀ request, c.disposable = some request → Fits context request

/-- Everything that a step can do to a call in the table. `given` is the update of the step. -/
inductive Change (c : TGCallContext) (h : List CallItem) (given : Option Context) : CallSlot → Prop where
  | same (c' : TGCallContext) (items : List CallItem) (hdrawn : Drawn c c' items) (hcontext : c'.context = c.context)
      (hstate : c'.state = c.state)
      (haccepting : c'.accepting = true → c.accepting = true ∨ ∃ data, c.state = some data ∧ data.state = .handshake) :
      Change c h given ⟨some c', h ++ items⟩
  | removed (c' : TGCallContext) (items : List CallItem) (reports : List TGCallStateData) (hdrawn : Drawn c c' items)
      (hreports : ∀ data ∈ reports, IsEnd data) : Change c h given ⟨none, h ++ items ++ reports.map .reported⟩
  | discarded (c' : TGCallContext) (items : List CallItem) (reports : List TGCallStateData) (d : DiscardedContext)
      (data : TGCallStateData) (hdrawn : Drawn c c' items) (hcontext : c'.context = some (.discarded d))
      (hstate : c'.state = some data) (haccepting : c'.accepting = false) (hdata : data ∈ reports)
      (hreports : ∀ data ∈ reports, IsEnd data) :
      Change c h given ⟨some c', h ++ items ++ reports.map .reported⟩
  | ending (callId accessHash : Int) (reason : TGCallDiscardReason) :
      Change c h given ⟨some { c with disposable := some (.discardCall callId accessHash reason) },
        h ++ [.sent (.discardCall callId accessHash (tlObjectForReason reason))]⟩
  | endingTold (callId accessHash : Int) (reason : TGCallDiscardReason) (data : TGCallStateData) (hdata : IsEnd data) :
      Change c h given ⟨some { c with
          disposable := some (.discardCall callId accessHash reason), state := some data, accepting := false },
        h ++ [.reported data, .sent (.discardCall callId accessHash (tlObjectForReason reason))]⟩
  | configuredOutgoing (peerId : Int) (config : AcceptedConfig) (n : Bytes)
      (hdisposable : c.disposable = some (.requestedOutgoingCall peerId)) :
      Change c h given ⟨some { c with disposable := some (.requestCall n (gPower config.toDhConfig n) config) },
        h ++ [.drew config n, .sent (.requestCall peerId (crypto.mtSha256 (gPower config.toDhConfig n)).toList)]⟩
  | configuredIncoming (q : RequestedContext) (config : AcceptedConfig) (n : Bytes)
      (hdisposable : c.disposable = some (.receivedIncomingCall q)) :
      Change c h given ⟨some { c with disposable := some (.receivedCall
          { q with dhConfig := config, b := n, gB := gPower config.toDhConfig n }) },
        h ++ [.drew config n, .sent (.receivedCall q.callId q.accessHash)]⟩
  | waiting (a gA : Bytes) (config : AcceptedConfig) (w : WaitingContext) (data : TGCallStateData)
      (hcontext : c.context = some .requesting) (hdisposable : c.disposable = some (.requestCall a gA config))
      (hw : w.a = a ∧ w.gA = gA ∧ w.dhConfig = some config) (hdata : IsProgress data .waiting) :
      Change c h given ⟨some { c with
          context := some (.waiting w), disposable := none, state := some data, accepting := false },
        h ++ [.reported data]⟩
  | waitingReceived (w u w' : WaitingContext) (data : TGCallStateData) (hcontext : c.context = some (.waiting w))
      (hgiven : given = some (.waiting u)) (hlater : w.receiveDate < u.receiveDate)
      (hw' : w' = { u with a := w.a, gA := w.gA, dhConfig := w.dhConfig })
      (hdata : IsProgress data .waitingReceived) :
      Change c h given ⟨some { c with context := some (.waiting w'), state := some data, accepting := false },
        h ++ [.reported data]⟩
  | accepted (w : WaitingContext) (u : AcceptedContext) (key : Bytes) (hcontext : c.context = some (.waiting w))
      (hgiven : given = some (.accepted u)) (hkey : key = outgoingKey (mtExp u.gB w.a w.p)) :
      Change c h given ⟨some { c with
          context := some (.accepted { u with gA := w.gA })
          disposable := some (.confirmCall u.callId u.accessHash key w.gA (keyFingerprint crypto key)) },
        h ++ [.sent (.confirmCall u.callId u.accessHash w.gA (keyFingerprint crypto key))]⟩
  | received (q : RequestedContext) (r : ReceivedContext) (data : TGCallStateData)
      (hcontext : c.context = some (.requested q)) (hdisposable : c.disposable = some (.receivedCall r))
      (haccepting : c.accepting = false) (hdata : IsProgress data .ready) :
      Change c h given ⟨some { c with context := some (.received r), disposable := none, state := some data },
        h ++ [.reported data]⟩
  | receivedAccepted (q : RequestedContext) (r : ReceivedContext) (data data' : TGCallStateData)
      (hcontext : c.context = some (.requested q)) (hdisposable : c.disposable = some (.receivedCall r))
      (hdata : IsProgress data .ready) (hdata' : IsProgress data' .accepting) :
      Change c h given ⟨some { c with
          context := some (.received r), disposable := some (.acceptCall r), state := some data', accepting := false },
        h ++ [.reported data, .reported data', .sent (.acceptCall r.callId r.accessHash r.gB)]⟩
  | acceptNow (r : ReceivedContext) (data data' : TGCallStateData) (hcontext : c.context = some (.received r))
      (hstate : c.state = some data) (hdata : data.state = .ready) (hdata' : IsProgress data' .accepting) :
      Change c h given ⟨some { c with disposable := some (.acceptCall r), state := some data', accepting := false },
        h ++ [.reported data', .sent (.acceptCall r.callId r.accessHash r.gB)]⟩
  | waitingConfirm (q r : ReceivedContext) (w : WaitingConfirmContext) (hcontext : c.context = some (.received q))
      (hdisposable : c.disposable = some (.acceptCall r))
      (hw : w.callId = r.callId ∧ w.b = r.b ∧ w.gAHash = r.gAHash ∧ w.dhConfig = r.dhConfig) :
      Change c h given ⟨some { c with context := some (.waitingConfirm w), disposable := none }, h⟩
  | confirmed (w : WaitingConfirmContext) (u : ConfirmedContext) (o : OngoingContext) (data : TGCallStateData)
      (hcontext : c.context = some (.waitingConfirm w)) (hgiven : given = some (.confirmed u))
      (hconfirms : confirms crypto w u = true)
      (ho : o.callId = u.callId ∧ o.key = w.key u.gA ∧ o.keyFingerprint = keyFingerprint crypto o.key)
      (hdata : IsOngoing crypto data o u.gA) :
      Change c h given ⟨some { c with context := some (.ongoing o), state := some data, accepting := false },
        h ++ [.reported data]⟩
  | ongoing (a : AcceptedContext) (callId accessHash : Int) (key gA : Bytes) (keyId : BitVec 64) (o : OngoingContext)
      (data : TGCallStateData) (hcontext : c.context = some (.accepted a))
      (hdisposable : c.disposable = some (.confirmCall callId accessHash key gA keyId))
      (ho : o.key = key ∧ o.keyFingerprint = keyId) (hdata : IsOngoing crypto data o a.gA) :
      Change c h given ⟨some { c with
          context := some (.ongoing o), disposable := none, state := some data, accepting := false },
        h ++ [.reported data]⟩

variable {data : TGCallStateData}

theorem setContextState_eq (i : Nat) (hhandshake : data.state ≠ .handshake) (hready : data.state ≠ .ready)
    (c : TGCallContext) (h : List CallItem) : setContextState i data ⟨some c, h⟩ =
      ⟨some { c with state := some data, accepting := false }, h ++ [.reported data]⟩ := by
  obtain ⟨context, session, disposable, state, accepting⟩ := c
  cases accepting with
  | false => rfl
  | true =>
    simp only [setContextState, if_true]
    cases hstate : data.state <;> simp_all [CallSlot.modify]

/-! ## The end of a call -/

/-- The signal has ended, or goes on; the rest is as before. -/
structure Continues (c c' : TGCallContext) (items : List CallItem) : Prop where
  drawn : Drawn c c' items
  context : c'.context = c.context
  state : c'.state = c.state
  accepting : c'.accepting = c.accepting

theorem Continues.refl (c : TGCallContext) : Continues c c [] := ⟨.inl ⟨rfl, .inl rfl⟩, rfl, rfl, rfl⟩

theorem Continues.taken (c : TGCallContext) : Continues c { c with disposable := none } [] :=
  ⟨.inl ⟨rfl, .inr rfl⟩, rfl, rfl, rfl⟩

variable {crypto} {i : Nat} {c c' : TGCallContext} {h items : List CallItem} {given : Option Context}

theorem Continues.same (hc : Continues c c' items) : Change crypto c h given ⟨some c', h ++ items⟩ :=
  .same c' items hc.drawn hc.context hc.state fun haccepting => .inl (hc.accepting ▸ haccepting)

theorem Continues.endCall (hc : Continues c c' items) (i : Nat) (error : Option String) :
    Change crypto c h given (endCall i error ⟨some c', h ++ items⟩) := by
  have hend : Change crypto c h given _ := .removed c' items [{ internalId := i, state := .ended, error := error }]
    hc.drawn (by simp [IsEnd, TGCallState.isFinal])
  rwa [Calls.endCall, setContextState_eq i (by simp) (by simp)]

theorem discardedState_isFinal (reason : TGCallDiscardReason) (outgoing : Bool) :
    (discardedState reason outgoing).isFinal = true := by
  cases reason <;> cases outgoing <;> rfl

theorem ne_of_isFinal {state : TGCallState} (h : state.isFinal = true) : state ≠ .handshake ∧ state ≠ .ready := by
  cases state <;> simp_all [TGCallState.isFinal]

theorem transitionToDiscarded_change (hdrawn : Drawn c c' items) (reports : List TGCallStateData)
    (hreports : ∀ data ∈ reports, IsEnd data) (context : Context) (d : DiscardedContext) : Change crypto c h given
      (transitionToDiscarded i context d ⟨some c', h ++ items ++ reports.map .reported⟩) := by
  have hfinal := discardedState_isFinal d.reason ((c'.session.map TGCallSession.outgoing).getD false)
  have hall : ∀ data, IsEnd data → ∀ data' ∈ reports ++ [data], IsEnd data' := fun data hdata data' hm => by
    rcases mem_append.mp hm with hm | hm
    · exact hreports data' hm
    · rwa [mem_singleton.mp hm]
  simp only [Calls.transitionToDiscarded, CallSlot.setContext_some]
  rw [setContextState_eq i (ne_of_isFinal hfinal).1 (ne_of_isFinal hfinal).2, append_assoc, ← map_singleton,
    ← map_append]
  split
  · exact .removed c' items _ hdrawn (hall _ ⟨hfinal, rfl⟩)
  · exact .discarded _ items _ d _ hdrawn rfl rfl rfl (by simp) (hall _ ⟨hfinal, rfl⟩)

variable {context : Context}

theorem Continues.discard (hc : Continues c c' items) (i : Nat) (hctx : c.context = some context)
    (d : DiscardedContext) :
    Change crypto c h given (performCallContextTransition crypto i (.discarded d) ⟨some c', h ++ items⟩) := by
  have hcontext' : c'.context = some context := hc.context.trans hctx
  simp only [performCallContextTransition, hcontext']
  cases context with
  | discarded d' => exact hc.same
  | _ => simpa using transitionToDiscarded_change (h := h) (i := i) hc.drawn [] (by simp) _ d

/-! ## Updates -/

variable {toContext : Context}

theorem perform_of_context (hctx : c.context = some context) (hne : ∀ d, toContext ≠ .discarded d) :
    performCallContextTransition crypto i toContext ⟨some c, h⟩ =
      transitionFrom crypto i context toContext ⟨some c, h⟩ := by
  simp only [performCallContextTransition, hctx]

theorem same_change (c : TGCallContext) : Change crypto c h given ⟨some c, h⟩ := by
  have hsame : Change crypto c h given _ := (Continues.refl c).same
  simpa using hsame

theorem endCall_change (c : TGCallContext) (i : Nat) (error : Option String) :
    Change crypto c h given (endCall i error ⟨some c, h⟩) := by
  have hend : Change crypto c h given _ := (Continues.refl c).endCall i error
  simpa using hend

theorem waiting_change {w : WaitingContext} (hctx : c.context = some (.waiting w)) (context : Context) :
    Change crypto c h (some context) (transitionFromWaiting crypto i w context ⟨some c, h⟩) := by
  cases context with
  | waiting u =>
    simp only [transitionFromWaiting]
    split
    next hlater =>
      rw [CallSlot.setContext_some, setContextState_eq i (by simp [stateOf]) (by simp [stateOf])]
      exact .waitingReceived w u _ _ hctx rfl hlater rfl ⟨rfl, rfl⟩
    · exact same_change c
  | accepted u => exact .accepted w u _ hctx rfl rfl
  | _ => exact endCall_change c i _

variable (crypto) in
theorem setOngoing_eq (i : Nat) (o : OngoingContext) (gA : Bytes) (c : TGCallContext) (h : List CallItem) :
    ∃ data, IsOngoing crypto data o gA ∧ setOngoing crypto i o gA ⟨some c, h⟩ =
      ⟨some { c with context := some (.ongoing o), state := some data, accepting := false },
        h ++ [.reported data]⟩ := by
  refine ⟨{ stateOf i o.toCallInfo .ongoing o.participantId with
    connection := some ⟨o.key, visKeyHash crypto o.key gA, o.connections⟩ }, ⟨rfl, rfl⟩, ?_⟩
  rw [setOngoing, CallSlot.setContext_some, setContextState_eq i (by simp [stateOf]) (by simp [stateOf])]

theorem waitingConfirm_change {w : WaitingConfirmContext} (hctx : c.context = some (.waitingConfirm w))
    (context : Context) :
    Change crypto c h (some context) (transitionFromWaitingConfirm crypto i w context ⟨some c, h⟩) := by
  cases context with
  | confirmed u =>
    simp only [transitionFromWaitingConfirm]
    split
    next hconf =>
      obtain ⟨data, hdata, heq⟩ := setOngoing_eq crypto i
        { u with key := w.key u.gA, keyFingerprint := keyFingerprint crypto (w.key u.gA) } u.gA c h
      rw [heq]
      exact .confirmed w u _ data hctx rfl hconf ⟨rfl, rfl, rfl⟩ hdata
    · exact endCall_change c i _
  | _ => exact same_change c

theorem given_change (hc : Paired c) (hupd : context.isUpdate = true)
    (hid : c.context.bind Context.callId = context.callId) :
    Change crypto c h (some context) (performCallContextTransition crypto i context ⟨some c, h⟩) := by
  obtain ⟨from', hfrom, hkept, -⟩ := hc
  by_cases hdisc : ∃ d, context = .discarded d
  · obtain ⟨d, rfl⟩ := hdisc
    simpa using (Continues.refl c).discard (h := h) i hfrom d
  · rw [perform_of_context hfrom (fun d hd => hdisc ⟨d, hd⟩)]
    cases from' with
    | requesting =>
      rw [hfrom, callId_of_isUpdate hupd] at hid
      cases hid
    | waiting w => exact waiting_change hfrom context
    | requested q =>
      cases context with
      | requested u => exact same_change c
      | waitingConfirm u | received u => cases hupd
      | _ => exact endCall_change c i _
    | received q =>
      cases context with
      | waitingConfirm u => cases hupd
      | _ => exact endCall_change c i _
    | waitingConfirm w => exact waitingConfirm_change hfrom context
    | accepted a =>
      cases context with
      | ongoing o => cases hupd
      | _ => exact same_change c
    | confirmed u => cases hkept
    | ongoing o =>
      cases context with
      | confirmed u => exact same_change c
      | _ => exact endCall_change c i _
    | discarded d => exact same_change c

/-! ## The signal of the call -/

variable {request : Request}

theorem takeDisposable_some (hreq : c.disposable = some request) :
    takeDisposable ⟨some c, h⟩ = some (request, ⟨some { c with disposable := none }, h⟩) := by
  simp [takeDisposable, hreq]

theorem takeDisposable_none (hreq : c.disposable = none) : takeDisposable ⟨some c, h⟩ = none := by
  simp [takeDisposable, hreq]

theorem Continues.requestFailed (hc : Continues c c' items) (i : Nat) (hctx : c.context = some context)
    (rpcError : Option String) (request : Request) :
    Change crypto c h given (requestFailed crypto i rpcError request ⟨some c', h ++ items⟩) := by
  cases request with
  | requestedOutgoingCall peerId | requestCall a gA config | acceptCall r | discardCall callId accessHash reason =>
    exact hc.discard i hctx _
  | receivedIncomingCall q | receivedCall r =>
    simp only [Calls.requestFailed]
    split
    · exact hc.same
    · exact hc.endCall i rpcError
  | confirmCall callId accessHash key gA keyId => exact hc.endCall i rpcError

theorem failed_change (hc : Paired c) (rpcError : Option String) :
    Change crypto c h given (failed crypto i rpcError ⟨some c, h⟩) := by
  obtain ⟨context, hctx, -, -⟩ := hc
  cases hreq : c.disposable with
  | none =>
    rw [failed, takeDisposable_none hreq]
    exact same_change c
  | some request =>
    rw [failed, takeDisposable_some hreq]
    simpa using (Continues.taken c).requestFailed (h := h) i hctx rpcError request

theorem timedOut_change (hc : Paired c) : Change crypto c h given (timedOut crypto i ⟨some c, h⟩) := by
  obtain ⟨context, hctx, -, -⟩ := hc
  cases hreq : c.disposable with
  | none =>
    rw [timedOut, takeDisposable_none hreq]
    exact same_change c
  | some request =>
    rw [timedOut, takeDisposable_some hreq]
    cases request with
    | discardCall callId accessHash reason => simpa using (Continues.taken c).discard (h := h) i hctx _
    | _ => exact same_change c

theorem configured_change (hc : Paired c) (config : AcceptedConfig) (n : Bytes) :
    Change crypto c h given (configured crypto i config n ⟨some c, h⟩) := by
  obtain ⟨context, hctx, -, -⟩ := hc
  cases hreq : c.disposable with
  | none =>
    rw [configured, takeDisposable_none hreq]
    exact same_change c
  | some request =>
    rw [configured, takeDisposable_some hreq]
    have hdrawn : request.isSent = false → Continues c { c with disposable := none } [.drew config n] := fun hsent =>
      ⟨.inr ⟨config, n, request, rfl, rfl, hreq, hsent⟩, rfl, rfl, rfl⟩
    cases request with
    | requestedOutgoingCall peerId =>
      simp only
      split
      · exact (hdrawn rfl).requestFailed i hctx none _
      · have hsent : Change crypto c h given _ := .configuredOutgoing peerId config n hreq
        simpa using hsent
    | receivedIncomingCall q =>
      simp only
      split
      · exact (hdrawn rfl).requestFailed i hctx none _
      · have hsent : Change crypto c h given _ := .configuredIncoming q config n hreq
        simpa using hsent
    | _ => exact same_change c

theorem perform_answer (hctx : c.context = some context) (request : Request) (hne : ∀ d, toContext ≠ .discarded d) :
    performCallContextTransition crypto i (withLocalReason request toContext) ⟨some { c with disposable := none }, h⟩ =
      transitionFrom crypto i context toContext ⟨some { c with disposable := none }, h⟩ := by
  have hsame : withLocalReason request toContext = toContext := by
    unfold withLocalReason
    split
    · exact absurd rfl (hne _)
    · rfl
  rw [hsame]
  exact perform_of_context (c := { c with disposable := none }) hctx hne

theorem discarded_change {d : DiscardedContext} (hctx : c.context = some (.discarded d)) (context : Context) :
    Change crypto c h given
      (performCallContextTransition crypto i context ⟨some { c with disposable := none }, h⟩) := by
  have hsame : Change crypto c h given _ := (Continues.taken c).same
  cases context <;> simpa [performCallContextTransition, hctx, transitionFrom] using hsame

theorem received_change {q : RequestedContext} {r : ReceivedContext} (hctx : c.context = some (.requested q))
    (hdisp : c.disposable = some (.receivedCall r)) : Change crypto c h given
      (transitionFromRequested i (.received r) ⟨some { c with disposable := none }, h⟩) := by
  obtain ⟨context, session, disposable, state, accepting⟩ := c
  cases accepting with
  | false =>
    exact .received q r (stateOf i r.toCallInfo .ready r.adminId) hctx hdisp rfl ⟨rfl, rfl⟩
  | true =>
    have hchange : Change crypto _ h given _ := .receivedAccepted q r
      (stateOf i r.toCallInfo .ready r.adminId)
      { internalId := i, callId := r.callId, accessHash := r.accessHash, state := .accepting, peerId := r.adminId }
      hctx hdisp ⟨rfl, rfl⟩ ⟨rfl, rfl⟩
    simpa [transitionFromRequested, setContextState, stateOf, acceptReady] using hchange

theorem answer_change (hc : Paired c) (hreq : c.disposable = some request) {answer : TLPhoneCall}
    (hanswer : request.context answer = some context) : Change crypto c h given
      (performCallContextTransition crypto i (withLocalReason request context)
        ⟨some { c with disposable := none }, h⟩) := by
  obtain ⟨from', hfrom, hkept, hfits⟩ := hc
  have hdiscard : ∀ d, Change crypto c h given (performCallContextTransition crypto i (.discarded d)
      ⟨some { c with disposable := none }, h⟩) := fun d => by
    simpa using (Continues.taken c).discard (h := h) i hfrom d
  cases request with
  | requestedOutgoingCall peerId | receivedIncomingCall q => cases answer <;> cases hanswer
  | requestCall a gA config =>
    cases answer <;> cases hanswer
    · cases from' with
      | requesting =>
        rw [perform_answer hfrom]
        · rw [transitionFrom, transitionFromRequesting, CallSlot.setContext_some,
            setContextState_eq i (by simp [stateOf]) (by simp [stateOf])]
          exact .waiting a gA config _ _ hfrom hreq ⟨rfl, rfl, rfl⟩ ⟨rfl, rfl⟩
        · simp
      | discarded d => exact discarded_change hfrom _
      | _ => exact (hfits _ hreq).elim
    · exact hdiscard _
  | receivedCall r =>
    obtain rfl : context = .received r := by cases answer <;> cases hanswer <;> rfl
    cases from' with
    | requested q =>
      rw [perform_answer hfrom]
      · exact received_change hfrom hreq
      · simp
    | discarded d => exact discarded_change hfrom _
    | _ => exact (hfits _ hreq).elim
  | acceptCall r =>
    cases answer <;> cases hanswer
    · cases from' with
      | received q =>
        rw [perform_answer hfrom]
        · exact .waitingConfirm q r _ hfrom hreq ⟨rfl, rfl, rfl, rfl⟩
        · simp
      | discarded d => exact discarded_change hfrom _
      | _ => exact (hfits _ hreq).elim
    · exact hdiscard _
  | confirmCall callId accessHash key gA keyId =>
    cases answer <;> cases hanswer
    · cases from' with
      | accepted a =>
        rw [perform_answer hfrom]
        · rw [transitionFrom, transitionFromAccepted]
          obtain ⟨data, hdata, heq⟩ := setOngoing_eq crypto i _ a.gA { c with disposable := none } h
          rw [heq]
          exact .ongoing a callId accessHash key gA keyId _ data hfrom hreq ⟨rfl, rfl⟩ hdata
        · simp
      | discarded d => exact discarded_change hfrom _
      | _ => exact (hfits _ hreq).elim
    · exact hdiscard _
  | discardCall callId accessHash reason =>
    obtain ⟨d, rfl⟩ : ∃ d, context = .discarded d := by cases answer <;> cases hanswer <;> exact ⟨_, rfl⟩
    simp only [withLocalReason]
    split <;> exact hdiscard _

theorem answered_change (hc : Paired c) (answer : TLPhoneCall) :
    Change crypto c h given (answered crypto i answer ⟨some c, h⟩) := by
  cases hreq : c.disposable with
  | none =>
    rw [answered, takeDisposable_none hreq]
    exact same_change c
  | some request =>
    rw [answered, takeDisposable_some hreq]
    simp only
    split
    · cases hanswer : request.context answer with
      | none =>
        obtain ⟨context, hctx, -, -⟩ := hc
        simpa using (Continues.taken c).requestFailed (h := h) i hctx none request
      | some context => exact answer_change hc hreq hanswer
    · exact same_change c

/-! ## The user -/

theorem acceptCall_change (c : TGCallContext) : Change crypto c h given (acceptCall i ⟨some c, h⟩) := by
  simp only [acceptCall]
  cases hstate : c.state with
  | none => exact same_change c
  | some data =>
    simp only
    split
    next hhandshake =>
      have hsame : Change crypto c h given _ := .same { c with accepting := true } []
        (.inl ⟨rfl, .inl rfl⟩) rfl rfl fun _ => .inr ⟨data, hstate, hhandshake⟩
      simpa [CallSlot.modify] using hsame
    · split
      next hready =>
        simp only [acceptReady]
        split
        next r hctx => exact .acceptNow r data _ hctx hstate hready ⟨rfl, rfl⟩
        · have hsame : Change crypto c h given _ := .same
            { c with accepting := false } [] (.inl ⟨rfl, .inl rfl⟩) rfl rfl (by simp)
          simpa [CallSlot.modify] using hsame
      · exact same_change c

theorem discardTold_change (hdata : IsEnd data) (hdrawn : Drawn c c' []) (hctx : c'.context = some context)
    (hstate : c'.state = some data) (haccepting : c'.accepting = false) (d : DiscardedContext) : Change crypto c h given
      (performCallContextTransition crypto i (.discarded d) ⟨some c', h ++ [.reported data]⟩) := by
  have hreports : ∀ data' ∈ [data], IsEnd data' := by simpa using hdata
  simp only [performCallContextTransition, hctx]
  cases context with
  | discarded d' =>
    have hkept : Change crypto c h given _ :=
      .discarded c' [] [data] d' data hdrawn hctx hstate haccepting (by simp) hreports
    simpa using hkept
  | _ => simpa using transitionToDiscarded_change (h := h) (i := i) hdrawn [data] hreports _ d

theorem discardCall_change (hc : Paired c) (reason : TGCallDiscardReason) (error : Option String) :
    Change crypto c h given (discardCall crypto i reason error ⟨some c, h⟩) := by
  obtain ⟨context, hctx, -, -⟩ := hc
  simp only [discardCall]
  by_cases htimeout : reason = .missedTimeout
  · simp only [htimeout, if_true]
    split
    · simpa using (Continues.refl c).discard (h := h) i hctx _
    · exact .ending _ _ .missedTimeout
  · rw [if_neg htimeout, setContextState_eq i (by simp) (by simp)]
    split
    · apply discardTold_change
      · exact ⟨rfl, rfl⟩
      · exact .inl ⟨rfl, .inl rfl⟩
      · exact hctx
      · rfl
      · rfl
    · rw [CallSlot.setDisposable_some, CallSlot.record_mk, append_assoc]
      exact .endingTold _ _ reason _ ⟨rfl, rfl⟩

/-! ## Steps -/

def SlotEvent.update : SlotEvent → Option Context
  | .given context => some context
  | _ => none

variable {event : SlotEvent}

/-- **What a step does to a call in the table.** An update is recorded first. -/
theorem stepSlot_change (hc : Paired c) (hadm : Admissible ⟨some c, h⟩ event) :
    Change crypto c (h ++ (event.update.map CallItem.given).toList) event.update
      (stepSlot crypto i ⟨some c, h⟩ event) := by
  cases event with
  | given context =>
    obtain ⟨hupd, c', hcall, hid⟩ := hadm
    obtain rfl : c = c' := by simpa using hcall
    exact given_change hc hupd hid
  | outgoing peerId session | incoming q hasCallKit | declined q => simp [Admissible] at hadm
  | reset =>
    have hrem : Change crypto c h none _ := .removed c [] [] (.inl ⟨rfl, .inl rfl⟩) (by simp)
    simpa [SlotEvent.update, stepSlot, cleanupContext] using hrem
  | event event =>
    simp only [SlotEvent.update, Option.map_none, Option.toList_none, append_nil, stepSlot]
    cases event with
    | configured config n => exact configured_change hc config n.toList
    | answered answer => exact answered_change hc answer
    | failed rpcError => exact failed_change hc rpcError
    | timedOut => exact timedOut_change hc
    | acceptCall => exact acceptCall_change c
    | discardCall reason error => exact discardCall_change hc reason error
    | cleanupContext =>
      have hrem : Change crypto c h none _ := .removed c [] [] (.inl ⟨rfl, .inl rfl⟩) (by simp)
      simpa [stepCall, cleanupContext] using hrem
    | session completed peerId =>
      have hsame : Change crypto c h none _ := .same
        { c with session := c.session.map fun session =>
          { session with completed := completed, peerId := peerId } } [] (.inl ⟨rfl, .inl rfl⟩) rfl rfl Or.inl
      simpa [stepCall, CallSlot.modify] using hsame

/-! ## Calls are paired -/

theorem Fits.of_drawn (hdrawn : Drawn c c' items)
    (hfits : ∀ request, c.disposable = some request → Fits context request) (hreq : c'.disposable = some request) :
    Fits context request := by
  rcases hdrawn with ⟨-, hsame | hnone⟩ | ⟨config, n, taken, -, hnone, -⟩
  · exact hfits request (hsame ▸ hreq)
  · rw [hnone] at hreq
    cases hreq
  · rw [hnone] at hreq
    cases hreq

variable {s : CallSlot}

theorem Change.paired (hc : Paired c) (hchange : Change crypto c h given s) (hc' : s.call = some c') : Paired c' := by
  obtain ⟨context, hctx, hkept, hfits⟩ := hc
  cases hchange with
  | same c₁ items hdrawn hsame =>
    cases hc'
    exact ⟨context, hsame.trans hctx, hkept, fun request => Fits.of_drawn hdrawn hfits⟩
  | removed => cases hc'
  | discarded c₁ items reports d data hdrawn hdisc =>
    cases hc'
    exact ⟨_, hdisc, rfl, fun _ _ => trivial⟩
  | ending | endingTold =>
    cases hc'
    refine ⟨context, hctx, hkept, fun request hreq => ?_⟩
    cases hreq
    cases context <;> trivial
  | configuredOutgoing peerId config n hdisp | configuredIncoming q config n hdisp =>
    cases hc'
    refine ⟨context, hctx, hkept, fun request hreq => ?_⟩
    have hold := hfits _ hdisp
    cases hreq
    cases context <;> trivial
  | waitingReceived w u w' data hwait =>
    cases hc'
    refine ⟨_, rfl, rfl, fun request hreq => ?_⟩
    obtain rfl : context = .waiting w := by simpa [hctx] using hwait
    have hold := hfits request hreq
    cases request <;> exact hold
  | acceptNow r data data' hreceived =>
    cases hc'
    refine ⟨_, hreceived, rfl, fun request hreq => ?_⟩
    cases hreq
    trivial
  | confirmed w u o data hconfirming =>
    cases hc'
    refine ⟨_, rfl, rfl, fun request hreq => ?_⟩
    obtain rfl : context = .waitingConfirm w := by simpa [hctx] using hconfirming
    have hold := hfits request hreq
    cases request <;> exact hold
  | _ =>
    cases hc'
    refine ⟨_, rfl, rfl, fun request hreq => ?_⟩
    cases hreq
    try trivial

/-! ## Histories grow -/

theorem Change.history_grows (hchange : Change crypto c h given s) : h <+: s.history := by
  cases hchange with
  | removed | discarded => exact ⟨_, (append_assoc _ _ _).symm⟩
  | waitingConfirm => exact prefix_rfl
  | _ => exact prefix_append _ _

def StateTold (s : CallSlot) : Prop :=
  ∀ c, s.call = some c → ∀ data, c.state = some data → .reported data ∈ s.history

theorem Change.stateTold (hc : ∀ data, c.state = some data → .reported data ∈ h) (hchange : Change crypto c h given s) :
    StateTold s := by
  rintro c' hc' data hdata
  cases hchange with
  | same c₁ items hdrawn hctx hstate =>
    cases hc'
    exact mem_append_left _ (hc data (hstate ▸ hdata))
  | removed => cases hc'
  | discarded c₁ items reports d data' hdrawn hctx hstate haccepting hm =>
    cases hc'
    obtain rfl : data' = data := Option.some.inj (hstate.symm.trans hdata)
    simp [hm]
  | ending | configuredOutgoing | configuredIncoming | accepted =>
    cases hc'
    exact mem_append_left _ (hc data hdata)
  | waitingConfirm =>
    cases hc'
    exact hc data hdata
  | _ =>
    cases hc'
    cases hdata
    simp

/-! ## New calls -/

theorem newOutgoing_eq (i : Nat) (peerId : Int) (session : Option TGCallSession) :
    ∃ data, IsProgress data .requesting ∧ newOutgoing i peerId session ⟨none, []⟩ =
      ⟨some ⟨some .requesting, session, some (.requestedOutgoingCall peerId), some data, false⟩, [.reported data]⟩ :=
  ⟨_, ⟨rfl, rfl⟩, rfl⟩

variable (crypto) in
theorem newIncoming_eq (i : Nat) (q : RequestedContext) (hasCallKit : Bool) :
    ∃ data, IsProgress data .handshake ∧ newIncoming crypto i q hasCallKit ⟨none, []⟩ =
      ⟨some ⟨some (.requested q), some ⟨false, hasCallKit, false, 0⟩, some (.receivedIncomingCall q), some data, false⟩,
        [.given (.requested q), .reported data]⟩ :=
  ⟨_, ⟨rfl, rfl⟩, rfl⟩

def declinedCall (q : RequestedContext) : TGCallContext :=
  ⟨some (.requested { q with declined := true }), some ⟨false, false, false, 0⟩, none, none, false⟩

theorem newDeclined_change (i : Nat) (q : RequestedContext) :
    Change crypto (declinedCall q) [.given (.requested q)] none (newDeclined crypto i q ⟨none, []⟩) :=
  discardCall_change ⟨_, rfl, rfl, by simp [declinedCall]⟩ .busy none

/-! ## All runs -/

structure SlotOk (s : CallSlot) : Prop where
  paired : ∀ c, s.call = some c → Paired c
  told : StateTold s

theorem slotOk_init : SlotOk ⟨none, []⟩ := by
  constructor <;> simp [StateTold]

theorem Change.slotOk (hc : Paired c) (htold : ∀ data, c.state = some data → .reported data ∈ h)
    (hchange : Change crypto c h given s) : SlotOk s :=
  ⟨fun _ hc' => hchange.paired hc hc', hchange.stateTold htold⟩

variable (crypto) in
/-- **What a step does to a call**: nothing, where the call is gone, or it begins the call, or it changes it. -/
theorem SlotOk.cases_step (hs : SlotOk s) (i : Nat) (hadm : Admissible s event) : stepSlot crypto i s event = s ∨
      (s = ⟨none, []⟩ ∧ ((∃ peerId session, event = .outgoing peerId session) ∨
        (∃ q hasCallKit, event = .incoming q hasCallKit) ∨ ∃ q, event = .declined q)) ∨
      ∃ c, s.call = some c ∧ Change crypto c (s.history ++ (event.update.map CallItem.given).toList) event.update
        (stepSlot crypto i s event) := by
  obtain ⟨call, history⟩ := s
  cases call with
  | some c => exact .inr (.inr ⟨c, rfl, stepSlot_change (hs.paired c rfl) hadm⟩)
  | none =>
    cases event with
    | event event => exact .inl (stepCall_none crypto i history event)
    | given context =>
      obtain ⟨-, c, hc, -⟩ := hadm
      cases hc
    | outgoing peerId session => exact .inr (.inl ⟨hadm, .inl ⟨_, _, rfl⟩⟩)
    | incoming q hasCallKit => exact .inr (.inl ⟨hadm, .inr (.inl ⟨_, _, rfl⟩)⟩)
    | declined q => exact .inr (.inl ⟨hadm, .inr (.inr ⟨_, rfl⟩)⟩)
    | reset => exact .inl rfl

theorem SlotOk.step (hs : SlotOk s) (hadm : Admissible s event) : SlotOk (stepSlot crypto i s event) := by
  rcases hs.cases_step crypto i hadm with
    hsame | ⟨rfl, ⟨peerId, session, rfl⟩ | ⟨q, hasCallKit, rfl⟩ | ⟨q, rfl⟩⟩ | ⟨c, hc, hchange⟩
  · rwa [hsame]
  · obtain ⟨data, -, heq⟩ := newOutgoing_eq i peerId session
    rw [stepSlot, heq]
    constructor
    · rintro c ⟨⟩
      exact ⟨_, rfl, rfl, by simp [Fits]⟩
    · rintro c ⟨⟩ data' ⟨⟩
      simp
  · obtain ⟨data, -, heq⟩ := newIncoming_eq crypto i q hasCallKit
    rw [stepSlot, heq]
    constructor
    · rintro c ⟨⟩
      exact ⟨_, rfl, rfl, by simp [Fits]⟩
    · rintro c ⟨⟩ data' ⟨⟩
      simp
  · exact (newDeclined_change i q).slotOk ⟨_, rfl, rfl, by simp [declinedCall]⟩ (by simp [declinedCall])
  · exact hchange.slotOk (hs.paired c hc) fun data hdata => mem_append_left _ (hs.told c hc data hdata)

theorem SlotOk.history_grows (hs : SlotOk s) (hadm : Admissible s event) :
    s.history <+: (stepSlot crypto i s event).history := by
  rcases hs.cases_step crypto i hadm with hsame | ⟨rfl, -⟩ | ⟨c, hc, hchange⟩
  · simp [hsame]
  · exact nil_prefix
  · exact (prefix_append _ _).trans hchange.history_grows

variable (crypto)

variable (events : List ManagerEvent)

theorem slotOk_run : Fresh (runManager crypto events) ∧ ∀ i, SlotOk ((runManager crypto events).slots i) :=
  slots_invariant_all crypto (fun _ => slotOk_init) (fun _ _ _ hadm hs => hs.step hadm) events

theorem runManager_append (e : ManagerEvent) :
    runManager crypto (events ++ [e]) = stepManager crypto (runManager crypto events) e := by
  simp [runManager]

theorem history_grows {before events : List ManagerEvent} (h : before <+: events) (i : Nat) :
    ((runManager crypto before).slots i).history <+: ((runManager crypto events).slots i).history := by
  obtain ⟨after, rfl⟩ := h
  induction after using List.reverseRecOn with
  | nil => simp
  | append_singleton after e ih =>
    obtain ⟨hfresh, hok⟩ := slotOk_run crypto (before ++ after)
    rw [← append_assoc, runManager_append, slots_stepManager]
    cases hev : eventAt (runManager crypto (before ++ after)) i e with
    | none => exact ih
    | some event => exact ih.trans ((hok i).history_grows (eventAt_admissible hfresh hev))

end

end TelegramClient.Calls
