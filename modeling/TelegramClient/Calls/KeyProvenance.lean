import TelegramClient.Calls.CallSteps

/-!
# Where the key of a call comes from

What a call keeps of its handshake, in its contexts and in the signals that it waits for, is told by its history.

* `draw` : the random number of the call and its parameters; `IncomingCall`, `OutgoingCall` : who began the call;
* `KeyInv`, `KeyInv.step` : **all of it is kept by every step**, with anything that is assumed of the received values.
-/

namespace TelegramClient.Calls
open List

open MtProto Secret

/-! ## Histories -/

/-- The random number that the call has drawn, with its parameters. -/
def draw (h : List CallItem) : Option (AcceptedConfig × Bytes) :=
  h.findSome? fun
    | .drew config n => some (config, n)
    | _ => none

/-- The call has begun with this request of the other side. -/
def IncomingCall (h : List CallItem) (q : RequestedContext) : Prop := h.head? = some (.given (.requested q))

def OutgoingCall (h : List CallItem) : Prop := ∃ data, h.head? = some (.reported data)

variable {h : List CallItem}

theorem IncomingCall.not_outgoing {q : RequestedContext} (hin : IncomingCall h q) : ¬ OutgoingCall h := by
  rintro ⟨data, hout⟩
  rw [IncomingCall, hout] at hin
  cases hin

theorem draw_append {x : AcceptedConfig × Bytes} (hdraw : draw h = some x) (items : List CallItem) :
    draw (h ++ items) = some x := by
  rw [draw, findSome?_append, ← draw, hdraw]
  rfl

theorem draw_append_none {items : List CallItem} (hdraw : draw h = none) : draw (h ++ items) = draw items := by
  rw [draw, findSome?_append, ← draw, hdraw]
  rfl

theorem head?_append_of_some {x : CallItem} (hhead : h.head? = some x) (items : List CallItem) :
    (h ++ items).head? = some x := by
  cases h with
  | nil => cases hhead
  | cons y h => exact hhead

theorem IncomingCall.append {q : RequestedContext} (hin : IncomingCall h q) (items : List CallItem) :
    IncomingCall (h ++ items) q := head?_append_of_some hin items

theorem OutgoingCall.append (hout : OutgoingCall h) (items : List CallItem) : OutgoingCall (h ++ items) := by
  obtain ⟨data, hhead⟩ := hout
  exact ⟨data, head?_append_of_some hhead items⟩

/-! ## Keys -/

section
variable (crypto : CallCrypto) (Q : AcceptedConfig → Bytes → Prop)

/-- The key of a caller, who has received `gB`. -/
structure CallerKey (h : List CallItem) (key gA : Bytes) (config : AcceptedConfig) (a gB : Bytes) : Prop where
  outgoing : OutgoingCall h
  drawn : draw h = some (config, a)
  gA_eq : gA = gPower config.toDhConfig a
  received : ∃ u : AcceptedContext, .given (.accepted u) ∈ h ∧ u.gB = gB
  key_eq : key = outgoingKey (mtExp gB a config.p)
  value : Q config gB

/-- The key of a callee, who has received the request `q` and later `gA`. -/
structure CalleeKey (h : List CallItem) (key gA : Bytes) (config : AcceptedConfig) (b : Bytes) (q : RequestedContext) :
    Prop where
  incoming : IncomingCall h q
  drawn : draw h = some (config, b)
  sent : ∃ callId accessHash, .sent (.acceptCall callId accessHash (gPower config.toDhConfig b)) ∈ h
  received : ∃ u : ConfirmedContext, .given (.confirmed u) ∈ h ∧ u.gA = gA ∧ u.callId = q.callId ∧
    u.keyFingerprint = keyFingerprint crypto key
  commitment : (crypto.mtSha256 gA).toList = q.gAHash
  key_eq : key = outgoingKey (mtExp gA b config.p)
  value : Q config gA

def KeyOf (h : List CallItem) (key gA : Bytes) : Prop :=
  (∃ config a gB, CallerKey Q h key gA config a gB) ∨ ∃ config b q, CalleeKey crypto Q h key gA config b q

variable {key gA : Bytes} {config : AcceptedConfig}

theorem CallerKey.append {a gB : Bytes} (hkey : CallerKey Q h key gA config a gB)
    (items : List CallItem) : CallerKey Q (h ++ items) key gA config a gB := by
  obtain ⟨u, hu, hgB⟩ := hkey.received
  exact { hkey with
    outgoing := hkey.outgoing.append items
    drawn := draw_append hkey.drawn items
    received := ⟨u, mem_append_left _ hu, hgB⟩ }

theorem CalleeKey.append {b : Bytes} {q : RequestedContext}
    (hkey : CalleeKey crypto Q h key gA config b q) (items : List CallItem) :
    CalleeKey crypto Q (h ++ items) key gA config b q := by
  obtain ⟨u, hu, hreceived⟩ := hkey.received
  obtain ⟨callId, accessHash, hsent⟩ := hkey.sent
  exact { hkey with
    incoming := hkey.incoming.append items
    drawn := draw_append hkey.drawn items
    sent := ⟨callId, accessHash, mem_append_left _ hsent⟩
    received := ⟨u, mem_append_left _ hu, hreceived⟩ }

theorem KeyOf.append (hkey : KeyOf crypto Q h key gA) (items : List CallItem) :
    KeyOf crypto Q (h ++ items) key gA := by
  rcases hkey with ⟨config, a, gB, hkey⟩ | ⟨config, b, q, hkey⟩
  · exact .inl ⟨config, a, gB, hkey.append Q items⟩
  · exact .inr ⟨config, b, q, hkey.append crypto Q items⟩

/-! ## What is kept of the handshake -/

/-- The request that began the call, as far as it is kept. -/
def Requested (h : List CallItem) (callId : Int) (gAHash : Bytes) : Prop :=
  ∃ q, IncomingCall h q ∧ q.callId = callId ∧ q.gAHash = gAHash

/-- The parameters and the power of the number that the call has drawn. -/
def Powered (h : List CallItem) (config : AcceptedConfig) (n power : Bytes) : Prop :=
  draw h = some (config, n) ∧ power = gPower config.toDhConfig n

def ContextOk (h : List CallItem) : Context → Prop
  | .requesting => OutgoingCall h
  | .waiting w => OutgoingCall h ∧ ∃ config, w.dhConfig = some config ∧ Powered h config w.a w.gA
  | .requested q => Requested h q.callId q.gAHash
  | .received r => Requested h r.callId r.gAHash ∧ Powered h r.dhConfig r.b r.gB
  | .waitingConfirm w => Requested h w.callId w.gAHash ∧ draw h = some (w.dhConfig, w.b) ∧
      ∃ callId accessHash, .sent (.acceptCall callId accessHash (gPower w.dhConfig.toDhConfig w.b)) ∈ h
  | .accepted a => OutgoingCall h ∧ ∃ config n, Powered h config n a.gA
  | .ongoing o => o.keyFingerprint = keyFingerprint crypto o.key ∧ ∃ gA, KeyOf crypto Q h o.key gA
  | .confirmed _ | .discarded _ => True

def RequestOk (h : List CallItem) : Request → Prop
  | .requestedOutgoingCall _ => OutgoingCall h ∧ draw h = none
  | .requestCall a gA config => OutgoingCall h ∧ Powered h config a gA
  | .receivedIncomingCall q => Requested h q.callId q.gAHash ∧ draw h = none
  | .receivedCall r => Requested h r.callId r.gAHash ∧ Powered h r.dhConfig r.b r.gB
  | .acceptCall r => (Requested h r.callId r.gAHash ∧ Powered h r.dhConfig r.b r.gB) ∧
      .sent (.acceptCall r.callId r.accessHash r.gB) ∈ h
  | .confirmCall _ _ key gA keyId => keyId = keyFingerprint crypto key ∧ ∃ config a gB, CallerKey Q h key gA config a gB
  | .discardCall _ _ _ => True

def MessageOk (h : List CallItem) : CallMessage → Prop
  | .requestCall _ gAHash => ∃ config a gA, Powered h config a gA ∧ gAHash = (crypto.mtSha256 gA).toList
  | .acceptCall _ _ gB => ∃ config b, Powered h config b gB
  | .confirmCall _ _ gA _ => ∃ config a, Powered h config a gA
  | .receivedCall _ _ | .discardCall _ _ _ => True

def ReportOk (h : List CallItem) (data : TGCallStateData) : Prop :=
  data.state = .ongoing → ∃ connection gA, data.connection = some connection ∧ KeyOf crypto Q h connection.key gA ∧
    connection.keyHash = visKeyHash crypto connection.key gA

theorem Requested.append {callId : Int} {gAHash : Bytes} (hq : Requested h callId gAHash)
    (items : List CallItem) : Requested (h ++ items) callId gAHash := by
  obtain ⟨q, hin, hq⟩ := hq
  exact ⟨q, hin.append items, hq⟩

theorem powered_drew (hdraw : draw h = none) (config : AcceptedConfig) (n : Bytes) (items : List CallItem) :
    Powered (h ++ .drew config n :: items) config n (gPower config.toDhConfig n) := ⟨draw_append_none hdraw, rfl⟩

theorem Powered.append {n power : Bytes} (hn : Powered h config n power) (items : List CallItem) :
    Powered (h ++ items) config n power := ⟨draw_append hn.1 items, hn.2⟩

theorem ContextOk.append {context : Context} (hok : ContextOk crypto Q h context)
    (items : List CallItem) : ContextOk crypto Q (h ++ items) context := by
  cases context with
  | requesting => exact OutgoingCall.append hok items
  | waiting w =>
    obtain ⟨hout, config, hcfg, hn⟩ := hok
    exact ⟨hout.append items, config, hcfg, hn.append items⟩
  | requested q => exact Requested.append hok items
  | received r => exact ⟨hok.1.append items, hok.2.append items⟩
  | waitingConfirm w =>
    obtain ⟨hq, hdrawn, callId, accessHash, hsent⟩ := hok
    exact ⟨hq.append items, draw_append hdrawn items, callId, accessHash, mem_append_left _ hsent⟩
  | accepted a =>
    obtain ⟨hout, config, n, hn⟩ := hok
    exact ⟨hout.append items, config, n, hn.append items⟩
  | ongoing o =>
    obtain ⟨hfp, gA, hkey⟩ := hok
    exact ⟨hfp, gA, hkey.append crypto Q items⟩
  | confirmed u | discarded d => trivial

variable {items : List CallItem}

theorem RequestOk.append {request : Request} (hok : RequestOk crypto Q h request) (hitems : draw items = none) :
    RequestOk crypto Q (h ++ items) request := by
  cases request with
  | requestedOutgoingCall peerId | receivedIncomingCall q =>
    exact ⟨hok.1.append items, by rw [draw_append_none hok.2, hitems]⟩
  | requestCall a gA config | receivedCall r => exact ⟨hok.1.append items, hok.2.append items⟩
  | acceptCall r => exact ⟨⟨hok.1.1.append items, hok.1.2.append items⟩, mem_append_left _ hok.2⟩
  | confirmCall callId accessHash key gA keyId =>
    obtain ⟨hkeyId, config, a, gB, hkey⟩ := hok
    exact ⟨hkeyId, config, a, gB, hkey.append Q items⟩
  | discardCall callId accessHash reason => trivial

theorem MessageOk.append {message : CallMessage} (hok : MessageOk crypto h message)
    (items : List CallItem) : MessageOk crypto (h ++ items) message := by
  cases message with
  | requestCall peerId gAHash =>
    obtain ⟨config, a, gA, hn, hhash⟩ := hok
    exact ⟨config, a, gA, hn.append items, hhash⟩
  | acceptCall callId accessHash gB =>
    obtain ⟨config, b, hn⟩ := hok
    exact ⟨config, b, hn.append items⟩
  | confirmCall callId accessHash gA keyId =>
    obtain ⟨config, a, hn⟩ := hok
    exact ⟨config, a, hn.append items⟩
  | _ => trivial

variable {data : TGCallStateData}

theorem ReportOk.append (hok : ReportOk crypto Q h data) (items : List CallItem) :
    ReportOk crypto Q (h ++ items) data := fun hongoing => by
  obtain ⟨connection, gA, hconn, hkey, hhash⟩ := hok hongoing
  exact ⟨connection, gA, hconn, hkey.append crypto Q items, hhash⟩

/-! ## The invariant -/

/-- **What a call keeps is told by its history.** -/
structure KeyInv (s : CallSlot) : Prop where
  context : ∀ c, s.call = some c → ∀ context, c.context = some context → ContextOk crypto Q s.history context
  request : ∀ c, s.call = some c → ∀ request, c.disposable = some request → RequestOk crypto Q s.history request
  sent : ∀ message, .sent message ∈ s.history → MessageOk crypto s.history message
  reported : ∀ data, .reported data ∈ s.history → ReportOk crypto Q s.history data

structure ValuesOk (c : TGCallContext) (given : Option Context) : Prop where
  accepted : ∀ w u config, c.context = some (.waiting w) → given = some (.accepted u) → w.dhConfig = some config →
    Q config u.gB
  confirmed : ∀ w u, c.context = some (.waitingConfirm w) → given = some (.confirmed u) → confirms crypto w u = true →
    Q w.dhConfig u.gA

theorem keyInv_init : KeyInv crypto Q ⟨none, []⟩ := by
  constructor <;> simp

variable {crypto Q} {c : TGCallContext} {h : List CallItem}

theorem KeyInv.extend (hinv : KeyInv crypto Q ⟨some c, h⟩) {call : Option TGCallContext}
    (hctx : ∀ c', call = some c' → ∀ context, c'.context = some context → c.context = some context ∨
      ContextOk crypto Q (h ++ items) context) (hreq : ∀ c', call = some c' → ∀ request, c'.disposable = some request →
      (c.disposable = some request ∧ draw items = none) ∨ RequestOk crypto Q (h ++ items) request)
    (hsent : ∀ message, .sent message ∈ items → MessageOk crypto (h ++ items) message)
    (hrep : ∀ data, .reported data ∈ items → ReportOk crypto Q (h ++ items) data) :
    KeyInv crypto Q ⟨call, h ++ items⟩ where
  context := fun c' hc' context hc => by
    rcases hctx c' hc' context hc with hold | hnew
    · exact (hinv.context c rfl context hold).append crypto Q items
    · exact hnew
  request := fun c' hc' request hc => by
    rcases hreq c' hc' request hc with ⟨hold, hitems⟩ | hnew
    · exact (hinv.request c rfl request hold).append crypto Q hitems
    · exact hnew
  sent := fun message hm => by
    rcases mem_append.mp hm with hold | hnew
    · exact (hinv.sent message hold).append crypto items
    · exact hsent message hnew
  reported := fun data hm => by
    rcases mem_append.mp hm with hold | hnew
    · exact (hinv.reported data hold).append crypto Q items
    · exact hrep data hnew

variable {c' : TGCallContext}

theorem Drawn.request (hdrawn : Drawn c c' items) {request : Request} (hreq : c'.disposable = some request) :
    items = [] ∧ c.disposable = some request := by
  rcases hdrawn with ⟨hitems, hsame | hnone⟩ | ⟨config, n, taken, -, hnone, -⟩
  · exact ⟨hitems, hsame ▸ hreq⟩
  · rw [hnone] at hreq
    cases hreq
  · rw [hnone] at hreq
    cases hreq

theorem Drawn.not_mem (hdrawn : Drawn c c' items) {item : CallItem} (hitem : ∀ config n, item ≠ .drew config n) :
    item ∉ items := by
  rcases hdrawn with ⟨rfl, -⟩ | ⟨config, n, taken, rfl, -⟩
  · simp
  · simpa using hitem config n

theorem draw_reports (reports : List TGCallStateData) : draw (reports.map .reported) = none := by
  simp [draw, findSome?_eq_none_iff]

theorem reportOk_of_ne (hne : data.state ≠ .ongoing) : ReportOk crypto Q h data :=
  fun hongoing => absurd hongoing hne

theorem IsEnd.reportOk (hdata : IsEnd data) : ReportOk crypto Q h data :=
  reportOk_of_ne fun hongoing => by
    have hfinal := hdata.1
    rw [hongoing] at hfinal
    cases hfinal

theorem IsProgress.reportOk {state : TGCallState} (hdata : IsProgress data state) (hne : state ≠ .ongoing) :
    ReportOk crypto Q h data := reportOk_of_ne (hdata.1 ▸ hne)

section
variable (hinv : KeyInv crypto Q ⟨some c, h⟩)
include hinv

theorem KeyInv.told (hdrawn : Drawn c c' items) (reports : List TGCallStateData)
    (hreports : ∀ data ∈ reports, IsEnd data) {call : Option TGCallContext}
    (hcall : ∀ c'', call = some c'' → c'' = c')
    (hctx : call = some c' → ∀ context, c'.context = some context → c.context = some context ∨ ∃ d, context = .discarded d) :
    KeyInv crypto Q ⟨call, h ++ (items ++ reports.map .reported)⟩ := by
  apply hinv.extend
  · intro c'' hc'' context hc
    obtain rfl := hcall c'' hc''
    rcases hctx hc'' context hc with hold | ⟨d, rfl⟩
    · exact .inl hold
    · exact .inr trivial
  · intro c'' hc'' request hc
    obtain rfl := hcall c'' hc''
    obtain ⟨rfl, hold⟩ := hdrawn.request hc
    exact .inl ⟨hold, draw_reports reports⟩
  · intro message hm
    rcases mem_append.mp hm with hm | hm
    · exact absurd hm (hdrawn.not_mem (by simp))
    · simp at hm
  · intro data hm
    rcases mem_append.mp hm with hm | hm
    · exact absurd hm (hdrawn.not_mem (by simp))
    · exact (hreports data (by simpa using hm)).reportOk

theorem KeyInv.change {given : Option Context}
    (hgiven : ∀ context, given = some context → .given context ∈ h ∧ c.context.bind Context.callId = context.callId)
    (hvalues : ValuesOk crypto Q c given) {s : CallSlot} (hchange : Change crypto c h given s) : KeyInv crypto Q s := by
  have hcontexts := hinv.context c rfl
  have hreqs := hinv.request c rfl
  cases hchange with
  | same c' items hdrawn hctx =>
    simpa using hinv.told hdrawn [] (by simp) (by simp) fun _ context hc =>
      .inl (hctx ▸ hc)
  | removed c' items reports hdrawn hreports =>
    rw [append_assoc]
    exact hinv.told hdrawn reports hreports (by simp) (by simp)
  | discarded c' items reports d data hdrawn hctx hstate haccepting hdata hreports =>
    rw [append_assoc]
    apply hinv.told hdrawn reports hreports (by simp)
    intro _ context hc
    exact .inr ⟨d, by simpa [hctx] using hc.symm⟩
  | ending callId accessHash reason =>
    apply hinv.extend
    · rintro c' ⟨⟩ context hc
      exact .inl hc
    · rintro c' ⟨⟩ request ⟨⟩
      exact .inr trivial
    · simp [MessageOk]
    · simp
  | endingTold callId accessHash reason data hdata =>
    apply hinv.extend
    · rintro c' ⟨⟩ context hc
      exact .inl hc
    · rintro c' ⟨⟩ request ⟨⟩
      exact .inr trivial
    · simp [MessageOk]
    · simpa using hdata.reportOk
  | configuredOutgoing peerId config n hdisp =>
    obtain ⟨hout, hdraw⟩ := hreqs _ hdisp
    apply hinv.extend
    · rintro c' ⟨⟩ context hc
      exact .inl hc
    · rintro c' ⟨⟩ request ⟨⟩
      exact .inr ⟨hout.append _, powered_drew hdraw ..⟩
    · intro message hm
      obtain rfl : message = _ := by simpa using hm
      exact ⟨config, n, _, powered_drew hdraw .., rfl⟩
    · simp
  | configuredIncoming q config n hdisp =>
    obtain ⟨hq, hdraw⟩ := hreqs _ hdisp
    apply hinv.extend
    · rintro c' ⟨⟩ context hc
      exact .inl hc
    · rintro c' ⟨⟩ request ⟨⟩
      exact .inr ⟨hq.append _, powered_drew hdraw ..⟩
    · simp [MessageOk]
    · simp
  | waiting a gA config w data hctx hdisp hw hdata =>
    obtain ⟨hout, hn⟩ := hreqs _ hdisp
    obtain ⟨rfl, rfl, hcfg⟩ := hw
    apply hinv.extend
    · rintro c' ⟨⟩ context ⟨⟩
      exact .inr ⟨hout.append _, config, hcfg, hn.append _⟩
    · rintro c' ⟨⟩ request ⟨⟩
    · simp
    · simpa using hdata.reportOk (by simp)
  | waitingReceived w u w' data hctx hgiven' hlater hw' hdata =>
    obtain ⟨hout, config, hcfg, hn⟩ := hcontexts _ hctx
    subst hw'
    apply hinv.extend
    · rintro c' ⟨⟩ context ⟨⟩
      exact .inr ⟨hout.append _, config, hcfg, hn.append _⟩
    · rintro c' ⟨⟩ request hc
      exact .inl ⟨hc, rfl⟩
    · simp
    · simpa using hdata.reportOk (by simp)
  | accepted w u key hctx hgiven' hkey =>
    obtain ⟨hout, config, hcfg, hn⟩ := hcontexts _ hctx
    have hp : w.p = config.p := by simp [WaitingContext.p, hcfg]
    have hcaller : CallerKey Q h key w.gA config w.a u.gB := {
      outgoing := hout
      drawn := hn.1
      gA_eq := hn.2
      received := ⟨u, (hgiven _ hgiven').1, rfl⟩
      key_eq := by rw [hkey, hp]
      value := hvalues.accepted w u config hctx hgiven' hcfg }
    apply hinv.extend
    · rintro c' ⟨⟩ context ⟨⟩
      exact .inr ⟨hout.append _, config, w.a, hn.append _⟩
    · rintro c' ⟨⟩ request ⟨⟩
      exact .inr ⟨rfl, config, w.a, u.gB, hcaller.append Q _⟩
    · intro message hm
      obtain rfl : message = _ := by simpa using hm
      exact ⟨config, w.a, hn.append _⟩
    · simp
  | received q r data hctx hdisp haccepting hdata =>
    obtain ⟨hq, hn⟩ := hreqs _ hdisp
    apply hinv.extend
    · rintro c' ⟨⟩ context ⟨⟩
      exact .inr ⟨hq.append _, hn.append _⟩
    · rintro c' ⟨⟩ request ⟨⟩
    · simp
    · simpa using hdata.reportOk (by simp)
  | receivedAccepted q r data data' hctx hdisp hdata hdata' =>
    obtain ⟨hq, hn⟩ := hreqs _ hdisp
    apply hinv.extend
    · rintro c' ⟨⟩ context ⟨⟩
      exact .inr ⟨hq.append _, hn.append _⟩
    · rintro c' ⟨⟩ request ⟨⟩
      exact .inr ⟨⟨hq.append _, hn.append _⟩, by simp⟩
    · intro message hm
      obtain rfl : message = _ := by simpa using hm
      exact ⟨_, _, hn.append _⟩
    · intro data'' hm
      rcases (show data'' = data ∨ data'' = data' by simpa using hm) with rfl | rfl
      · exact hdata.reportOk (by simp)
      · exact hdata'.reportOk (by simp)
  | acceptNow r data data' hctx hstate hdata hdata' =>
    obtain ⟨hq, hn⟩ := hcontexts _ hctx
    apply hinv.extend
    · rintro c' ⟨⟩ context hc
      exact .inl hc
    · rintro c' ⟨⟩ request ⟨⟩
      exact .inr ⟨⟨hq.append _, hn.append _⟩, by simp⟩
    · intro message hm
      obtain rfl : message = _ := by simpa using hm
      exact ⟨_, _, hn.append _⟩
    · intro data'' hm
      obtain rfl : data'' = data' := by simpa using hm
      exact hdata'.reportOk (by simp)
  | waitingConfirm q r w hctx hdisp hw =>
    obtain ⟨⟨hq, hn⟩, hsent⟩ := hreqs _ hdisp
    obtain ⟨hcallId, hb, hhash, hcfg⟩ := hw
    rw [hn.2] at hsent
    rw [← append_nil h]
    apply hinv.extend
    · rintro c' ⟨⟩ context ⟨⟩
      rw [append_nil]
      refine .inr ⟨?_, ?_, ?_⟩
      · rw [hcallId, hhash]
        exact hq
      · rw [hb, hcfg]
        exact hn.1
      · rw [hb, hcfg]
        exact ⟨_, _, hsent⟩
    · rintro c' ⟨⟩ request ⟨⟩
    · simp
    · simp
  | confirmed w u o data hctx hgiven' hconf ho hdata =>
    obtain ⟨⟨q, hin, hcallId, hhash⟩, hdrawn, hsent⟩ := hcontexts _ hctx
    obtain ⟨hid, hkey, hfp⟩ := ho
    have hsameId : u.callId = w.callId := by
      have hid' := (hgiven _ hgiven').2
      rw [hctx] at hid'
      exact (Option.some.inj hid').symm
    have hboth : keyFingerprint crypto (w.key u.gA) = u.keyFingerprint ∧
        (crypto.mtSha256 u.gA).toList = w.gAHash := by simpa [confirms] using hconf
    have hcallee : CalleeKey crypto Q h o.key u.gA w.dhConfig w.b q := {
      incoming := hin
      drawn := hdrawn
      sent := hsent
      received := ⟨u, (hgiven _ hgiven').1, rfl, hsameId.trans hcallId.symm, by rw [hkey, hboth.1]⟩
      commitment := hboth.2.trans hhash.symm
      key_eq := by rw [hkey, WaitingConfirmContext.key, AcceptedConfig.incomingKey_mtExp]
      value := hvalues.confirmed w u hctx hgiven' hconf }
    have hkeyOf : KeyOf crypto Q h o.key u.gA := .inr ⟨_, _, _, hcallee⟩
    apply hinv.extend
    · rintro c' ⟨⟩ context ⟨⟩
      exact .inr ⟨hfp, u.gA, hkeyOf.append crypto Q _⟩
    · rintro c' ⟨⟩ request hc
      exact .inl ⟨hc, rfl⟩
    · simp
    · intro data' hm
      obtain rfl : data' = data := by simpa using hm
      exact fun _ => ⟨_, u.gA, hdata.2, hkeyOf.append crypto Q _, rfl⟩
  | ongoing a callId accessHash key gA keyId o data hctx hdisp ho hdata =>
    obtain ⟨-, config, n, hn⟩ := hcontexts _ hctx
    obtain ⟨hkeyId, config', a', gB, hcaller⟩ := hreqs _ hdisp
    obtain ⟨rfl, rfl⟩ := ho
    have hgA : gA = a.gA := by
      obtain ⟨rfl, rfl⟩ : config = config' ∧ n = a' := by simpa [hn.1] using hcaller.drawn
      rw [hcaller.gA_eq, hn.2]
    have hkeyOf : KeyOf crypto Q h o.key a.gA := .inl ⟨_, _, _, hgA ▸ hcaller⟩
    apply hinv.extend
    · rintro c' ⟨⟩ context ⟨⟩
      exact .inr ⟨hkeyId, a.gA, hkeyOf.append crypto Q _⟩
    · rintro c' ⟨⟩ request ⟨⟩
    · simp
    · intro data' hm
      obtain rfl : data' = data := by simpa using hm
      exact fun _ => ⟨_, a.gA, hdata.2, hkeyOf.append crypto Q _, rfl⟩

theorem KeyInv.given (context : Option Context) :
    KeyInv crypto Q ⟨some c, h ++ (context.map CallItem.given).toList⟩ := by
  apply hinv.extend
  · rintro c' ⟨⟩ context hc
    exact .inl hc
  · rintro c' ⟨⟩ request hc
    cases context <;> exact .inl ⟨hc, rfl⟩
  · cases context <;> simp
  · cases context <;> simp

end

theorem Admissible.update {event : SlotEvent} (h' : Admissible ⟨some c, h⟩ event) {context : Context}
    (hupd : event.update = some context) : .given context ∈ h ++ (event.update.map CallItem.given).toList ∧
      c.context.bind Context.callId = context.callId := by
  cases event with
  | given context' =>
    obtain ⟨-, c', hcall, hid⟩ := h'
    cases hcall
    obtain rfl : context' = context := Option.some.inj hupd
    exact ⟨by simp [SlotEvent.update], hid⟩
  | _ => cases hupd

variable (i : Nat)

theorem keyInv_outgoing (peerId : Int) (session : Option TGCallSession) :
    KeyInv crypto Q (newOutgoing i peerId session ⟨none, []⟩) := by
  obtain ⟨data, hdata, heq⟩ := newOutgoing_eq i peerId session
  rw [heq]
  constructor
  · rintro c ⟨⟩ context ⟨⟩
    exact ⟨data, rfl⟩
  · rintro c ⟨⟩ request ⟨⟩
    exact ⟨⟨data, rfl⟩, rfl⟩
  · simp
  · simpa using hdata.reportOk (by simp)

theorem keyInv_incoming (q : RequestedContext) (hasCallKit : Bool) :
    KeyInv crypto Q (newIncoming crypto i q hasCallKit ⟨none, []⟩) := by
  obtain ⟨data, hdata, heq⟩ := newIncoming_eq crypto i q hasCallKit
  rw [heq]
  constructor
  · rintro c ⟨⟩ context ⟨⟩
    exact ⟨q, rfl, rfl, rfl⟩
  · rintro c ⟨⟩ request ⟨⟩
    exact ⟨⟨q, rfl, rfl, rfl⟩, rfl⟩
  · simp
  · simpa using hdata.reportOk (by simp)

theorem keyInv_declined (q : RequestedContext) : KeyInv crypto Q (newDeclined crypto i q ⟨none, []⟩) := by
  have hold : KeyInv crypto Q ⟨some (declinedCall q), [.given (.requested q)]⟩ := by
    constructor
    · rintro c ⟨⟩ context ⟨⟩
      exact ⟨q, rfl, rfl, rfl⟩
    · rintro c ⟨⟩ request ⟨⟩
    · simp
    · simp
  exact hold.change (by simp) ⟨by simp, by simp⟩ (newDeclined_change i q)

/-- **Every step keeps what a call keeps right.** -/
theorem KeyInv.step {s : CallSlot} (hs : SlotOk s) (hinv : KeyInv crypto Q s) {event : SlotEvent}
    (hadm : Admissible s event) (hvalues : ∀ c, s.call = some c → ValuesOk crypto Q c event.update) :
    KeyInv crypto Q (stepSlot crypto i s event) := by
  rcases hs.cases_step crypto i hadm with
    hsame | ⟨rfl, ⟨peerId, session, rfl⟩ | ⟨q, hasCallKit, rfl⟩ | ⟨q, rfl⟩⟩ | ⟨c, hc, hchange⟩
  · rwa [hsame]
  · exact keyInv_outgoing i peerId session
  · exact keyInv_incoming i q hasCallKit
  · exact keyInv_declined i q
  · obtain ⟨call, history⟩ := s
    obtain rfl : call = some c := hc
    exact (hinv.given event.update).change (fun context hctx => hadm.update hctx) (hvalues c rfl) hchange

end

end TelegramClient.Calls
