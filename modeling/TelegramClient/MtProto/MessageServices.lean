import TelegramClient.MtProto.Process
import TelegramClient.MtProto.RequestService

/-!
# A new server session

`new_session_created` tells the message services which of their messages the server may have lost.

* `TimeSyncService`, `ResendService`, `TransportPing` : the services beside `RequestService`, with the ids that they wait for;
* **`newSession_leavesNobody_iff`** : the time sync is not told.
-/

namespace TelegramClient.MtProto
open List hiding get

open Function (update)

/-! ## The services -/

/-- The ids of `MTTimeSyncMessageService`, and whether it has salts. -/
structure TimeSyncService where
  currentMessageId : BitVec 64
  currentTransactionId : Option Nat
  hasFutureSalts : Bool
  deriving DecidableEq

structure ResendService where
  messageId : BitVec 64
  currentRequestMessageId : BitVec 64
  currentRequestTransactionId : Option Nat
  deriving DecidableEq

/-- What `MTTcpTransport` keeps of its ping. -/
structure TransportPing where
  currentActualizationPingMessageId : BitVec 64
  actualizationPingResendTimer : Bool
  deriving DecidableEq

def mayBeLost (firstValidMessageId : BitVec 64) (otherValidMessageIds : List (BitVec 64)) (messageId : BitVec 64) : Bool :=
  decide (messageId.toInt < firstValidMessageId.toInt) && !otherValidMessageIds.contains messageId

namespace TimeSyncService

/-- `mtProtoMessageTransaction:`, with the data of the message. -/
def messageTransaction (s : TimeSyncService) : Option Bytes × TimeSyncService :=
  if s.currentTransactionId.isNone then
    (some (leBits 0xb921bd04#32 ++ leBits (if s.hasFutureSalts then 1#32 else 32#32)),
      { s with currentMessageId := 0, currentTransactionId := none })
  else (none, s)

def completed (s : TimeSyncService) (messageId : BitVec 64) (transactionId : Nat) : TimeSyncService :=
  { s with currentMessageId := messageId, currentTransactionId := some transactionId }

/-- `mtProtoServerDidChangeSession:firstValidMessageId:messageIdsInFirstValidContainer:`. -/
def serverDidChangeSession (firstValidMessageId : BitVec 64) (messageIdsInFirstValidContainer : List (BitVec 64))
    (s : TimeSyncService) : TimeSyncService :=
  if s.currentMessageId ≠ 0 ∧ mayBeLost firstValidMessageId messageIdsInFirstValidContainer s.currentMessageId then
    { s with currentMessageId := 0, currentTransactionId := none }
  else s

end TimeSyncService

namespace ResendService

def messageTransaction (s : ResendService) : Option Bytes × ResendService :=
  if s.currentRequestMessageId = 0 ∨ s.currentRequestTransactionId.isNone then
    (some (leBits 0x7d861a08#32 ++ leBits 481674261#32 ++ leBits 1#32 ++ leBits s.messageId),
      { s with currentRequestTransactionId := none })
  else (none, s)

def completed (s : ResendService) (messageId : BitVec 64) (transactionId : Nat) : ResendService :=
  { s with currentRequestMessageId := messageId, currentRequestTransactionId := some transactionId }

def completesOnServerDidChangeSession (firstValidMessageId : BitVec 64) (otherValidMessageIds : List (BitVec 64))
    (s : ResendService) : Bool :=
  s.currentRequestMessageId != 0 && mayBeLost firstValidMessageId otherValidMessageIds s.currentRequestMessageId

end ResendService

/-- The block that the transport runs on its queue. -/
def TransportPing.serverDidChangeSession (firstValidMessageId : BitVec 64) (otherValidMessageIds : List (BitVec 64))
    (s : TransportPing) : TransportPing :=
  if s.currentActualizationPingMessageId ≠ 0 ∧
      mayBeLost firstValidMessageId otherValidMessageIds s.currentActualizationPingMessageId then ⟨0, false⟩
  else s

section
variable {ρ : Type}

def MTRequest.isLost (firstValidMessageId : BitVec 64) (otherValidMessageIds : List (BitVec 64)) (request : MTRequest ρ) :
    Bool :=
  request.requestContext.any fun context => mayBeLost firstValidMessageId otherValidMessageIds context.messageId

def requestsServerDidChangeSession (firstValidMessageId : BitVec 64) (otherValidMessageIds : List (BitVec 64))
    (s : RequestService ρ) : RequestService ρ :=
  mapRequests (fun request =>
    if request.isLost firstValidMessageId otherValidMessageIds then clearContext request else request) s

/-! ## The services as they are called -/

inductive ServiceRef where
  | requests (i : Nat)
  | timeSync (i : Nat)
  | resend (i : Nat)
  | tcpTransport (i : Nat)
  deriving DecidableEq

structure ServiceObjects (ρ : Type) where
  requests : Nat → RequestService ρ
  timeSyncs : Nat → TimeSyncService
  resends : Nat → ResendService
  transports : Nat → TransportPing

/-- The names under which a service may be told of a new server session:
`mtProtoServerDidChangeSession:firstValidMessageId:` with one of these at the end. -/
inductive ServerDidChangeSelector where
  | otherValidMessageIds
  | messageIdsInFirstValidContainer
  deriving DecidableEq

def ServiceRef.serverDidChangeSelector : ServiceRef → ServerDidChangeSelector
  | .timeSync _ => .messageIdsInFirstValidContainer
  | _ => .otherValidMessageIds

/-- `mtProtoServerDidChangeSession:firstValidMessageId:otherValidMessageIds:`. -/
def replyServerDidChangeSession (firstValidMessageId : BitVec 64) (otherValidMessageIds : List (BitVec 64))
    (rest : ProtoRest ServiceRef (ServiceObjects ρ)) : ServiceRef → Reply ServiceRef (ServiceObjects ρ)
  | .requests i =>
    let s := rest.others.requests i
    let resendSomeRequests := s.requests.any (MTRequest.isLost firstValidMessageId otherValidMessageIds)
    let s := requestsServerDidChangeSession firstValidMessageId otherValidMessageIds s
    ⟨{ rest with others := { rest.others with requests := update rest.others.requests i s } }, resendSomeRequests, false,
      none⟩
  | .timeSync _ => ⟨rest, false, false, none⟩
  | .resend i =>
    let completes := (rest.others.resends i).completesOnServerDidChangeSession firstValidMessageId otherValidMessageIds
    ⟨if completes then { rest with messageServices := rest.messageServices.filter (· != .resend i) } else rest, false,
      false, none⟩
  | .tcpTransport i =>
    let ping := (rest.others.transports i).serverDidChangeSession firstValidMessageId otherValidMessageIds
    ⟨{ rest with others := { rest.others with transports := update rest.others.transports i ping } }, false, false, none⟩

/-- Other calls are answered by `env`. -/
def serviceSurroundings {β : Type} (env : Surroundings ServiceRef β (ServiceObjects ρ)) :
    Surroundings ServiceRef β (ServiceObjects ρ) :=
  { env with
    respondsToSelector := fun service call =>
      match call with
      | .serverDidChangeSession _ _ => service.serverDidChangeSelector == .otherValidMessageIds
      | _ => env.respondsToSelector service call
    reply := fun service call rest =>
      match call with
      | .serverDidChangeSession firstValidMessageId otherValidMessageIds =>
        replyServerDidChangeSession firstValidMessageId otherValidMessageIds rest service
      | _ => env.reply service call rest }

/-! ## What a service waits for -/

/-- The message and the transaction are kept: the service neither sends the message again nor ends. -/
def Outstanding (objects : ServiceObjects ρ) (messageId : BitVec 64) : ServiceRef → Prop
  | .requests i => ∃ request ∈ (objects.requests i).requests, ∃ context, request.requestContext = some context ∧
    context.messageId = messageId ∧ context.transactionId.isSome = true
  | .timeSync i => (objects.timeSyncs i).currentMessageId = messageId ∧ messageId ≠ 0 ∧
    (objects.timeSyncs i).currentTransactionId.isSome = true
  | .resend i => (objects.resends i).currentRequestMessageId = messageId ∧ messageId ≠ 0 ∧
    (objects.resends i).currentRequestTransactionId.isSome = true
  | .tcpTransport i => (objects.transports i).currentActualizationPingMessageId = messageId ∧ messageId ≠ 0

variable {i : Nat}

theorem TimeSyncService.messageTransaction_of_outstanding {objects : ServiceObjects ρ} {messageId : BitVec 64}
    (h : Outstanding objects messageId (.timeSync i)) : (objects.timeSyncs i).messageTransaction.1 = none := by
  obtain ⟨transactionId, htrans⟩ := Option.isSome_iff_exists.mp h.2.2
  simp [messageTransaction, htrans]

/-- The message was sent in a container that the server has not lost. -/
def InValidContainer (session : MTSessionInfo) (firstValidMessageId messageId : BitVec 64) : Prop :=
  ∃ entry ∈ session.containerMessagesMapping, messageId ∈ entry.2 ∧ firstValidMessageId.toInt ≤ entry.1.toInt

/-- No service waits for a message that may be lost. -/
def LeavesNobody {β : Type} (s : ProtoState ServiceRef β (ServiceObjects ρ)) (firstValidMessageId : BitVec 64) : Prop :=
  ∀ service ∈ s.rest.messageServices, ∀ messageId, Outstanding s.rest.others messageId service →
    messageId.toInt < firstValidMessageId.toInt → InValidContainer s.session firstValidMessageId messageId

theorem mayBeLost_iff (session : MTSessionInfo) (firstValidMessageId messageId : BitVec 64) :
    mayBeLost firstValidMessageId (session.messageIdsInContainersAfterMessageId firstValidMessageId) messageId = true ↔
      messageId.toInt < firstValidMessageId.toInt ∧ ¬InValidContainer session firstValidMessageId messageId := by
  unfold mayBeLost
  rw [Bool.and_eq_true, decide_eq_true_eq, Bool.not_eq_true', ← Bool.not_eq_true, contains_iff_mem]
  refine and_congr_right fun hlt => not_congr ?_
  unfold MTSessionInfo.messageIdsInContainersAfterMessageId InValidContainer
  rw [mem_flatMap]
  refine exists_congr fun entry => and_congr_right fun _ => ?_
  rw [mem_filter, decide_eq_true_eq]
  refine and_congr_right fun _ => ⟨fun h => ?_, Or.inl⟩
  rcases h with h | h
  · exact h
  · omega

/-! ## The loop over the services -/

/-- Nothing that a service waits for may be lost. -/
def Settled (lost : BitVec 64 → Bool) (objects : ServiceObjects ρ) (service : ServiceRef) : Prop :=
  ∀ messageId, Outstanding objects messageId service → lost messageId = false

variable {β : Type}

/-- What the loop has done when the services before `i` are left. -/
structure Progress (lost : BitVec 64 → Bool) (s : ProtoState ServiceRef β (ServiceObjects ρ)) (i : Nat)
    (s' : ProtoState ServiceRef β (ServiceObjects ρ)) : Prop where
  session : s'.session = s.session
  timeSyncs : s'.rest.others.timeSyncs = s.rest.others.timeSyncs
  services : ∃ done, s'.rest.messageServices = s.rest.messageServices.take i ++ done ∧
    (∀ service ∈ done, service ∈ s.rest.messageServices.drop i) ∧
    (∀ k, .timeSync k ∈ s.rest.messageServices.drop i → .timeSync k ∈ done) ∧
    ∀ service ∈ done, (∀ k, service ≠ .timeSync k) → Settled lost s'.rest.others service

section
variable {firstValidMessageId : BitVec 64} {otherValidMessageIds : List (BitVec 64)}

variable (objects : ServiceObjects ρ)

theorem requests_settled (i : Nat) : Settled (mayBeLost firstValidMessageId otherValidMessageIds) { objects with
      requests := update objects.requests i
        (requestsServerDidChangeSession firstValidMessageId otherValidMessageIds (objects.requests i)) } (.requests i) := by
  rintro messageId ⟨request, hreq, context, hctx, rfl, -⟩
  simp only [Function.update_self, requestsServerDidChangeSession, mapRequests, mem_map] at hreq
  obtain ⟨old, -, rfl⟩ := hreq
  split at hctx
  · cases hctx
  · rename_i hkept
    simpa [MTRequest.isLost, hctx] using hkept

theorem transport_settled (i : Nat) : Settled (mayBeLost firstValidMessageId otherValidMessageIds) { objects with
      transports := update objects.transports i
        ((objects.transports i).serverDidChangeSession firstValidMessageId otherValidMessageIds) } (.tcpTransport i) := by
  rintro messageId ⟨hmsg, hne⟩
  simp only [Function.update_self, TransportPing.serverDidChangeSession] at hmsg
  split at hmsg
  · exact absurd hmsg.symm hne
  · rename_i hkept
    rw [← hmsg, ← Bool.not_eq_true]
    exact fun hlost => hkept ⟨hmsg ▸ hne, hlost⟩

theorem resend_settled {objects : ServiceObjects ρ}
    (h : ¬(objects.resends i).completesOnServerDidChangeSession firstValidMessageId otherValidMessageIds = true) :
    Settled (mayBeLost firstValidMessageId otherValidMessageIds) objects (.resend i) := by
  rintro messageId ⟨rfl, hne, -⟩
  rw [← Bool.not_eq_true]
  intro hlost
  refine h ?_
  rw [ResendService.completesOnServerDidChangeSession, hlost, Bool.and_true]
  exact bne_iff_ne.mpr hne

variable {lost : BitVec 64 → Bool} {service : ServiceRef}

theorem Settled.update_requests {objects : ServiceObjects ρ} (h : Settled lost objects service)
    (hne : service ≠ .requests i) (s : RequestService ρ) :
    Settled lost { objects with requests := update objects.requests i s } service := by
  cases service with
  | requests k =>
    have hk : k ≠ i := fun heq => hne (heq ▸ rfl)
    simpa [Settled, Outstanding, Function.update_of_ne hk] using h
  | _ => exact h

theorem Settled.update_transports {objects : ServiceObjects ρ} (h : Settled lost objects service)
    (hne : service ≠ .tcpTransport i) (ping : TransportPing) :
    Settled lost { objects with transports := update objects.transports i ping } service := by
  cases service with
  | tcpTransport k =>
    have hk : k ≠ i := fun heq => hne (heq ▸ rfl)
    simpa [Settled, Outstanding, Function.update_of_ne hk] using h
  | _ => exact h

end

variable (env : Surroundings ServiceRef β (ServiceObjects ρ))

theorem notify_serverDidChangeSession (service : ServiceRef) (firstValidMessageId : BitVec 64)
    (otherValidMessageIds : List (BitVec 64)) (s : ProtoState ServiceRef β (ServiceObjects ρ)) : ∃ s',
    notifyIfResponds (serviceSurroundings env) service
      (.serverDidChangeSession firstValidMessageId otherValidMessageIds) s = .ok () s' ∧ s'.session = s.session ∧
    s'.rest = (replyServerDidChangeSession firstValidMessageId otherValidMessageIds s.rest service).rest := by
  cases service with
  | requests i | resend i | tcpTransport i => exact ⟨_, rfl, rfl, rfl⟩
  | timeSync i => exact ⟨s, rfl, rfl, rfl⟩

variable {s s₁ : ProtoState ServiceRef β (ServiceObjects ρ)}

theorem Progress.round {lost : BitVec 64 → Bool} {firstValidMessageId : BitVec 64}
    {otherValidMessageIds : List (BitVec 64)} (hlost : lost = mayBeLost firstValidMessageId otherValidMessageIds)
    (hnd : s.rest.messageServices.Nodup) (h : Progress lost s (i + 1) s₁) {service : ServiceRef}
    (hservice : s.rest.messageServices[i]? = some service) {s₂ : ProtoState ServiceRef β (ServiceObjects ρ)}
    (hsess : s₂.session = s₁.session)
    (hrest : s₂.rest = (replyServerDidChangeSession firstValidMessageId otherValidMessageIds s₁.rest service).rest) :
    Progress lost s i s₂ := by
  subst hlost
  obtain ⟨done, hservices, hdone, htimeSyncs, hsettled⟩ := h.services
  obtain ⟨hlt, hget⟩ := List.getElem?_eq_some_iff.mp hservice
  have htake : s.rest.messageServices.take (i + 1) = s.rest.messageServices.take i ++ [service] := by
    rw [take_add_one, hservice]
    rfl
  have hdrop : s.rest.messageServices.drop i = service :: s.rest.messageServices.drop (i + 1) := by
    rw [drop_eq_getElem_cons hlt, hget]
  have hsplit := take_append_drop i s.rest.messageServices
  rw [← hsplit, hdrop, nodup_append] at hnd
  obtain ⟨-, hlater, hearlier⟩ := hnd
  rw [nodup_cons] at hlater
  have hother : ∀ other ∈ done, other ≠ service := by
    rintro other hm rfl
    exact hlater.1 (hdone other hm)
  -- the service stays: it is settled, or it is a time sync
  have hstays : s₂.rest.messageServices = s₁.rest.messageServices →
      s₂.rest.others.timeSyncs = s₁.rest.others.timeSyncs → (∀ other ∈ done, (∀ k, other ≠ .timeSync k) →
        Settled (mayBeLost firstValidMessageId otherValidMessageIds) s₂.rest.others other) →
      ((∀ k, service ≠ .timeSync k) →
        Settled (mayBeLost firstValidMessageId otherValidMessageIds) s₂.rest.others service) →
      Progress (mayBeLost firstValidMessageId otherValidMessageIds) s i s₂ := by
    intro hsame hsync hkeep hself
    refine ⟨hsess.trans h.session, hsync.trans h.timeSyncs, service :: done, ?_, ?_, ?_, ?_⟩
    · rw [hsame, hservices, htake, append_assoc]
      rfl
    · rw [hdrop]
      exact fun other hm => (mem_cons.mp hm).elim (fun heq => heq ▸ mem_cons_self)
        fun hm => mem_cons_of_mem _ (hdone other hm)
    · rw [hdrop]
      exact fun k hm => (mem_cons.mp hm).elim (fun heq => heq ▸ mem_cons_self)
        fun hm => mem_cons_of_mem _ (htimeSyncs k hm)
    · intro other hm hne
      rcases mem_cons.mp hm with rfl | hm
      · exact hself hne
      · exact hkeep other hm hne
  cases service with
  | requests k =>
    refine hstays (by rw [hrest]; rfl) (by rw [hrest]; rfl) (fun other hm hne => ?_) fun _ => ?_
    · rw [hrest]
      exact (hsettled other hm hne).update_requests (hother other hm) _
    · rw [hrest]
      exact requests_settled s₁.rest.others k
  | timeSync k =>
    refine hstays (by rw [hrest]; rfl) (by rw [hrest]; rfl) (fun other hm hne => ?_) fun hne => absurd rfl (hne k)
    rw [hrest]
    exact hsettled other hm hne
  | tcpTransport k =>
    refine hstays (by rw [hrest]; rfl) (by rw [hrest]; rfl) (fun other hm hne => ?_) fun _ => ?_
    · rw [hrest]
      exact (hsettled other hm hne).update_transports (hother other hm) _
    · rw [hrest]
      exact transport_settled s₁.rest.others k
  | resend k =>
    by_cases hcompletes : (s₁.rest.others.resends k).completesOnServerDidChangeSession firstValidMessageId
        otherValidMessageIds = true
    · -- the service has been removed
      have hrest : s₂.rest = { s₁.rest with messageServices := s₁.rest.messageServices.filter (· != .resend k) } := by
        rw [hrest]
        exact if_pos hcompletes
      refine ⟨hsess.trans h.session, by rw [hrest]; exact h.timeSyncs, done, ?_, ?_, ?_, ?_⟩
      · have hbefore : (s.rest.messageServices.take i).filter (· != .resend k) = s.rest.messageServices.take i := by
          rw [filter_eq_self]
          intro other hm
          exact bne_iff_ne.mpr (hearlier other hm _ mem_cons_self)
        have hafter : done.filter (· != .resend k) = done := by
          rw [filter_eq_self]
          exact fun other hm => bne_iff_ne.mpr (hother other hm)
        rw [hrest]
        show s₁.rest.messageServices.filter (· != .resend k) = _
        rw [hservices, htake, filter_append, filter_append, hbefore, hafter]
        simp
      · rw [hdrop]
        exact fun other hm => mem_cons_of_mem _ (hdone other hm)
      · rw [hdrop]
        intro j hm
        exact htimeSyncs j ((mem_cons.mp hm).resolve_left (by simp))
      · rw [hrest]
        exact hsettled
    · have hrest : s₂.rest = s₁.rest := by
        rw [hrest]
        exact if_neg hcompletes
      refine hstays (by rw [hrest]) (by rw [hrest]) (fun other hm hne => ?_) fun _ => ?_
      · rw [hrest]
        exact hsettled other hm hne
      · rw [hrest]
        exact resend_settled hcompletes

variable (firstValidMessageId : BitVec 64)

theorem newSession_progress (hnd : s.rest.messageServices.Nodup) (i : Nat) (hi : i ≤ s.rest.messageServices.length) (h : Progress (mayBeLost firstValidMessageId (s.session.messageIdsInContainersAfterMessageId firstValidMessageId)) s i
      s₁) : ∃ s',
    forEachService (fun messageService => do
      let s ← get
      notifyIfResponds (serviceSurroundings env) messageService (.serverDidChangeSession firstValidMessageId
        (s.session.messageIdsInContainersAfterMessageId firstValidMessageId))) i s₁ = .ok () s' ∧
    Progress (mayBeLost firstValidMessageId (s.session.messageIdsInContainersAfterMessageId firstValidMessageId)) s 0
      s' := by
  induction i generalizing s₁ with
  | zero => exact ⟨s₁, rfl, h⟩
  | succ i ih =>
    obtain ⟨service, hservice⟩ : ∃ service, s.rest.messageServices[i]? = some service :=
      ⟨_, getElem?_eq_getElem (by omega)⟩
    obtain ⟨done, hservices, -⟩ := h.services
    have hget : s₁.rest.messageServices[i]? = some service := by
      rw [hservices, getElem?_append_left (by rw [length_take]; omega), getElem?_take,
        if_pos (Nat.lt_succ_self i)]
      exact hservice
    obtain ⟨s₂, hrun, hsess, hrest⟩ := notify_serverDidChangeSession env service firstValidMessageId
      (s.session.messageIdsInContainersAfterMessageId firstValidMessageId) s₁
    obtain ⟨s', hloop, hprogress⟩ := ih (by omega) (h.round rfl hnd hservice hsess hrest)
    refine ⟨s', ?_, hprogress⟩
    rw [forEachService, get_bind_apply, hget]
    refine (bind_of_ok (?_ : _ = EStateM.Result.ok () s₂)).trans hloop
    rw [get_bind_apply, h.session]
    exact hrun

/-- `new_session_created` is handled, and nobody waits for a message that may be lost if and only if no time sync did. -/
theorem processNewSession_leavesNobody_iff (s : ProtoState ServiceRef β (ServiceObjects ρ))
    (hnd : s.rest.messageServices.Nodup) : ∃ s',
    processNewSession (serviceSurroundings env) firstValidMessageId s = .ok () s' ∧
    (LeavesNobody s' firstValidMessageId ↔ ∀ k, .timeSync k ∈ s.rest.messageServices → ∀ messageId,
      Outstanding s.rest.others messageId (.timeSync k) → messageId.toInt < firstValidMessageId.toInt →
      InValidContainer s.session firstValidMessageId messageId) := by
  have hstart : Progress (mayBeLost firstValidMessageId
      (s.session.messageIdsInContainersAfterMessageId firstValidMessageId)) s s.rest.messageServices.length s :=
    ⟨rfl, rfl, [], by simp, fun _ hm => (nomatch hm), fun _ hm => by simp at hm, fun _ hm => (nomatch hm)⟩
  obtain ⟨s', hloop, hsess, htimeSyncs, done, hservices, hdone, hkept, hsettled⟩ :=
    newSession_progress env firstValidMessageId hnd _ (Nat.le_refl _) hstart
  refine ⟨s', hloop, ?_⟩
  have hservices : s'.rest.messageServices = done := by simpa using hservices
  have hsame : ∀ messageId k, Outstanding s'.rest.others messageId (.timeSync k) ↔
      Outstanding s.rest.others messageId (.timeSync k) := by
    intro messageId k
    unfold Outstanding
    rw [htimeSyncs]
  unfold LeavesNobody
  rw [hservices, hsess]
  constructor
  · intro hnobody k hk messageId hwaits
    exact hnobody _ (hkept k hk) messageId ((hsame messageId k).mpr hwaits)
  · intro hsync service hm messageId hwaits hlt
    by_cases hk : ∃ k, service = .timeSync k
    · obtain ⟨k, rfl⟩ := hk
      exact hsync k (by simpa using hdone _ hm) messageId ((hsame messageId k).mp hwaits) hlt
    · have hkept := hsettled service hm (fun k heq => hk ⟨k, heq⟩) messageId hwaits
      by_contra hcont
      rw [(mayBeLost_iff s.session firstValidMessageId messageId).mpr ⟨hlt, hcont⟩] at hkept
      cases hkept

/-! ## The message -/

theorem confirmContentMessage_frame (useUnauthorizedMode : Bool) (message : MTIncomingMessage β)
    (s : ProtoState ServiceRef β (ServiceObjects ρ)) : ∃ s', confirmContentMessage useUnauthorizedMode message s = .ok () s' ∧
      s'.rest = s.rest ∧ s'.session.containerMessagesMapping = s.session.containerMessagesMapping := by
  have hschedule : ∀ (session : MTSessionInfo) (messageId : BitVec 64) (size : Int),
      (session.scheduleMessageConfirmation messageId size).containerMessagesMapping =
        session.containerMessagesMapping := by
    intro session messageId size
    unfold MTSessionInfo.scheduleMessageConfirmation
    split <;> rfl
  unfold confirmContentMessage
  split
  · have hstep : (scheduleMessageConfirmation message.messageId message.size.toInt :
        ProtoM ServiceRef β (ServiceObjects ρ) Unit) s = .ok () { s with
      session := s.session.scheduleMessageConfirmation message.messageId message.size.toInt } := rfl
    unfold confirmMessage
    rw [bind_of_ok hstep, get_bind_apply]
    unfold requestTransactionIf
    split
    · exact ⟨_, rfl, rfl, hschedule _ _ _⟩
    · exact ⟨_, rfl, rfl, hschedule _ _ _⟩
  · exact ⟨s, rfl, rfl, rfl⟩

/-- After `new_session_created` nobody waits for a message below the first valid id that was in no container from there
on, if and only if no time sync did when the message came. A service is added only once. -/
theorem newSession_leavesNobody_iff (env : Surroundings ServiceRef β (ServiceObjects ρ)) (useUnauthorizedMode : Bool)
    (delivery : Delivery) (message : MTIncomingMessage β) (firstValidMessageId uniqueId serverSalt : BitVec 64)
    (hbody : message.body = .inl (.newSessionCreated firstValidMessageId uniqueId serverSalt))
    (s : ProtoState ServiceRef β (ServiceObjects ρ)) (hnew : s.session.messageProcessed message.messageId = false)
    (hnodup : s.rest.messageServices.Nodup) : ∃ s',
    processIncomingMessage (serviceSurroundings env) useUnauthorizedMode delivery message s = .ok () s' ∧
    (LeavesNobody s' firstValidMessageId ↔ ∀ k, .timeSync k ∈ s.rest.messageServices → ∀ messageId,
      Outstanding s.rest.others messageId (.timeSync k) → messageId.toInt < firstValidMessageId.toInt →
      InValidContainer s.session firstValidMessageId messageId) := by
  obtain ⟨s₁, hconfirm, hrest, hcontainers⟩ := confirmContentMessage_frame useUnauthorizedMode message
    { s with session := s.session.setMessageProcessed message.messageId }
  obtain ⟨s', hprocess, hiff⟩ := processNewSession_leavesNobody_iff env firstValidMessageId s₁ (hrest ▸ hnodup)
  refine ⟨s', ?_, ?_⟩
  · unfold processIncomingMessage
    rw [get_bind_apply, hnew]
    show (do
      confirmContentMessage useUnauthorizedMode message
      dispatchMessage (serviceSurroundings env) useUnauthorizedMode delivery message)
      { s with session := s.session.setMessageProcessed message.messageId } = _
    rw [bind_of_ok hconfirm]
    unfold dispatchMessage
    rw [hbody]
    exact hprocess
  · rw [hiff, hrest]
    unfold InValidContainer
    rw [hcontainers]
    rfl

end

/-! ## A time sync that waits for ever -/

def lostPing : ServiceObjects Unit where
  requests _ := initRequests
  timeSyncs _ := ⟨0, none, false⟩
  resends i := ⟨BitVec.ofNat 64 i, 0, none⟩
  transports _ := ⟨4, true⟩

def lostTimeSync : ServiceObjects Unit :=
  { lostPing with timeSyncs := fun _ => TimeSyncService.completed ⟨0, none, false⟩ 8 1 }

/-- A time sync, a resend service, the requests and the transport, in a new session. -/
def connectedServices (objects : ServiceObjects Unit) : ProtoState ServiceRef Unit (ServiceObjects Unit) where
  session := MTSessionInfo.initWithSessionId 1
  willRequestTransactionOnNextQueuePass := false
  rest := ⟨0, none, none, [.requests 0, .tcpTransport 0, .timeSync 0, .resend 7], objects⟩
  epoch := 0
  actions := []
  log := []

def silentSurroundings : Surroundings ServiceRef Unit (ServiceObjects Unit) where
  respondsToSelector _ _ := false
  reply _ _ rest := ⟨rest, false, false, none⟩
  perform _ rest := (rest, false)
  alreadyRequesting _ _ := false
  randomSessionId epoch := BitVec.ofNat 64 epoch

/-- The messages before the id 16 may have been lost. -/
def newSession : MTIncomingMessage Unit := ⟨21, 1, 0, 0, 28, .inl (.newSessionCreated 16 0 0)⟩

theorem newSession_leavesNobody_ping : ∃ s',
    processIncomingMessage (serviceSurroundings silentSurroundings) false ⟨0, false⟩ newSession
      (connectedServices lostPing) = .ok () s' ∧
    (LeavesNobody s' 16 ↔ ∀ k, .timeSync k ∈ (connectedServices lostPing).rest.messageServices → ∀ messageId,
      Outstanding lostPing messageId (.timeSync k) → messageId.toInt < (16 : BitVec 64).toInt →
      InValidContainer (connectedServices lostPing).session 16 messageId) :=
  newSession_leavesNobody_iff silentSurroundings false ⟨0, false⟩ newSession 16 0 0 rfl (connectedServices lostPing)
    (by decide +kernel) (by decide +kernel)

/-- The time sync still waits for its message, and will send no other. -/
theorem newSession_timeSync_waits : ∃ s',
    processIncomingMessage (serviceSurroundings silentSurroundings) false ⟨0, false⟩ newSession
      (connectedServices lostTimeSync) = .ok () s' ∧ .timeSync 0 ∈ s'.rest.messageServices ∧
    Outstanding s'.rest.others 8 (.timeSync 0) ∧ (s'.rest.others.timeSyncs 0).messageTransaction.1 = none ∧
    ¬LeavesNobody s' 16 := by
  have hwaits : Outstanding lostTimeSync 8 (.timeSync 0) := ⟨rfl, by decide, rfl⟩
  refine ⟨_, rfl, by decide, hwaits, TimeSyncService.messageTransaction_of_outstanding hwaits, fun hnobody => ?_⟩
  obtain ⟨entry, hentry, -⟩ := hnobody (.timeSync 0) (by decide) 8 hwaits (by decide)
  cases hentry

end TelegramClient.MtProto
