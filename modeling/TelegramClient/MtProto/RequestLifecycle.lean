import TelegramClient.MtProto.RequestService
import TelegramClient.MtProto.Incoming
import Mathlib.Data.List.Induction
import Mathlib.Data.List.Nodup

/-!
# The life of a request

* `RequestChange`, `stepRequests_change` : what one event does to the list of requests;
* `RequestInv`, `requestInv_runRequests` : no addition is twice in the list, none that has ended is in it;
* `runRequests_lifecycle` : **no request is lost, and none is completed twice or with the answer to another**.
-/

namespace TelegramClient.MtProto
open List

section
variable {ρ : Type}

/-! ## What stays the same -/

def MTRequest.key (request : MTRequest ρ) : Nat × RequestInfo := (request.addition, request.info)

def RequestService.keys (s : RequestService ρ) : List (Nat × RequestInfo) := s.requests.map MTRequest.key

/-- An update of a request that leaves it the same request. -/
def KeepsKey (f : MTRequest ρ → MTRequest ρ) : Prop := ∀ request, (f request).key = request.key

theorem keepsKey_clearContext : KeepsKey (clearContext : MTRequest ρ → MTRequest ρ) := fun _ => rfl

theorem keepsKey_updateContext (f : MTRequestContext → MTRequestContext) :
    KeepsKey (updateContext f : MTRequest ρ → MTRequest ρ) := fun _ => rfl

theorem keepsKey_updateErrorContext (f : MTRequestErrorContext → MTRequestErrorContext) :
    KeepsKey (updateErrorContext f : MTRequest ρ → MTRequest ρ) := fun _ => rfl

theorem KeepsKey.ite {f : MTRequest ρ → MTRequest ρ} (hf : KeepsKey f) (p : MTRequest ρ → Bool) :
    KeepsKey fun request => if p request then f request else request := by
  intro request
  dsimp only
  split
  · exact hf request
  · rfl

variable (requestIds : List (Nat × Nat))

theorem keepsKey_transactionFailed : KeepsKey (transactionFailed requestIds : MTRequest ρ → MTRequest ρ) :=
  KeepsKey.ite (keepsKey_updateContext fun context => { context with waitingForMessageId := false })
    fun request => (requestIds.lookup request.info.internalId).isSome

variable (call : CallSurroundings) (willInitializeApi : Bool)

theorem keepsKey_transactionPrepared (preparedMessages : List (Nat × (BitVec 64 × BitVec 32))) :
    KeepsKey (transactionPrepared requestIds willInitializeApi preparedMessages : MTRequest ρ → MTRequest ρ) := by
  intro request
  unfold transactionPrepared
  split <;> rfl

theorem keepsKey_requestCompleted (transactionIds : List (Nat × Nat))
    (preparedMessages : List (Nat × (BitVec 64 × BitVec 32))) (quickAckIds : List (Nat × BitVec 32)) :
    KeepsKey (requestCompleted requestIds willInitializeApi transactionIds preparedMessages quickAckIds :
      MTRequest ρ → MTRequest ρ) := by
  intro request
  unfold requestCompleted
  dsimp only
  split
  · exact keepsKey_transactionFailed requestIds request
  · exact keepsKey_transactionFailed requestIds request

section
variable {f : MTRequest ρ → MTRequest ρ} (h : KeepsKey f)
include h

variable (requests : List (MTRequest ρ))

theorem KeepsKey.map : (requests.map f).map MTRequest.key = requests.map MTRequest.key := by
  rw [map_map]
  apply map_congr_left
  intro request _
  exact h request

theorem KeepsKey.updateFirst (p : MTRequest ρ → Bool) (requests : List (MTRequest ρ)) :
    (MtProto.updateFirst p f requests).map MTRequest.key = requests.map MTRequest.key := by
  induction requests with
  | nil => rfl
  | cons request requests ih =>
    rw [MtProto.updateFirst]
    split
    · rw [map_cons, map_cons, h]
    · rw [map_cons, map_cons, ih]

theorem KeepsKey.modify (index : Nat) : (requests.modify index f).map MTRequest.key = requests.map MTRequest.key := by
  induction requests generalizing index with
  | nil => cases index <;> rfl
  | cons request requests ih =>
    cases index with
    | zero => simp [h request]
    | succ index => simp [ih]

end

theorem map_eraseIdx {α γ : Type} (f : α → γ) (as : List α) (index : Nat) :
    (as.eraseIdx index).map f = (as.map f).eraseIdx index := by
  induction as generalizing index with
  | nil => rfl
  | cons a as ih =>
    cases index with
    | zero => rfl
    | succ index => simp [ih]

theorem keys_updateRequestsTimer (currentTime : Rat) (s : RequestService ρ) :
    (updateRequestsTimer currentTime s).keys = s.keys :=
  ((keepsKey_updateErrorContext _).ite fun request => request.requestContext.isNone).map s.requests

theorem keys_didChangeSession (s : RequestService ρ) : (didChangeSession s).keys = s.keys :=
  keepsKey_clearContext.map s.requests

theorem keys_applyOutcome (initializedApi : Bool) (outcome : ErrorOutcome) (s : RequestService ρ) :
    (applyOutcome call initializedApi outcome s).keys = s.keys ∧
      (applyOutcome call initializedApi outcome s).additions = s.additions ∧
      (applyOutcome call initializedApi outcome s).completions = s.completions := by
  unfold applyOutcome
  split_ifs <;> refine ⟨?_, rfl, rfl⟩ <;> first | rfl | exact keys_didChangeSession _

theorem map_key_messageDeliveryConfirmed (messageIds : List (BitVec 64)) (requests : List (MTRequest ρ)) :
    (messageDeliveryConfirmed messageIds requests).map MTRequest.key = requests.map MTRequest.key := by
  unfold messageDeliveryConfirmed
  induction messageIds generalizing requests with
  | nil => rfl
  | cons messageId messageIds ih =>
    rw [foldl_cons, ih, (keepsKey_updateContext _).updateFirst]

/-! ## One event -/

def IsAnswer (e : RequestEvent ρ) (completion : Completion ρ) : Prop :=
  ∃ call data, e = .rpcResult call completion.requestMessageId completion.timestamp data

/-- **What an event does to the list.** -/
inductive RequestChange (s : RequestService ρ) (e : RequestEvent ρ) (s' : RequestService ρ) : Prop where
  | kept (hkeys : s'.keys = s.keys) (hadditions : s'.additions = s.additions)
      (hcompletions : s'.completions = s.completions)
  | added (request : MTRequest ρ) (hnew : ∀ other ∈ s.requests, other.info.internalId ≠ request.info.internalId)
      (hkeys : s'.keys = s.keys ++ [(s.additions, request.info)]) (hadditions : s'.additions = s.additions + 1)
      (hcompletions : s'.completions = s.completions)
  | removed (internalId : Nat) (currentTime : Rat) (hevent : e = .removeRequestByInternalId internalId currentTime)
      (hkeys : s'.keys = s.keys.eraseP fun key => key.2.internalId == internalId)
      (hadditions : s'.additions = s.additions) (hcompletions : s'.completions = s.completions)
  | completed (index : Nat) (request : MTRequest ρ) (completion : Completion ρ)
      (hrequest : s.requests[index]? = some request) (hsent : request.isSentAs completion.requestMessageId = true)
      (hanswer : IsAnswer e completion) (haddition : completion.addition = request.addition)
      (hkeys : s'.keys = s.keys.eraseIdx index) (hadditions : s'.additions = s.additions)
      (hcompletions : s'.completions = s.completions ++ [completion])

theorem addRequest_change (request : MTRequest ρ) (s s₀ : RequestService ρ) (e : RequestEvent ρ)
    (hreqs : s₀.requests = s.requests) (hadds : s₀.additions = s.additions)
    (hcomps : s₀.completions = s.completions) : RequestChange s e (addRequest request s₀) := by
  unfold addRequest
  split
  next hadd =>
      simp only [Bool.and_eq_true, Bool.not_eq_true', any_eq_false, beq_iff_eq] at hadd
      refine .added request ?_ ?_ (congrArg (· + 1) hadds) hcomps
      · rw [← hreqs]
        exact hadd.2
      · simp [RequestService.keys, hreqs, hadds, MTRequest.key]
  next => exact .kept (congrArg (List.map MTRequest.key) hreqs) hadds hcomps

variable {index : Nat} {request : MTRequest ρ}

variable {requestMessageId timestamp : BitVec 64} {data : Bytes}

theorem answerRequest_change (rpcResult : Option ρ) (rpcError : Option MTRpcError) (s : RequestService ρ)
    (hreq : s.requests[index]? = some request) (hsent : request.isSentAs requestMessageId = true) :
    RequestChange s (.rpcResult call requestMessageId timestamp data) (updateRequestsTimer call.currentTime
        (answerRequest call requestMessageId timestamp index request rpcResult rpcError s)) := by
  obtain ⟨hkeys, hadds, hcomps⟩ := keys_applyOutcome call
    (rpcResult.isSome && request.requestContext.any (·.willInitializeApi)) (errorOutcome call request rpcError) s
  unfold answerRequest
  dsimp only
  split
  · refine .kept ?_ hadds hcomps
    rw [keys_updateRequestsTimer, ← hkeys]
    apply KeepsKey.modify
    intro other
    rfl
  · refine .completed index request ⟨request.addition, requestMessageId, rpcResult, rpcError, timestamp⟩ hreq hsent
      ⟨call, data, rfl⟩ rfl ?_ hadds (congrArg (· ++ [_]) hcomps)
    rw [keys_updateRequestsTimer, ← hkeys]
    exact map_eraseIdx MTRequest.key _ index

variable {s : RequestService ρ} {inflate : Bytes → Option Bytes} {s' : RequestService ρ}

theorem receivedRpcResult_change {call : CallSurroundings}
    (h : receivedRpcResult inflate call requestMessageId timestamp data s = .ok s') :
    RequestChange s (.rpcResult call requestMessageId timestamp data) s' := by
  unfold receivedRpcResult at h
  obtain ⟨message, -, h⟩ := except_bind_ok h
  split at h
  · cases h
    exact .kept rfl rfl rfl
  · split at h
    · cases h
      exact .kept (keys_updateRequestsTimer _ s) rfl rfl
    next index hidx =>
        obtain ⟨hlt, hsent, -⟩ := findIdx?_eq_some_iff_getElem.mp hidx
        have hreq : s.requests[index]? = some s.requests[index] := getElem?_eq_getElem hlt
        rw [hreq] at h
        obtain ⟨response, -, h⟩ := except_bind_ok h
        cases h
        exact answerRequest_change call _ _ s hreq hsent

variable {currentLayer : BitVec 32} {e : RequestEvent ρ}

/-- **Every event is one of these changes.** -/
theorem stepRequests_change (h : stepRequests inflate currentLayer s e = .ok s') : RequestChange s e s' := by
  cases e with
  | didAddService apiEnvironment | mtProtoReleased | transactionReady messageIds
  | context passwordInputRequired apiInitializationHash forceBackgroundRequests =>
    cases h
    exact .kept rfl rfl rfl
  | apiEnvironmentUpdated apiEnvironment noop =>
    cases h
    split
    · exact addRequest_change noop s _ _ rfl rfl rfl
    · exact .kept rfl rfl rfl
  | addRequest request =>
    cases h
    exact addRequest_change request s s _ rfl rfl rfl
  | removeRequestByInternalId internalId currentTime =>
    cases h
    refine .removed internalId currentTime rfl ?_ rfl rfl
    unfold removeRequestByInternalId
    rw [keys_updateRequestsTimer]
    show (s.requests.eraseP _).map MTRequest.key = (s.requests.map MTRequest.key).eraseP _
    rw [eraseP_map]
    rfl
  | messageTransaction call =>
    change (requestTransaction currentLayer call s).map (fun _ => s) = .ok s' at h
    cases htrans : requestTransaction currentLayer call s with
    | error e =>
      rw [htrans] at h
      cases h
    | ok t =>
      rw [htrans] at h
      cases h
      exact .kept rfl rfl rfl
  | prepared requestIds willInitializeApi preparedMessages =>
    cases h
    exact .kept ((keepsKey_transactionPrepared _ _ _).map s.requests) rfl rfl
  | failed requestIds =>
    cases h
    exact .kept ((keepsKey_transactionFailed _).map s.requests) rfl rfl
  | completed requestIds dropIds willInitializeApi transactionIds preparedMessages quickAckIds =>
    cases h
    exact .kept ((keepsKey_requestCompleted _ _ _ _ _).map s.requests) rfl rfl
  | rpcResult call requestMessageId timestamp data => exact receivedRpcResult_change h
  | messageDeliveryConfirmed messageIds =>
    cases h
    exact .kept (map_key_messageDeliveryConfirmed messageIds s.requests) rfl rfl
  | messageDeliveryFailed messageId =>
    cases h
    exact .kept (keepsKey_clearContext.updateFirst _ s.requests) rfl rfl
  | transactionsMayHaveFailed transactionIds | allTransactionsMayHaveFailed =>
    cases h
    exact .kept ((keepsKey_updateContext _).map s.requests) rfl rfl
  | shouldRequestMessage responseMessageId messageId currentTransactionId =>
    cases h
    exact .kept ((keepsKey_updateContext _).updateFirst _ s.requests) rfl rfl
  | messageResendRequestFailed messageId | serverDidChangeSession firstValidMessageId otherValidMessageIds =>
    cases h
    exact .kept ((keepsKey_clearContext.ite _).map s.requests) rfl rfl
  | didChangeSession =>
    cases h
    exact .kept (keys_didChangeSession s) rfl rfl
  | authTokenUpdated =>
    cases h
    exact .kept ((keepsKey_updateErrorContext _).map s.requests) rfl rfl

/-! ## Runs -/

/-- No addition and no internal id is twice in the list, and no addition that was completed is in it or was completed
twice. -/
structure RequestInv (s : RequestService ρ) : Prop where
  additions : (s.keys.map Prod.fst).Nodup
  internalIds : (s.keys.map fun key => key.2.internalId).Nodup
  lt : ∀ key ∈ s.keys, key.1 < s.additions
  completions : (s.completions.map Completion.addition).Nodup
  completions_lt : ∀ completion ∈ s.completions, completion.addition < s.additions
  disjoint : ∀ completion ∈ s.completions, ∀ key ∈ s.keys, completion.addition ≠ key.1

theorem requestInv_init : RequestInv (initRequests : RequestService ρ) := by
  constructor <;> simp [initRequests, RequestService.keys]

theorem RequestInv.sublist (h : RequestInv s) (hkeys : s'.keys.Sublist s.keys)
    (hadds : s'.additions = s.additions) (hcomps : s'.completions = s.completions) : RequestInv s' where
  additions := h.additions.sublist (hkeys.map _)
  internalIds := h.internalIds.sublist (hkeys.map _)
  lt key hkey := hadds ▸ h.lt key (hkeys.subset hkey)
  completions := hcomps ▸ h.completions
  completions_lt completion hc := hadds ▸ h.completions_lt completion (hcomps ▸ hc)
  disjoint completion hc key hkey := h.disjoint completion (hcomps ▸ hc) key (hkeys.subset hkey)

theorem getElem?_keys (h : s.requests[index]? = some request) : s.keys[index]? = some request.key := by
  simp [RequestService.keys, h]

variable {keys : List (Nat × RequestInfo)} {key : Nat × RequestInfo}

theorem ne_of_mem_eraseIdx (hnd : (keys.map Prod.fst).Nodup) {other : Nat × RequestInfo}
    (hkey : keys[index]? = some key) (hother : other ∈ keys.eraseIdx index) : key.1 ≠ other.1 := by
  induction keys generalizing index with
  | nil => simp at hkey
  | cons k keys ih =>
    rw [map_cons, nodup_cons] at hnd
    cases index with
    | zero =>
      obtain rfl : k = key := by simpa using hkey
      rintro heq
      exact hnd.1 (heq ▸ mem_map_of_mem hother)
    | succ index =>
      rw [getElem?_cons_succ] at hkey
      rw [eraseIdx_cons_succ, mem_cons] at hother
      rcases hother with rfl | hother
      · rintro heq
        exact hnd.1 (heq ▸ mem_map_of_mem (mem_of_getElem? hkey))
      · exact ih hnd.2 hkey hother

/-- **One event keeps the invariant.** -/
theorem RequestChange.inv (hchange : RequestChange s e s') (h : RequestInv s) : RequestInv s' := by
  cases hchange with
  | kept hkeys hadds hcomps => exact h.sublist (hkeys ▸ List.Sublist.refl _) hadds hcomps
  | added request hnew hkeys hadds hcomps =>
    have hids : ∀ key ∈ s.keys, key.2.internalId ≠ request.info.internalId := by
      intro key hkey
      obtain ⟨other, hother, rfl⟩ := mem_map.mp hkey
      exact hnew other hother
    refine ⟨?_, ?_, ?_, hcomps ▸ h.completions, ?_, ?_⟩
    · rw [hkeys, map_append, map_singleton, nodup_append]
      refine ⟨h.additions, by simp, ?_⟩
      intro a ha b hb hab
      obtain ⟨key, hkey, rfl⟩ := mem_map.mp ha
      have := h.lt key hkey
      simp at hb
      omega
    · rw [hkeys, map_append, map_singleton, nodup_append]
      refine ⟨h.internalIds, by simp, ?_⟩
      intro a ha b hb hab
      obtain ⟨key, hkey, rfl⟩ := mem_map.mp ha
      simp at hb
      exact hids key hkey (hab.trans hb)
    · intro key hkey
      rw [hkeys, mem_append, mem_singleton] at hkey
      rw [hadds]
      rcases hkey with hkey | rfl
      · exact Nat.lt_succ_of_lt (h.lt key hkey)
      · exact Nat.lt_succ_self _
    · intro completion hc
      rw [hadds]
      exact Nat.lt_succ_of_lt (h.completions_lt completion (hcomps ▸ hc))
    · intro completion hc key hkey
      rw [hcomps] at hc
      rw [hkeys, mem_append, mem_singleton] at hkey
      rcases hkey with hkey | rfl
      · exact h.disjoint completion hc key hkey
      · exact (h.completions_lt completion hc).ne
  | removed internalId currentTime hev hkeys hadds hcomps =>
    exact h.sublist (hkeys ▸ eraseP_sublist) hadds hcomps
  | completed index request completion hreq hsent hanswer haddition hkeys hadds hcomps =>
    have hkey := getElem?_keys hreq
    have hm : request.key ∈ s.keys := mem_of_getElem? hkey
    have hsub : s'.keys.Sublist s.keys := hkeys ▸ eraseIdx_sublist _ _
    refine ⟨h.additions.sublist (hsub.map _), h.internalIds.sublist (hsub.map _), ?_, ?_, ?_, ?_⟩
    · intro key hkey'
      exact hadds ▸ h.lt key (hsub.subset hkey')
    · rw [hcomps, map_append, map_singleton, nodup_append]
      refine ⟨h.completions, by simp, ?_⟩
      intro a ha b hb hab
      obtain ⟨other, hother, rfl⟩ := mem_map.mp ha
      simp only [mem_singleton] at hb
      exact h.disjoint other hother _ hm (hab.trans (hb.trans haddition))
    · intro other hother
      rw [hcomps, mem_append, mem_singleton] at hother
      rw [hadds]
      rcases hother with hother | rfl
      · exact h.completions_lt other hother
      · exact haddition ▸ h.lt _ hm
    · intro other hother key hkey'
      rw [hcomps, mem_append, mem_singleton] at hother
      rcases hother with hother | rfl
      · exact h.disjoint other hother key (hsub.subset hkey')
      · rw [hkeys] at hkey'
        exact haddition ▸ ne_of_mem_eraseIdx h.additions hkey hkey'

theorem runRequests_concat (inflate : Bytes → Option Bytes) (currentLayer : BitVec 32) (events : List (RequestEvent ρ))
    (e : RequestEvent ρ) : runRequests inflate currentLayer (events ++ [e]) =
      (runRequests inflate currentLayer events).bind fun s => stepRequests inflate currentLayer s e := by
  unfold runRequests
  rw [foldlM_append]
  simp only [foldlM_cons, foldlM_nil, bind_pure]
  rfl

/-- **The invariant holds after every run.** -/
theorem requestInv_runRequests (events : List (RequestEvent ρ))
    (hrun : runRequests inflate currentLayer events = .ok s) : RequestInv s := by
  induction events using List.reverseRecOn generalizing s with
  | nil =>
    cases hrun
    exact requestInv_init
  | append_singleton events e ih =>
    rw [runRequests_concat] at hrun
    obtain ⟨s₀, hs₀, hstep⟩ := except_bind_ok hrun
    exact (stepRequests_change hstep).inv (ih hs₀)

/-- A request of the state before is the same request in the state after. -/
def StaysIn (request : MTRequest ρ) (s' : RequestService ρ) : Prop := ∃ request' ∈ s'.requests, request'.key = request.key

theorem staysIn_iff : StaysIn request s' ↔ request.key ∈ s'.keys := by
  unfold StaysIn RequestService.keys
  rw [mem_map]

/-- What an event may do to the requests and to their completed blocks. -/
structure StepLifecycle (s : RequestService ρ) (e : RequestEvent ρ) (s' : RequestService ρ) : Prop where
  /-- A request that is added is in the list. -/
  added : ∀ request, e = .addRequest request → s.hasMtProto = true →
    (∀ other ∈ s.requests, other.info.internalId ≠ request.info.internalId) →
      ∃ request' ∈ s'.requests, request'.key = (s.additions, request.info)
  /-- A request stays in the list, is removed by the caller, or is completed. -/
  stays : ∀ request ∈ s.requests, StaysIn request s' ∨
    (∃ currentTime, e = .removeRequestByInternalId request.info.internalId currentTime) ∨
    ∃ completion, s'.completions = s.completions ++ [completion] ∧ completion.addition = request.addition
  /-- A completed block is called for an answer that has the id of the message of that very request. -/
  completed : s'.completions = s.completions ∨
    ∃ request ∈ s.requests, ∃ context completion, request.requestContext = some context ∧
      s'.completions = s.completions ++ [completion] ∧ completion.addition = request.addition ∧
      completion.requestMessageId = context.messageId ∧ IsAnswer e completion
  /-- No completed block is called twice, and no request whose block was called is in the list. -/
  once : (s'.completions.map Completion.addition).Nodup ∧
    ∀ completion ∈ s'.completions, ∀ request ∈ s'.requests, completion.addition ≠ request.addition

def Lifecycle (inflate : Bytes → Option Bytes) (currentLayer : BitVec 32) (events : List (RequestEvent ρ)) : Prop :=
  ∀ before e after s s', events = before ++ e :: after → runRequests inflate currentLayer before = .ok s →
    stepRequests inflate currentLayer s e = .ok s' → StepLifecycle s e s'

theorem addRequest_added (hmtProto : s.hasMtProto = true)
    (hnew : ∀ other ∈ s.requests, other.info.internalId ≠ request.info.internalId) :
    ∃ request' ∈ (addRequest request s).requests, request'.key = (s.additions, request.info) := by
  have hadd : (s.hasMtProto && !s.requests.any fun other => other.info.internalId == request.info.internalId) = true := by
    simpa [hmtProto] using hnew
  unfold addRequest
  rw [if_pos hadd]
  exact ⟨{ request with addition := s.additions }, by simp, rfl⟩

theorem mem_keys_eraseP {internalId : Nat} (hkey : key ∈ keys) (hne : key.2.internalId ≠ internalId) :
    key ∈ keys.eraseP fun k => k.2.internalId == internalId := by
  rw [mem_eraseP_of_neg (by simpa using hne)]
  exact hkey

theorem mem_keys_eraseIdx (hkey : key ∈ keys) (hne : keys[index]? ≠ some key) : key ∈ keys.eraseIdx index := by
  obtain ⟨i, hi⟩ := mem_iff_getElem?.mp hkey
  have hidx : i ≠ index := by
    rintro rfl
    exact hne hi
  exact mem_eraseIdx_iff_getElem?.mpr ⟨i, hidx, hi⟩

/-- **A request is never lost and never completed twice.** In every run, a request that was added stays in the list
until the caller removes it or an answer to its message completes it, and it is completed at most once. -/
theorem runRequests_lifecycle (inflate : Bytes → Option Bytes) (currentLayer : BitVec 32)
    (events : List (RequestEvent ρ)) : Lifecycle inflate currentLayer events := by
  intro before e after s s' _ hrun hstep
  have hchange := stepRequests_change hstep
  have hinv := requestInv_runRequests before hrun
  have hinv' := hchange.inv hinv
  refine ⟨?_, ?_, ?_, hinv'.completions, ?_⟩
  · rintro request rfl hmtProto hnew
    cases hstep
    exact addRequest_added hmtProto hnew
  · intro request hrequest
    have hkey : request.key ∈ s.keys := mem_map_of_mem hrequest
    rw [staysIn_iff]
    cases hchange with
    | kept hkeys _ _ => exact Or.inl (hkeys ▸ hkey)
    | added other _ hkeys _ _ => exact Or.inl (hkeys ▸ mem_append_left _ hkey)
    | removed internalId currentTime hevent hkeys _ _ =>
        by_cases hid : request.info.internalId = internalId
        · exact Or.inr (Or.inl ⟨currentTime, hid ▸ hevent⟩)
        · exact Or.inl (hkeys ▸ mem_keys_eraseP hkey hid)
    | completed index answered completion hanswered _ _ haddition hkeys _ hcompletions =>
        by_cases hat : s.keys[index]? = some request.key
        · rw [getElem?_keys hanswered] at hat
          have hsame : answered.addition = request.addition := congrArg Prod.fst (Option.some.inj hat)
          exact Or.inr (Or.inr ⟨completion, hcompletions, haddition.trans hsame⟩)
        · exact Or.inl (hkeys ▸ mem_keys_eraseIdx hkey hat)
  · cases hchange with
    | kept _ _ hcompletions | added _ _ _ _ hcompletions | removed _ _ _ _ _ hcompletions => exact Or.inl hcompletions
    | completed index answered completion hanswered hsent hanswer haddition _ _ hcompletions =>
        obtain ⟨context, hcontext, hid⟩ := (Option.any_eq_true _ _).mp hsent
        exact Or.inr ⟨answered, mem_of_getElem? hanswered, context, completion, hcontext, hcompletions, haddition,
          (beq_iff_eq.mp hid).symm, hanswer⟩
  · intro completion hc request hrequest
    exact hinv'.disjoint completion hc request.key (mem_map_of_mem hrequest)

end

end TelegramClient.MtProto
