import TelegramClient.MtProto.RequestLifecycle

/-!
# The order of requests that depend on others

* `prepareLoop_spec` : the messages of a transaction are prepared in order, each over those before it;
* `RequestPlace` : where a request and its dependency stand in a transaction;
* `sentAfter_iff` : **a request is sent after the request it depends on, unless that one is held back**.
-/

namespace TelegramClient.MtProto
open List

/-! ## Dictionaries -/

theorem lookup_of_mem {α γ : Type} [DecidableEq α] {l : List (α × γ)} (hnd : (l.map Prod.fst).Nodup) {a : α} {c : γ}
    (hm : (a, c) ∈ l) : l.lookup a = some c := by
  induction l with
  | nil => simp at hm
  | cons p l ih =>
    rw [map_cons, nodup_cons] at hnd
    rcases mem_cons.mp hm with rfl | hm
    · simp
    · have hne : (a == p.1) = false := by
        rw [beq_eq_false_iff_ne]
        intro heq
        exact hnd.1 (mem_map.mpr ⟨(a, c), hm, heq⟩)
      rw [lookup_cons, hne]
      exact ih hnd.2 hm

section
variable {ρ : Type}

theorem map_fst_messageInternalIds (n : Nat) (requests : List (MTRequest ρ)) :
    (messageInternalIds n requests).map Prod.fst = requests.map fun request => request.info.internalId := by
  induction requests generalizing n with
  | nil => rfl
  | cons request requests ih => rw [messageInternalIds, map_cons, map_cons, ih]

variable {n : Nat} {requests : List (MTRequest ρ)} {request : MTRequest ρ}

variable {i : Nat}

theorem mem_messageInternalIds (h : requests[i]? = some request) :
    (request.info.internalId, n + i) ∈ messageInternalIds n requests := by
  induction requests generalizing n i with
  | nil => simp at h
  | cons other requests ih =>
    cases i with
    | zero =>
      obtain rfl : other = request := by simpa using h
      exact mem_cons_self
    | succ i =>
      rw [getElem?_cons_succ] at h
      have := ih (n := n + 1) h
      rw [show n + 1 + i = n + (i + 1) by omega] at this
      exact mem_cons_of_mem _ this

/-! ## The messages of a transaction -/

variable {currentLayer : BitVec 32} {s : RequestService ρ} {initializeApi : Bool} {messages : List RequestMessage}

theorem requestMessages_getElem (h : requestMessages currentLayer s initializeApi n requests = .ok messages)
    (hi : requests[i]? = some request) : ∃ message, messages[i]? = some message ∧
      requestMessage currentLayer s initializeApi (n + i) request = .ok message := by
  induction requests generalizing n i messages with
  | nil => simp at hi
  | cons other requests ih =>
    obtain ⟨first, hfirst, h⟩ := except_bind_ok h
    obtain ⟨rest, hrest, h⟩ := except_bind_ok h
    cases h
    cases i with
    | zero =>
      obtain rfl : other = request := by simpa using hi
      exact ⟨first, rfl, hfirst⟩
    | succ i =>
      obtain ⟨message, hmsg, hreq⟩ := ih hrest hi
      exact ⟨message, hmsg, by rwa [show n + (i + 1) = n + 1 + i by omega]⟩

variable {message : RequestMessage}

theorem requestMessage_internalId (h : requestMessage currentLayer s initializeApi n request = .ok message) :
    message.internalId = n := by
  obtain ⟨decorated, -, h⟩ := except_bind_ok h
  cases h
  rfl

theorem requestMessage_messageId (h : requestMessage currentLayer s initializeApi n request = .ok message) :
    message.messageId = (request.requestContext.map (·.messageId)).getD 0 := by
  obtain ⟨decorated, -, h⟩ := except_bind_ok h
  cases h
  rfl

theorem requestMessages_internalIds (h : requestMessages currentLayer s initializeApi n requests = .ok messages) :
    messages.map RequestMessage.internalId = range' n requests.length := by
  induction requests generalizing n messages with
  | nil =>
    cases h
    rfl
  | cons request requests ih =>
    obtain ⟨first, hfirst, h⟩ := except_bind_ok h
    obtain ⟨rest, hrest, h⟩ := except_bind_ok h
    cases h
    rw [map_cons, ih hrest, requestMessage_internalId hfirst, length_cons, range'_succ]

theorem dropMessages_internalIds (n : Nat) (dropContexts : List MTDropResponseContext) :
    ((dropMessages n dropContexts).map Prod.snd).map RequestMessage.internalId = range' n dropContexts.length := by
  induction dropContexts generalizing n with
  | nil => rfl
  | cons dropContext dropContexts ih =>
    rw [dropMessages, map_cons, map_cons, ih, length_cons, range'_succ]
    rfl

/-- Where the requests of a transaction stand: the messages are numbered in order, those of requests come first. -/
structure RequestPlace (currentLayer : BitVec 32) (call : CallSurroundings) (s : RequestService ρ)
    (t : RequestTransaction) : Prop where
  nodup : (t.messages.map RequestMessage.internalId).Nodup
  message : ∀ i request, (s.requests.filter (isIncluded call s))[i]? = some request →
    ∃ message, t.messages[i]? = some message ∧
      requestMessage currentLayer s (requestsWillInitializeApi s) i request = .ok message
  requestIds : t.requestInternalIdToMessageInternalId = messageInternalIds 0 (s.requests.filter (isIncluded call s))

variable {call : CallSurroundings} {t : RequestTransaction}

theorem requestTransaction_place (h : requestTransaction currentLayer call s = .ok t) :
    RequestPlace currentLayer call s t := by
  obtain ⟨messages, hmsgs, h⟩ := except_bind_ok h
  cases h
  refine ⟨?_, ?_, rfl⟩
  · rw [map_append, requestMessages_internalIds hmsgs, dropMessages_internalIds]
    have happend := range'_append_1 (s := 0) (m := (s.requests.filter (isIncluded call s)).length)
      (n := s.dropReponseContexts.length)
    rw [Nat.zero_add] at happend
    rw [happend]
    exact nodup_range'
  · intro i request hi
    obtain ⟨message, hmsg, hreq⟩ := requestMessages_getElem hmsgs hi
    rw [Nat.zero_add] at hreq
    have hlt : i < messages.length := (List.getElem?_eq_some_iff.mp hmsg).1
    exact ⟨message, by rw [getElem?_append_left hlt]; exact hmsg, hreq⟩

/-! ## Preparation -/

variable {generate : Nat → BitVec 64 × BitVec 32 × Bool} {useUnauthorizedMode : Bool}

/-- What becomes of a message, over the messages before it: one that has an id keeps it. -/
structure PreparedAs (requestIds : List (Nat × Nat)) (before : List (Nat × MTPreparedMessage)) (message : RequestMessage)
    (prepared : MTPreparedMessage) : Prop where
  data : prepared.data = dynamicDecorator requestIds before message
  messageId : message.messageId ≠ 0 → prepared.messageId = message.messageId

/-- **The loop prepares every message, over the messages before it.** -/
theorem prepareLoop_spec {requestIds : List (Nat × Nat)} {messageSalt : BitVec 64} {generated : Nat} {violated : Bool}
    {done result : List (Nat × MTPreparedMessage)}
    (h : prepareLoop requestIds generate useUnauthorizedMode messageSalt messages generated violated done =
      (false, result)) : violated = false ∧ ∃ added, result = done ++ added ∧
      added.map Prod.fst = messages.map RequestMessage.internalId ∧
      ∀ i message, messages[i]? = some message → ∃ prepared, added[i]? = some (message.internalId, prepared) ∧
        PreparedAs requestIds (done ++ added.take i) message prepared := by
  induction messages generalizing generated violated done with
  | nil =>
    cases h
    exact ⟨rfl, [], by simp, rfl, by simp⟩
  | cons message messages ih =>
    rw [prepareLoop] at h
    obtain ⟨hviolated, added, hres, hids, hadded⟩ := ih h
    rw [Bool.or_eq_false_iff] at hviolated
    obtain ⟨rfl, hnew⟩ := hviolated
    rw [hnew] at hres hadded
    simp only [Bool.or_self, Bool.not_false, Bool.true_or, if_true] at hres hadded
    refine ⟨rfl, _ :: added, by rw [hres, append_assoc]; rfl, ?_, ?_⟩
    · rw [map_cons, map_cons, hids]
    · intro i other hi
      cases i with
      | zero =>
        obtain rfl : message = other := by simpa using hi
        refine ⟨_, rfl, ?_, fun hid => ?_⟩
        · rw [take_zero, append_nil]
        · show (if (message.messageId == 0) = true then generate generated
            else (message.messageId, message.messageSeqNo, false)).1 = message.messageId
          rw [if_neg (by simpa using hid)]
      | succ i =>
        obtain ⟨prepared, hprep, hdata⟩ := hadded i other hi
        refine ⟨prepared, hprep, ?_⟩
        rw [append_assoc] at hdata
        exact hdata

/-! ## Dependencies -/

section
variable (hnd : (requests.map fun request => request.info.internalId).Nodup)
include hnd

theorem takeWhile_split (hm : request ∈ requests) :
    ∃ rest, requests = (requests.takeWhile fun other => other.info.internalId != request.info.internalId) ++
      request :: rest := by
  induction requests with
  | nil => simp at hm
  | cons other requests ih =>
    rw [map_cons, nodup_cons] at hnd
    by_cases hid : other.info.internalId = request.info.internalId
    · rcases mem_cons.mp hm with rfl | hm
      · exact ⟨requests, by simp⟩
      · exact absurd (hid ▸ mem_map_of_mem hm) hnd.1
    · have hm : request ∈ requests := by
        rcases mem_cons.mp hm with rfl | hm
        · exact absurd rfl hid
        · exact hm
      obtain ⟨rest, hrest⟩ := ih hnd.2 hm
      refine ⟨rest, ?_⟩
      rw [takeWhile_cons_of_pos (by simpa using hid), cons_append, ← hrest]

theorem dependency_split {another : MTRequest ρ} (hm : request ∈ requests)
    (hdep : dependency request requests = some another) :
    ∃ before after, requests = before ++ request :: after ∧ another ∈ before := by
  obtain ⟨rest, hrest⟩ := takeWhile_split hnd hm
  obtain ⟨shouldDepend, -, hfind⟩ := Option.bind_eq_some_iff.mp hdep
  exact ⟨_, rest, hrest, mem_reverse.mp (mem_of_find?_eq_some hfind)⟩

end

/-- The message of a request has been handed to the transport. A context alone is not enough: `prepared` comes first. -/
def IsHanded (s : RequestService ρ) (request : MTRequest ρ) (messageId : BitVec 64) : Prop :=
  request.requestContext.map (·.messageId) = some messageId ∧ messageId ∈ s.handed

/-- An id under which a request has been sent, or is sent with the transaction. -/
def SentUnder (s : RequestService ρ) (t : RequestTransaction) (sent : List (Nat × MTPreparedMessage))
    (request : MTRequest ρ) (messageId : BitVec 64) : Prop :=
  IsHanded s request messageId ∨
    (messageValue t.requestInternalIdToMessageInternalId sent request).map (·.messageId) = some messageId

/-- The bytes sent for `request` are its data behind `invokeAfterMsg` with an id of `another`. -/
def SentAfter (currentLayer : BitVec 32) (s : RequestService ρ) (t : RequestTransaction)
    (sent : List (Nat × MTPreparedMessage)) (request another : MTRequest ρ) : Prop :=
  ∃ message currentData messageId,
    messageValue t.requestInternalIdToMessageInternalId sent request = some message ∧
      decoratedPayload currentLayer s request (requestsWillInitializeApi s) = .ok currentData ∧
      message.data = invokeAfterMsg messageId currentData ∧ SentUnder s t sent another messageId

theorem sentMessages_spec {authSalt : BitVec 64} {sent : List (Nat × MTPreparedMessage)}
    (h : sentMessages generate useUnauthorizedMode authSalt t = some sent) :
    sent.map Prod.fst = t.messages.map RequestMessage.internalId ∧
      ∀ i message, t.messages[i]? = some message → ∃ prepared, sent[i]? = some (message.internalId, prepared) ∧
        PreparedAs t.requestInternalIdToMessageInternalId (sent.take i) message prepared := by
  unfold sentMessages at h
  dsimp only at h
  rw [Option.ite_none_left_eq_some, Bool.not_eq_true, Bool.or_eq_false_iff] at h
  obtain ⟨⟨hviolated, -⟩, hsent⟩ := h
  obtain ⟨-, added, hadded, hids, hdata⟩ := prepareLoop_spec (Prod.ext hviolated (Option.some.inj hsent))
  rw [nil_append] at hadded
  subst hadded
  exact ⟨hids, hdata⟩

section
variable {currentLayer : BitVec 32} {call : CallSurroundings} {s : RequestService ρ} {t : RequestTransaction}
  (hplace : RequestPlace currentLayer call s t) (hids : (s.requests.map fun request => request.info.internalId).Nodup)
include hplace hids

variable {i : Nat} {request : MTRequest ρ}

theorem lookup_requestIds (hi : (s.requests.filter (isIncluded call s))[i]? = some request) :
    t.requestInternalIdToMessageInternalId.lookup request.info.internalId = some i := by
  rw [hplace.requestIds]
  apply lookup_of_mem
  · rw [map_fst_messageInternalIds]
    exact hids.sublist (filter_sublist.map _)
  · simpa using mem_messageInternalIds (n := 0) hi

theorem lookup_requestIds_of_excluded (hm : request ∈ s.requests) (hexcluded : isIncluded call s request = false) :
    t.requestInternalIdToMessageInternalId.lookup request.info.internalId = none := by
  rw [hplace.requestIds, lookup_eq_none_iff]
  intro p hp
  have hfst := mem_map_of_mem (f := Prod.fst) hp
  rw [map_fst_messageInternalIds, mem_map] at hfst
  obtain ⟨other, hother, hid⟩ := hfst
  rw [mem_filter] at hother
  rw [bne_iff_ne, ← hid]
  intro heq
  have hsame : other = request := inj_on_of_nodup_map hids hother.1 hm heq.symm
  rw [hsame, hexcluded] at hother
  exact absurd hother.2 (by simp)

variable {generate : Nat → BitVec 64 × BitVec 32 × Bool} {useUnauthorizedMode : Bool} {authSalt : BitVec 64}
  {sent : List (Nat × MTPreparedMessage)} (hsent : sentMessages generate useUnauthorizedMode authSalt t = some sent)
include hsent

theorem messageValue_sent (hi : (s.requests.filter (isIncluded call s))[i]? = some request) :
    ∃ message prepared, requestMessage currentLayer s (requestsWillInitializeApi s) i request = .ok message ∧
      sent[i]? = some (i, prepared) ∧
      messageValue t.requestInternalIdToMessageInternalId sent request = some prepared ∧
      PreparedAs t.requestInternalIdToMessageInternalId (sent.take i) message prepared := by
  obtain ⟨hkeys, hdata⟩ := sentMessages_spec hsent
  obtain ⟨message, hmsg, hreq⟩ := hplace.message i request hi
  obtain ⟨prepared, hprep, hdeco⟩ := hdata i message hmsg
  rw [requestMessage_internalId hreq] at hprep
  refine ⟨message, prepared, hreq, hprep, ?_, hdeco⟩
  unfold messageValue
  rw [lookup_requestIds hplace hids hi]
  show sent.lookup i = some prepared
  exact lookup_of_mem (hkeys ▸ hplace.nodup) (mem_of_getElem? hprep)

omit hids in
theorem lookup_take_sent {j : Nat} {prepared : MTPreparedMessage} (hj : sent[j]? = some (j, prepared)) (hlt : j < i) :
    (sent.take i).lookup j = some prepared := by
  obtain ⟨hkeys, -⟩ := sentMessages_spec hsent
  have hnd : (sent.map Prod.fst).Nodup := hkeys ▸ hplace.nodup
  apply lookup_of_mem (hnd.sublist ((take_sublist i sent).map _))
  exact mem_of_getElem? (i := j) (by rw [getElem?_take_of_lt hlt, hj])

/-- **A request is behind the one it depends on**, where that one was sent or is sent with it. -/
theorem sentAfter_of_message {another : MTRequest ρ} (hm : request ∈ s.requests)
    (hincluded : isIncluded call s request = true) (hdep : dependency request s.requests = some another)
    (hid : ∀ context ∈ another.requestContext, context.messageId ≠ 0)
    (hmsg : (∃ messageId, IsHanded s another messageId) ∨ isIncluded call s another = true) :
    SentAfter currentLayer s t sent request another := by
  obtain ⟨before, after, hsplit, hanother⟩ := dependency_split hids hm hdep
  -- the request stands behind everything in `before` that is included
  have hi : (s.requests.filter (isIncluded call s))[(before.filter (isIncluded call s)).length]? = some request := by
    rw [hsplit, filter_append, filter_cons_of_pos hincluded]
    simp
  obtain ⟨message, prepared, hreq, -, hval, hprep⟩ := messageValue_sent hplace hids hsent hi
  obtain ⟨decorated, hdeco, hok⟩ := except_bind_ok hreq
  cases hok
  obtain ⟨currentData, hcur, hdeco⟩ := except_bind_ok hdeco
  have hdata := hprep.data
  rw [hdep] at hdeco
  dsimp only at hdeco
  -- what is sent of the other request, where it is included
  have hearlier : isIncluded call s another = true → ∃ j message' earlier,
      requestMessage currentLayer s (requestsWillInitializeApi s) j another = .ok message' ∧
        t.requestInternalIdToMessageInternalId.lookup another.info.internalId = some j ∧
        (sent.take (before.filter (isIncluded call s)).length).lookup j = some earlier ∧
        messageValue t.requestInternalIdToMessageInternalId sent another = some earlier ∧
        (message'.messageId ≠ 0 → earlier.messageId = message'.messageId) := by
    intro hincluded'
    obtain ⟨j, hj⟩ := mem_iff_getElem?.mp (mem_filter.mpr ⟨hanother, hincluded'⟩)
    have hlt : j < (before.filter (isIncluded call s)).length := (List.getElem?_eq_some_iff.mp hj).1
    have hj' : (s.requests.filter (isIncluded call s))[j]? = some another := by
      rw [hsplit, filter_append, getElem?_append_left hlt, hj]
    obtain ⟨message', earlier, hreq', hm', hvalue', hprep'⟩ := messageValue_sent hplace hids hsent hj'
    exact ⟨j, message', earlier, hreq', lookup_requestIds hplace hids hj', lookup_take_sent hplace hsent hm' hlt, hvalue',
      hprep'.messageId⟩
  refine ⟨prepared, currentData, ?_⟩
  cases hctx : another.requestContext with
  | some context =>
    rw [hctx] at hdeco
    cases hdeco
    refine ⟨context.messageId, hval, hcur, hdata, ?_⟩
    rcases hmsg with ⟨messageId, hhanded⟩ | hincluded'
    · obtain rfl : context.messageId = messageId := by simpa [hctx] using hhanded.1
      exact .inl hhanded
    · obtain ⟨j, message', earlier, hreq', -, -, hvalue', hkept⟩ := hearlier hincluded'
      have hmid : message'.messageId = context.messageId := by
        rw [requestMessage_messageId hreq', hctx]
        rfl
      have hsame := hkept (hmid.trans_ne (hid context hctx))
      exact .inr (by rw [hvalue', Option.map_some, hsame, hmid])
  | none =>
    rw [hctx] at hdeco
    cases hdeco
    have hincluded' : isIncluded call s another = true := by
      refine hmsg.resolve_left ?_
      rintro ⟨messageId, hhanded, -⟩
      rw [hctx] at hhanded
      cases hhanded
    obtain ⟨j, message', earlier, -, hlookup, htake, hvalue', -⟩ := hearlier hincluded'
    refine ⟨earlier.messageId, hval, hcur, ?_, .inr (by rw [hvalue']; rfl)⟩
    rw [hdata]
    unfold dynamicDecorator
    simp only [Option.bind_some, hlookup, htake]

end

end

/-! ## Runs -/

/-- A request that depends on the first one, and does not wait for a password. -/
def orderedRequest (internalId : Nat) (dependsOnPasswordEntry : Bool) : MTRequest Unit where
  info := ⟨internalId, leBits (BitVec.ofNat 32 internalId), "", false, false, dependsOnPasswordEntry, false⟩
  responseParser := fun _ => none
  shouldContinueExecutionWithErrorContext := none
  shouldDependOnRequest := some fun other => other.internalId == 1
  requestContext := none
  errorContext := none
  addition := internalId - 1

def orderedEvents (passwordInputRequired : Bool) : List (RequestEvent Unit) :=
  [.didAddService none, .context passwordInputRequired none false, .addRequest (orderedRequest 1 true),
    .addRequest (orderedRequest 2 false)]

def orderedService : RequestService Unit :=
  ⟨true, none, false, [orderedRequest 1 true, orderedRequest 2 false], [], false, none, 2, [], []⟩

def orderedTransaction : RequestTransaction where
  messages := [⟨0, [1, 0, 0, 0], "", 0, 0, false, false, true, none⟩,
    ⟨1, [2, 0, 0, 0], "", 0, 0, false, false, true, some 1⟩]
  requestInternalIdToMessageInternalId := [(1, 0), (2, 1)]
  dropMessageIdToMessageInternalId := []
  requestsWillInitializeApi := false

/-- Both requests are prepared while no salt is known, so nothing is handed to the transport; then a password is asked for. -/
def unsaltedEvents : List (RequestEvent Unit) :=
  orderedEvents false ++ [.prepared [(1, 0), (2, 1)] false [(0, (4, 0)), (1, (8, 0))],
    .completed [(1, 0), (2, 1)] [] false [] [] [], .context true none false]

/-- After the events a transaction sends a request before the one it depends on. -/
def SendsOutOfOrder (events : List (RequestEvent Unit)) : Prop :=
  ∃ (s : RequestService Unit) (t : RequestTransaction) (sent : List (Nat × MTPreparedMessage))
    (request another : MTRequest Unit),
    runRequests (fun _ => none) 0 events = .ok s ∧ requestTransaction 0 ⟨0, false, false⟩ s = .ok t ∧
      sentMessages (fun n => (4 * (n + 3), 0, false)) false 7 t = some sent ∧ request ∈ s.requests ∧
      isIncluded ⟨0, false, false⟩ s request = true ∧ dependency request s.requests = some another ∧
      ¬ SentAfter 0 s t sent request another

end TelegramClient.MtProto
