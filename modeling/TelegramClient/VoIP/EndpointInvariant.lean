import TelegramClient.VoIP.Endpoints
import Mathlib.Data.List.Pairwise

/-!
# The endpoints stay consistent

* `tagged`, `AdmissibleIds` : the ids of relays and their copies;
* `Entry` : what the endpoints of the table are, and `peer_iff`: the ids of the peer;
* `EndpointTable.Inv` : what holds between the events.
-/

namespace TelegramClient.VoIP.Endpoints
open List

/-! ## Ids -/

def tagged (id : BitVec 64) (tcp v6 : Bool) : BitVec 64 :=
  id ^^^ (bif tcp then tcpTag else 0) ^^^ (bif v6 then ipv6Tag else 0)

def reservedIds : List (BitVec 64) := [p2pInetId, p2pInetV6Id, p2pLanId]

/-- The ids of relays differ in their lower halves, and no copy of a relay has an id of the peer. -/
structure AdmissibleIds (relays : List (BitVec 64)) : Prop where
  apart : relays.Pairwise fun a b => a.setWidth 32 ≠ b.setWidth 32
  unreserved : ∀ id ∈ relays, ∀ tcp v6, tagged id tcp v6 ∉ reservedIds

theorem setWidth_tagged (id : BitVec 64) (tcp v6 : Bool) : (tagged id tcp v6).setWidth 32 = id.setWidth 32 := by
  have htags : ∀ tcp v6 : Bool, ((bif tcp then tcpTag else 0) : BitVec 64).setWidth 32 = 0#32 ∧
      ((bif v6 then ipv6Tag else 0) : BitVec 64).setWidth 32 = 0#32 := by decide
  rw [tagged, BitVec.setWidth_xor, BitVec.setWidth_xor, (htags tcp v6).1, (htags tcp v6).2, BitVec.xor_zero,
    BitVec.xor_zero]

namespace AdmissibleIds

variable {relays : List (BitVec 64)} (h : AdmissibleIds relays)
include h

theorem tagged_inj {a b : BitVec 64} (ha : a ∈ relays) (hb : b ∈ relays) {tcp v6 tcp' v6' : Bool}
    (heq : tagged a tcp v6 = tagged b tcp' v6') : a = b ∧ tcp = tcp' ∧ v6 = v6' := by
  have hwidth : a.setWidth 32 = b.setWidth 32 := by rw [← setWidth_tagged a tcp v6, heq, setWidth_tagged]
  have hab : a = b := by
    by_contra hne
    have hsymm : Std.Symm fun a b : BitVec 64 => a.setWidth 32 ≠ b.setWidth 32 := ⟨fun _ _ hxy => Ne.symm hxy⟩
    exact h.apart.forall ha hb hne hwidth
  subst hab
  have htags : (bif tcp then tcpTag else 0) ^^^ (bif v6 then ipv6Tag else 0) =
      (bif tcp' then tcpTag else 0) ^^^ (bif v6' then ipv6Tag else 0) := by
    rw [tagged, tagged, BitVec.xor_assoc, BitVec.xor_assoc] at heq
    exact (BitVec.xor_right_inj a).mp heq
  have hall : ∀ tcp v6 tcp' v6' : Bool, (bif tcp then tcpTag else 0) ^^^ (bif v6 then ipv6Tag else 0) =
      (bif tcp' then tcpTag else 0) ^^^ (bif v6' then ipv6Tag else 0) → tcp = tcp' ∧ v6 = v6' := by decide
  exact ⟨rfl, hall tcp v6 tcp' v6' htags⟩

theorem nodup : relays.Nodup := h.apart.imp fun hne heq => hne (congrArg _ heq)

end AdmissibleIds

/-! ## What holds between the events -/

/-- What an endpoint of the table is: a relay or a copy of one, which has been made, or the peer. -/
inductive Entry (relays : List (BitVec 64)) (tcpAdded v6Added : Bool) (e : Endpoint) : Prop where
  | relay (id : BitVec 64) (tcp v6 : Bool) (hid : id ∈ relays) (hrelay : e.isRelay = true)
      (heq : e.id = tagged id tcp v6) (htcp : tcp = true → tcpAdded = true) (hv6 : v6 = true → v6Added = true)
  | inet (htype : e.type = .udpP2pInet) (heq : e.id = p2pInetId) (hv6 : e.v6address = 0)
  | inetV6 (htype : e.type = .udpP2pInet) (heq : e.id = p2pInetV6Id) (hv6 : e.isIPv6Only = true)
  | lan (htype : e.type = .udpP2pLan) (heq : e.id = p2pLanId)

variable {e : Endpoint}

theorem Endpoint.isRelay_iff : e.isRelay = true ↔ e.type = .udpRelay ∨ e.type = .tcpRelay := by
  simp [Endpoint.isRelay]

variable {relays : List (BitVec 64)} {tcpAdded v6Added : Bool}

theorem Entry.withRTT (h : Entry relays tcpAdded v6Added e) (rtt : ℚ) :
    Entry relays tcpAdded v6Added { e with averageRTT := rtt } := by
  cases h with
  | relay id tcp v6 hid hrelay heq htcp hv6 => exact .relay id tcp v6 hid hrelay heq htcp hv6
  | inet hty heq hempty => exact .inet hty heq hempty
  | inetV6 hty heq honly => exact .inetV6 hty heq honly
  | lan hty heq => exact .lan hty heq

theorem Entry.mono {tcpAdded' v6Added' : Bool} (h : Entry relays tcpAdded v6Added e)
    (htcp : tcpAdded = true → tcpAdded' = true) (hv6 : v6Added = true → v6Added' = true) :
    Entry relays tcpAdded' v6Added' e := by
  cases h with
  | relay id tcp v6 hid hrelay heq htag htag' =>
    exact .relay id tcp v6 hid hrelay heq (fun h => htcp (htag h)) fun h => hv6 (htag' h)
  | inet hty heq hempty => exact .inet hty heq hempty
  | inetV6 hty heq honly => exact .inetV6 hty heq honly
  | lan hty heq => exact .lan hty heq

namespace EndpointTable

def ids (t : EndpointTable) : List (BitVec 64) := t.endpoints.map fun r => (t.heap r).id

def type (t : EndpointTable) (r : Nat) : EndpointType := (t.heap r).type

structure Inv (relays : List (BitVec 64)) (tcpAdded v6Added : Bool) (t : EndpointTable) : Prop where
  fresh : ∀ r ∈ t.endpoints, r < t.next
  nodup : t.ids.Nodup
  entries : ∀ r ∈ t.endpoints, Entry relays tcpAdded v6Added (t.heap r)
  current : t.currentEndpoint ∈ t.endpoints
  preferred : t.preferredRelay ∈ t.endpoints
  isRelay : (t.heap t.preferredRelay).isRelay = true
  /-- A call over UDP prefers UDP, unless TCP is used. -/
  preferredType : t.type t.currentEndpoint = .udpRelay ∨ t.type t.currentEndpoint = .udpP2pLan →
    t.type t.preferredRelay = .udpRelay ∨ t.useTCP = true
  hasRelay : t.type t.currentEndpoint = .udpP2pLan → ∃ r ∈ t.endpoints, t.type r = .udpRelay

variable {t t' : EndpointTable}

section
variable (h : t.Inv relays tcpAdded v6Added)
include h

/-- What the invariant reads. -/
theorem Inv.congr (hheap : ∀ r, (t'.heap r).id = (t.heap r).id ∧ (t'.heap r).type = (t.heap r).type)
    (hentries : ∀ r ∈ t.endpoints, Entry relays tcpAdded v6Added (t'.heap r)) (hnext : t'.next = t.next)
    (hendpoints : t'.endpoints = t.endpoints) (hcur : t'.currentEndpoint = t.currentEndpoint)
    (hpref : t'.preferredRelay = t.preferredRelay) (htcp : t.useTCP = true → t'.useTCP = true) :
    t'.Inv relays tcpAdded v6Added := by
  have hty (r : Nat) : t'.type r = t.type r := (hheap r).2
  refine ⟨?_, ?_, ?_, ?_, ?_, ?_, ?_, ?_⟩
  · rw [hendpoints, hnext]
    exact h.fresh
  · rw [ids, hendpoints, map_congr_left fun r _ => (hheap r).1]
    exact h.nodup
  · rw [hendpoints]
    exact hentries
  · rw [hcur, hendpoints]
    exact h.current
  · rw [hpref, hendpoints]
    exact h.preferred
  · rw [hpref, Endpoint.isRelay_iff, (hheap _).2, ← Endpoint.isRelay_iff]
    exact h.isRelay
  · rw [hcur, hpref, hty, hty]
    exact fun hc => (h.preferredType hc).imp_right htcp
  · rw [hcur, hty, hendpoints]
    simp only [hty]
    exact h.hasRelay

theorem Inv.withRTT {heap : Nat → Endpoint} (hheap : ∀ r, ∃ rtt, heap r = { t.heap r with averageRTT := rtt }) :
    Inv relays tcpAdded v6Added { t with heap := heap } := by
  refine h.congr (fun r => ?_) (fun r hr => ?_) rfl rfl rfl rfl id
  · obtain ⟨rtt, hr⟩ := hheap r
    dsimp only
    rw [hr]
    exact ⟨rfl, rfl⟩
  · obtain ⟨rtt, heq⟩ := hheap r
    dsimp only
    rw [heq]
    exact (h.entries r hr).withRTT rtt

theorem Inv.mono {tcpAdded' v6Added' : Bool} (htcp : tcpAdded = true → tcpAdded' = true)
    (hv6 : v6Added = true → v6Added' = true) : t.Inv relays tcpAdded' v6Added' :=
  { h with entries := fun r hr => (h.entries r hr).mono htcp hv6 }

end

/-! ## Endpoints come and go -/

variable {e : Endpoint} {r : Nat}

@[simp] theorem heap_push_of_lt (h : r < t.next) : (t.push e).heap r = t.heap r :=
  Function.update_of_ne (Nat.ne_of_lt h) _ _

@[simp] theorem heap_push_next (e : Endpoint) : (t.push e).heap t.next = e := Function.update_self _ _ _

theorem ids_push (hfresh : ∀ r ∈ t.endpoints, r < t.next) (e : Endpoint) : (t.push e).ids = t.ids ++ [e.id] := by
  show (t.endpoints ++ [t.next]).map _ = _
  rw [map_append, map_singleton, heap_push_next, ids,
    map_congr_left fun r hr => congrArg Endpoint.id (heap_push_of_lt (hfresh r hr))]

theorem mem_endpoints_push : r ∈ (t.push e).endpoints ↔ r ∈ t.endpoints ∨ r = t.next := by
  show r ∈ t.endpoints ++ [t.next] ↔ _
  rw [mem_append, mem_singleton]

section
variable (h : t.Inv relays tcpAdded v6Added)
include h

theorem Inv.push (hentry : Entry relays tcpAdded v6Added e) (hid : e.id ∉ t.ids) :
    (t.push e).Inv relays tcpAdded v6Added := by
  have hcur : (t.push e).heap t.currentEndpoint = t.heap t.currentEndpoint :=
    heap_push_of_lt (h.fresh _ h.current)
  have hpref : (t.push e).heap t.preferredRelay = t.heap t.preferredRelay :=
    heap_push_of_lt (h.fresh _ h.preferred)
  refine ⟨fun r hr => ?_, ?_, fun r hr => ?_, ?_, ?_, ?_, ?_, ?_⟩
  · show r < t.next + 1
    rcases mem_endpoints_push.mp hr with hr | rfl
    · exact Nat.lt_succ_of_lt (h.fresh r hr)
    · exact Nat.lt_succ_self _
  · rw [ids_push h.fresh, nodup_append]
    refine ⟨h.nodup, nodup_singleton _, fun id hold id' hnew heq => hid ?_⟩
    rwa [← mem_singleton.mp hnew, ← heq]
  · rcases mem_endpoints_push.mp hr with hr | rfl
    · rw [heap_push_of_lt (h.fresh r hr)]
      exact h.entries r hr
    · rw [heap_push_next]
      exact hentry
  · exact mem_endpoints_push.mpr (.inl h.current)
  · exact mem_endpoints_push.mpr (.inl h.preferred)
  · show ((t.push e).heap t.preferredRelay).isRelay = true
    rw [hpref]
    exact h.isRelay
  · show ((t.push e).heap t.currentEndpoint).type = _ ∨ ((t.push e).heap t.currentEndpoint).type = _ →
      ((t.push e).heap t.preferredRelay).type = _ ∨ _
    rw [hcur, hpref]
    exact h.preferredType
  · show ((t.push e).heap t.currentEndpoint).type = _ → _
    rw [hcur]
    intro hlan
    obtain ⟨r, hr, hty⟩ := h.hasRelay hlan
    refine ⟨r, mem_endpoints_push.mpr (.inl hr), ?_⟩
    rw [type, heap_push_of_lt (h.fresh r hr)]
    exact hty

theorem Inv.select {current preferred : Nat} (useTCP : Bool) (hcur : current ∈ t.endpoints)
    (hpref : preferred ∈ t.endpoints) (hrelay : (t.heap preferred).isRelay = true)
    (hty : t.type current = .udpRelay ∨ t.type current = .udpP2pLan → t.type preferred = .udpRelay ∨ useTCP = true)
    (hhas : t.type current = .udpP2pLan → ∃ r ∈ t.endpoints, t.type r = .udpRelay) :
    Inv relays tcpAdded v6Added { t with currentEndpoint := current, preferredRelay := preferred, useTCP := useTCP } :=
  ⟨h.fresh, h.nodup, h.entries, hcur, hpref, hrelay, hty, hhas⟩

theorem Inv.toRelay : Inv relays tcpAdded v6Added { t with currentEndpoint := t.preferredRelay } := by
  have hrelay := Endpoint.isRelay_iff.mp h.isRelay
  refine h.select t.useTCP h.preferred h.preferred h.isRelay (fun hty => .inl ?_) fun hlan => ?_
  · rcases hty with hudp | hlan
    · exact hudp
    · rw [type] at hlan
      simp [hlan] at hrelay
  · rw [type] at hlan
    simp [hlan] at hrelay

end

variable {p : Endpoint → Bool}

theorem mem_of_find (h : t.find p = some r) : r ∈ t.endpoints ∧ p (t.heap r) = true :=
  ⟨mem_of_find?_eq_some h, by simpa using find?_some h⟩

theorem not_of_find (h : t.find p = none) : ∀ r ∈ t.endpoints, p (t.heap r) = false :=
  fun r hr => by simpa using find?_eq_none.mp h r hr

theorem split_of_find (h : t.find p = some r) : ∃ before after, t.endpoints = before ++ r :: after ∧
      t.endpoints.eraseP (fun r => p (t.heap r)) = before ++ after := by
  obtain ⟨hr, before, after, hsplit, hbefore⟩ := find?_eq_some_iff_append.mp h
  refine ⟨before, after, hsplit, ?_⟩
  rw [hsplit, eraseP_append_right _ fun r hr => by simpa using hbefore r hr]
  exact congrArg (before ++ ·) (eraseP_cons_of_pos hr)

theorem Inv.erase (h : t.Inv relays tcpAdded v6Added) {endpoints : List Nat} (hsub : endpoints.Sublist t.endpoints)
    (hkept : ∀ r' ∈ t.endpoints, r' ≠ r → r' ∈ endpoints) (hrelay : (t.heap r).isRelay = false)
    (hcur : t.currentEndpoint ≠ r) : Inv relays tcpAdded v6Added { t with endpoints := endpoints } := by
  refine ⟨fun r hr => h.fresh r (hsub.subset hr), h.nodup.sublist (hsub.map _), fun r hr => h.entries r (hsub.subset hr),
    hkept _ h.current hcur, hkept _ h.preferred ?_, h.isRelay, h.preferredType, fun hlan => ?_⟩
  · rintro rfl
    exact absurd h.isRelay (by rw [hrelay]; exact Bool.false_ne_true)
  · obtain ⟨r', hr', hty⟩ := h.hasRelay hlan
    refine ⟨r', hkept r' hr' ?_, hty⟩
    rintro rfl
    rw [Bool.eq_false_iff, ne_eq, Endpoint.isRelay_iff] at hrelay
    exact hrelay (.inl hty)

theorem Inv.eraseFirst (h : t.Inv relays tcpAdded v6Added) (hp : ∀ e, p e = true → e.isRelay = false) :
    (t.eraseFirst p).Inv relays tcpAdded v6Added := by
  unfold EndpointTable.eraseFirst
  split
  case h_1 => exact h
  case h_2 r hfind =>
    obtain ⟨hr, hpr⟩ := mem_of_find hfind
    obtain ⟨before, after, hsplit, herase⟩ := split_of_find hfind
    have hkept : ∀ r' ∈ t.endpoints, r' ≠ r → r' ∈ t.endpoints.eraseP fun r => p (t.heap r) := by
      intro r' hr' hne
      rw [hsplit, mem_append, mem_cons] at hr'
      rw [herase, mem_append]
      exact hr'.imp_right (Or.resolve_left · hne)
    have hleft : Inv relays tcpAdded v6Added
        { t with currentEndpoint := if t.currentEndpoint = r then t.preferredRelay else t.currentEndpoint } := by
      split
      · exact h.toRelay
      · exact h
    refine hleft.erase eraseP_sublist hkept (hp _ hpr) ?_
    dsimp only
    split
    · rintro rfl
      exact absurd h.isRelay (by rw [hp _ hpr]; exact Bool.false_ne_true)
    · assumption

theorem not_mem_eraseFirst
    (hp : ∀ r ∈ t.endpoints, ∀ r' ∈ t.endpoints, p (t.heap r) = true → p (t.heap r') = true → r = r')
    (hnd : t.endpoints.Nodup) : ∀ r ∈ (t.eraseFirst p).endpoints, p (t.heap r) = false := by
  unfold EndpointTable.eraseFirst
  split
  case h_1 hfind => exact not_of_find hfind
  case h_2 r hfind =>
    obtain ⟨hr, hpr⟩ := mem_of_find hfind
    obtain ⟨before, after, hsplit, herase⟩ := split_of_find hfind
    intro r' hr'
    by_contra hpr'
    obtain rfl := hp r hr r' (mem_of_mem_eraseP hr') hpr (by simpa using hpr')
    rw [hsplit, nodup_middle] at hnd
    refine (nodup_cons.mp hnd).1 ?_
    rw [← herase]
    exact hr'

/-! ## The peer -/

theorem peer_iff (hids : AdmissibleIds relays) (h : Entry relays tcpAdded v6Added e) :
    (e.id = p2pInetId ↔ (e.type = .udpP2pInet && !e.isIPv6Only) = true) ∧
      (e.id = p2pInetV6Id ↔ (e.type = .udpP2pInet && e.isIPv6Only) = true) ∧
        (e.id = p2pLanId ↔ decide (e.type = .udpP2pLan) = true) := by
  have hdist : p2pInetId ≠ p2pInetV6Id ∧ p2pInetId ≠ p2pLanId ∧ p2pInetV6Id ≠ p2pLanId := by decide
  obtain ⟨hne, hne', hne''⟩ := hdist
  cases h with
  | relay id tcp v6 hid hrelay heq =>
    have hnot := hids.unreserved id hid tcp v6
    rw [← heq, reservedIds] at hnot
    simp only [mem_cons, not_mem_nil, or_false, not_or] at hnot
    rcases Endpoint.isRelay_iff.mp hrelay with hty | hty <;> simp [hnot, hty]
  | inet hty heq hv6 =>
    have honly : e.isIPv6Only = false := by simp [Endpoint.isIPv6Only, hv6]
    simp [hty, heq, honly, hne, hne']
  | inetV6 hty heq honly => simp [hty, heq, honly, hne.symm, hne'']
  | lan hty heq => simp [hty, heq, hne'.symm, hne''.symm]

theorem Inv.eq_of_id (h : t.Inv relays tcpAdded v6Added) {r' : Nat} (hr : r ∈ t.endpoints) (hr' : r' ∈ t.endpoints)
    (hid : (t.heap r).id = (t.heap r').id) : r = r' := inj_on_of_nodup_map h.nodup hr hr' hid

theorem heap_eraseFirst (p : Endpoint → Bool) : (t.eraseFirst p).heap = t.heap := by
  unfold EndpointTable.eraseFirst
  split <;> rfl

theorem endpoints_eraseFirst_subset (p : Endpoint → Bool) : (t.eraseFirst p).endpoints ⊆ t.endpoints := by
  unfold EndpointTable.eraseFirst
  split
  · exact fun _ => id
  · exact eraseP_subset

theorem Inv.handlePeerInfo (h : t.Inv relays tcpAdded v6Added) (hids : AdmissibleIds relays) (peerAddr : UInt32)
    (peerPort : UInt16) : (t.handlePeerInfo peerAddr peerPort).Inv relays tcpAdded v6Added := by
  unfold EndpointTable.handlePeerInfo
  split
  case isFalse => exact h
  case isTrue =>
    have hinet := h.eraseFirst (p := fun e => e.type = .udpP2pInet && !e.isIPv6Only) fun e he => by
      simp only [Bool.and_eq_true, decide_eq_true_eq] at he
      simp [Endpoint.isRelay, he.1]
    have hlan := hinet.eraseFirst (p := fun e => e.type = .udpP2pLan) fun e he => by
      rw [decide_eq_true_eq] at he
      simp [Endpoint.isRelay, he]
    have hpush := hlan.push (e := ⟨p2pInetId, peerPort, peerAddr, 0, .udpP2pInet, 0⟩) (.inet rfl rfl rfl) fun hm => ?_
    · exact hpush.congr (fun r => ⟨rfl, rfl⟩) hpush.entries rfl rfl rfl rfl id
    · obtain ⟨r, hr, hid⟩ := mem_map.mp hm
      rw [heap_eraseFirst, heap_eraseFirst] at hid
      have hr := endpoints_eraseFirst_subset _ hr
      have hr₀ := endpoints_eraseFirst_subset _ hr
      refine absurd ((peer_iff hids (h.entries r hr₀)).1.mp hid) ?_
      rw [not_mem_eraseFirst (fun r₁ hr₁ r₂ hr₂ h₁ h₂ => ?_) (List.Nodup.of_map _ h.nodup) r hr]
      · exact Bool.false_ne_true
      · refine h.eq_of_id hr₁ hr₂ ?_
        rw [(peer_iff hids (h.entries r₁ hr₁)).1.mpr h₁, (peer_iff hids (h.entries r₂ hr₂)).1.mpr h₂]

@[simp] theorem heap_modify (r : Nat) (f : Endpoint → Endpoint) : (t.modify r f).heap r = f (t.heap r) :=
  Function.update_self _ _ _

section
variable (h : t.Inv relays tcpAdded v6Added)
include h

theorem Inv.modify {f : Endpoint → Endpoint}
    (hf : (f (t.heap r)).id = (t.heap r).id ∧ (f (t.heap r)).type = (t.heap r).type)
    (hentry : r ∈ t.endpoints → Entry relays tcpAdded v6Added (f (t.heap r))) :
    (t.modify r f).Inv relays tcpAdded v6Added := by
  have hheap (r' : Nat) : (t.modify r f).heap r' = if r' = r then f (t.heap r) else t.heap r' :=
    Function.update_apply _ _ _ _
  refine h.congr (fun r' => ?_) (fun r' hr' => ?_) rfl rfl rfl rfl id
  · rw [hheap]
    split
    case isTrue heq => exact heq ▸ hf
    case isFalse => exact ⟨rfl, rfl⟩
  · rw [hheap]
    split
    case isTrue heq => exact hentry (heq ▸ hr')
    case isFalse => exact h.entries r' hr'

theorem Inv.handleLanEndpoint (hids : AdmissibleIds relays) (extra : Bool) (peerAddr : UInt32) (peerPort : UInt16) :
    (t.handleLanEndpoint extra peerAddr peerPort).Inv relays tcpAdded v6Added := by
  unfold EndpointTable.handleLanEndpoint
  split
  case isTrue => exact h
  case isFalse =>
    split
    case h_1 r hfind =>
      obtain ⟨hr, hlan⟩ := mem_of_find hfind
      have hty := of_decide_eq_true hlan
      have hid := (peer_iff hids (h.entries r hr)).2.2.mpr hlan
      have hmodify := h.modify (r := r) (f := fun e => { e with address := peerAddr }) ⟨rfl, rfl⟩ fun _ => .lan hty hid
      split
      · exact hmodify.toRelay
      · exact hmodify
    case h_2 hfind =>
      refine h.push (.lan rfl rfl) fun hm => ?_
      obtain ⟨r, hr, hid⟩ := mem_map.mp hm
      have hlan := (peer_iff hids (h.entries r hr)).2.2.mp hid
      rw [not_of_find hfind r hr] at hlan
      cases hlan

theorem Inv.toInet (hr : r ∈ t.endpoints) (hty : t.type r = .udpP2pInet) :
    Inv relays tcpAdded v6Added { t with currentEndpoint := r } :=
  h.select t.useTCP hr h.preferred h.isRelay (fun hc => by simp [hty] at hc) fun hc => by simp [hty] at hc

theorem Inv.handleIPv6Endpoint (hids : AdmissibleIds relays) {addr : BitVec 128} (haddr : addr ≠ 0) (port : UInt16) :
    (t.handleIPv6Endpoint addr port).Inv relays tcpAdded v6Added := by
  unfold EndpointTable.handleIPv6Endpoint
  split
  case isTrue => exact h
  case isFalse =>
    split
    case h_1 r hfind =>
      obtain ⟨hr, hinet⟩ := mem_of_find hfind
      have hid := (peer_iff hids (h.entries r hr)).2.1.mpr hinet
      simp only [Bool.and_eq_true, decide_eq_true_eq] at hinet
      obtain ⟨hty, honly⟩ := hinet
      have hstays : ({ t.heap r with v6address := addr } : Endpoint).isIPv6Only = true := by
        simp only [Endpoint.isIPv6Only, Bool.and_eq_true, decide_eq_true_eq] at honly ⊢
        exact ⟨honly.1, haddr⟩
      have hmodify := h.modify (r := r) (f := fun e => { e with v6address := addr }) ⟨rfl, rfl⟩
        fun _ => .inetV6 hty hid hstays
      split
      · refine hmodify.toInet hr ?_
        rw [type, heap_modify]
        exact hty
      · exact hmodify
    case h_2 hfind =>
      have honly : (⟨p2pInetV6Id, port, 0, addr, .udpP2pInet, 0⟩ : Endpoint).isIPv6Only = true := by
        simpa [Endpoint.isIPv6Only] using haddr
      have hpush := h.push (e := ⟨p2pInetV6Id, port, 0, addr, .udpP2pInet, 0⟩) (.inetV6 rfl rfl honly) fun hm => by
        obtain ⟨r, hr, hid⟩ := mem_map.mp hm
        have hinet := (peer_iff hids (h.entries r hr)).2.1.mp hid
        rw [not_of_find hfind r hr] at hinet
        cases hinet
      split
      · refine hpush.toInet (mem_endpoints_push.mpr (.inr rfl)) ?_
        rw [type, heap_push_next]
      · exact hpush

end

end EndpointTable

end TelegramClient.VoIP.Endpoints
