import TelegramClient.VoIP.EndpointInvariant

/-!
# Copies of relays

Relays are copied for TCP and for IPv6, once each.

* `EndpointTable.Sound` : the invariant, with the copies that the table says have been made.
-/

namespace TelegramClient.VoIP.Endpoints
open List

namespace EndpointTable

variable {relays : List (BitVec 64)} {tcpAdded v6Added : Bool} {t : EndpointTable}

theorem foldl_copies (tag : BitVec 64) {P : EndpointTable → Prop} {C Q : Endpoint → Prop}
    {step : EndpointTable → Nat → EndpointTable}
    (hstep : ∀ t r, P t → r < t.next → (C (t.heap r) → Q (t.heap r) ∧ (t.heap r).id ^^^ tag ∉ t.ids) →
      P (step t r) ∧ t.next ≤ (step t r).next ∧ (∀ r' < t.next, (step t r).heap r' = t.heap r') ∧
        ∀ id ∈ (step t r).ids, id ∈ t.ids ∨ id = (t.heap r).id ^^^ tag) {rs : List Nat} (hP : P t)
    (hrs : ∀ r ∈ rs, r < t.next ∧ (C (t.heap r) → Q (t.heap r) ∧ (t.heap r).id ^^^ tag ∉ t.ids))
    (hnd : (rs.map fun r => (t.heap r).id).Nodup) : P (rs.foldl step t) := by
  induction rs generalizing t with
  | nil => exact hP
  | cons r rs ih =>
    obtain ⟨⟨hlt, hnew⟩, hrest⟩ := forall_mem_cons.mp hrs
    obtain ⟨hP', hnext, hheap, hids⟩ := hstep t r hP hlt hnew
    rw [map_cons, nodup_cons] at hnd
    refine ih hP' (fun r' hr' => ?_) ?_
    · obtain ⟨hlt', hnew'⟩ := hrest r' hr'
      rw [hheap r' hlt']
      refine ⟨hlt'.trans_le hnext, fun hC => ⟨(hnew' hC).1, fun hm => ?_⟩⟩
      rcases hids _ hm with hold | hsame
      · exact (hnew' hC).2 hold
      · refine hnd.1 (mem_map.mpr ⟨r', hr', ?_⟩)
        rwa [BitVec.xor_comm, BitVec.xor_comm _ tag, BitVec.xor_right_inj] at hsame
    · rw [map_congr_left fun r' hr' => congrArg Endpoint.id (hheap r' (hrest r' hr').1)]
      exact hnd.2

def Uncopied (relays : List (BitVec 64)) (tcpAdded : Bool) (e : Endpoint) : Prop :=
  e.isRelay = true ∧ ∃ id ∈ relays, ∃ tcp, e.id = tagged id tcp false ∧ (tcp = true → tcpAdded = true)

variable (id : BitVec 64)

theorem tagged_xor_ipv6Tag (tcp : Bool) : tagged id tcp false ^^^ ipv6Tag = tagged id tcp true := by
  show id ^^^ _ ^^^ 0#64 ^^^ ipv6Tag = id ^^^ _ ^^^ ipv6Tag
  rw [BitVec.xor_zero]

theorem tagged_xor_tcpTag (v6 : Bool) : tagged id false v6 ^^^ tcpTag = tagged id true v6 := by
  show id ^^^ 0#64 ^^^ _ ^^^ tcpTag = id ^^^ tcpTag ^^^ _
  rw [BitVec.xor_zero, BitVec.xor_assoc, BitVec.xor_assoc, BitVec.xor_comm tcpTag]

theorem Inv.tagged_not_mem (h : t.Inv relays tcpAdded v6Added) (hids : AdmissibleIds relays) {id : BitVec 64}
    (hid : id ∈ relays) {tcp v6 : Bool} (hnew : tcp = true ∧ tcpAdded = false ∨ v6 = true ∧ v6Added = false) :
    tagged id tcp v6 ∉ t.ids := by
  intro hm
  obtain ⟨r, hr, heq⟩ := mem_map.mp hm
  have hreserved := hids.unreserved id hid tcp v6
  rw [← heq, reservedIds] at hreserved
  simp only [mem_cons, not_mem_nil, or_false, not_or] at hreserved
  cases h.entries r hr with
  | relay id' tcp' v6' hid' hrelay heq' htcp hv6 =>
    obtain ⟨-, rfl, rfl⟩ := hids.tagged_inj hid hid' (heq.symm.trans heq')
    rcases hnew with ⟨htag, hno⟩ | ⟨htag, hno⟩
    · cases (htcp htag).symm.trans hno
    · cases (hv6 htag).symm.trans hno
  | inet hty heq' => exact hreserved.1 heq'
  | inetV6 hty heq' => exact hreserved.2.1 heq'
  | lan hty heq' => exact hreserved.2.2 heq'

theorem Entry.uncopied {e : Endpoint} (h : Entry relays tcpAdded false e) (hrelay : e.isRelay = true) :
    Uncopied relays tcpAdded e := by
  cases h with
  | relay id tcp v6 hid _ heq htcp hv6 =>
    have hv6 : v6 = false := by simpa using hv6
    exact ⟨hrelay, id, hid, tcp, hv6 ▸ heq, htcp⟩
  | inet hty | inetV6 hty | lan hty => simp [Endpoint.isRelay, hty] at hrelay

variable {r : Nat}

theorem Inv.addIPv6Relay (h : t.Inv relays tcpAdded true) (hr : Uncopied relays tcpAdded (t.heap r))
    (hnew : (t.heap r).id ^^^ ipv6Tag ∉ t.ids) :
    (t.addIPv6Relay r).Inv relays tcpAdded true ∧ t.next ≤ (t.addIPv6Relay r).next ∧
      (∀ r' < t.next, (t.addIPv6Relay r).heap r' = t.heap r') ∧
      ∀ id ∈ (t.addIPv6Relay r).ids, id ∈ t.ids ∨ id = (t.heap r).id ^^^ ipv6Tag := by
  obtain ⟨hrelay, id, hid, tcp, heq, htcp⟩ := hr
  have hpush := h.push (e := { t.heap r with address := 0, id := (t.heap r).id ^^^ ipv6Tag })
    (.relay id tcp true hid hrelay (by rw [heq, tagged_xor_ipv6Tag]) htcp fun _ => rfl) hnew
  refine ⟨hpush.congr (fun _ => ⟨rfl, rfl⟩) hpush.entries rfl rfl rfl rfl fun h => h, Nat.le_succ _,
    fun r' hr' => heap_push_of_lt hr', fun id hm => ?_⟩
  have hm : id ∈ t.ids ++ [(t.heap r).id ^^^ ipv6Tag] :=
    ids_push h.fresh { t.heap r with address := 0, id := (t.heap r).id ^^^ ipv6Tag } ▸ hm
  exact (mem_append.mp hm).imp_right mem_singleton.mp

variable (rs : List Nat)

theorem flags_foldl_addIPv6Relay (t : EndpointTable) :
    (rs.foldl EndpointTable.addIPv6Relay t).didAddTcpRelays = t.didAddTcpRelays ∧
      (rs.foldl EndpointTable.addIPv6Relay t).didAddIPv6Relays = (t.didAddIPv6Relays || !rs.isEmpty) := by
  induction rs generalizing t with
  | nil => exact ⟨rfl, (Bool.or_false _).symm⟩
  | cons r rs ih =>
    obtain ⟨htcp, hv6⟩ := ih (t.addIPv6Relay r)
    exact ⟨htcp, hv6.trans (by simp [EndpointTable.addIPv6Relay])⟩

/-- The invariant, with the copies that the table says have been made. -/
def Sound (relays : List (BitVec 64)) (t : EndpointTable) : Prop := t.Inv relays t.didAddTcpRelays t.didAddIPv6Relays

theorem Sound.addIPv6Relays (h : t.Sound relays) (hids : AdmissibleIds relays) (map : MapOrder) :
    (t.addIPv6Relays map).Sound relays := by
  unfold EndpointTable.addIPv6Relays
  split
  case isFalse => exact h
  case isTrue hadd =>
    have hperm := map.perm (t.endpoints.filter fun r =>
      (t.heap r).isRelay && (t.heap r).v6address ≠ 0 && (t.heap r).address ≠ 0)
    generalize map.order _ = rs at hperm ⊢
    have hsub := (hperm.map fun r => (t.heap r).id).nodup_iff.mpr
      (h.nodup.sublist (filter_sublist.map _))
    have hrs : ∀ r ∈ rs, r < t.next ∧ (True → Uncopied relays t.didAddTcpRelays (t.heap r) ∧
        (t.heap r).id ^^^ ipv6Tag ∉ t.ids) := by
      intro r hr
      obtain ⟨hr, hkind⟩ := mem_filter.mp (hperm.mem_iff.mp hr)
      simp only [Bool.and_eq_true] at hkind
      have hentry := h.entries r hr
      rw [hadd.2] at hentry
      obtain ⟨hrelay, id, hid, tcp, heq, htcp⟩ := Entry.uncopied hentry hkind.1.1
      refine ⟨h.fresh r hr, fun _ => ⟨⟨hrelay, id, hid, tcp, heq, htcp⟩, ?_⟩⟩
      rw [heq, tagged_xor_ipv6Tag]
      exact h.tagged_not_mem hids hid (.inr ⟨rfl, hadd.2⟩)
    have hall : (rs.foldl EndpointTable.addIPv6Relay t).Inv relays t.didAddTcpRelays true :=
      foldl_copies ipv6Tag (C := fun _ => True) (fun _ _ hinv _ hnew => hinv.addIPv6Relay (hnew trivial).1 (hnew trivial).2)
        (h.mono (fun h => h) fun _ => rfl) hrs hsub
    obtain ⟨htcp, hv6⟩ := flags_foldl_addIPv6Relay rs t
    unfold Sound
    rw [htcp, hv6]
    cases rs with
    | nil => rw [isEmpty_nil, Bool.not_true, Bool.or_false]; exact h
    | cons r rs => rw [isEmpty_cons, Bool.not_false, Bool.or_true]; exact hall

def pushTcpRelay (t : EndpointTable) (r : Nat) : EndpointTable :=
  if (t.heap r).type ≠ .udpRelay then t
  else
    let t' := t.push { t.heap r with type := .tcpRelay, averageRTT := 0, id := (t.heap r).id ^^^ tcpTag }
    if t'.setCurrentEndpointToTCP ∧ (t'.heap t'.currentEndpoint).type ≠ .tcpRelay then
      { t' with setCurrentEndpointToTCP := false, currentEndpoint := t.next, preferredRelay := t.next }
    else t'

theorem foldl_addTcpRelay (x : EndpointTable × List Nat) : ({ (rs.foldl addTcpRelay x).1 with
        endpoints := (rs.foldl addTcpRelay x).1.endpoints ++ (rs.foldl addTcpRelay x).2 } : EndpointTable) =
      rs.foldl pushTcpRelay { x.1 with endpoints := x.1.endpoints ++ x.2 } := by
  induction rs generalizing x with
  | nil => rfl
  | cons r rs ih =>
    rw [foldl_cons, ih, foldl_cons]
    congr 1
    obtain ⟨t, news⟩ := x
    unfold addTcpRelay pushTcpRelay EndpointTable.push EndpointTable.make
    dsimp only
    split
    · rfl
    · split_ifs <;> simp only [append_assoc]

theorem flags_pushTcpRelay (t : EndpointTable) (r : Nat) :
    (t.pushTcpRelay r).useTCP = t.useTCP ∧ (t.pushTcpRelay r).didAddIPv6Relays = t.didAddIPv6Relays := by
  unfold pushTcpRelay
  dsimp only
  split_ifs <;> exact ⟨rfl, rfl⟩

theorem Inv.pushTcpRelay (h : t.Inv relays true v6Added) (htcp : t.useTCP = true) (hr : (t.heap r).type = .udpRelay →
      (∃ id ∈ relays, ∃ v6, (t.heap r).id = tagged id false v6 ∧ (v6 = true → v6Added = true)) ∧
        (t.heap r).id ^^^ tcpTag ∉ t.ids) :
    (t.pushTcpRelay r).Inv relays true v6Added ∧ t.next ≤ (t.pushTcpRelay r).next ∧
      (∀ r' < t.next, (t.pushTcpRelay r).heap r' = t.heap r') ∧
      ∀ id ∈ (t.pushTcpRelay r).ids, id ∈ t.ids ∨ id = (t.heap r).id ^^^ tcpTag := by
  unfold EndpointTable.pushTcpRelay
  split
  case isTrue => exact ⟨h, le_rfl, fun _ _ => rfl, fun _ => .inl⟩
  case isFalse hty =>
    obtain ⟨⟨id, hid, v6, heq, hv6⟩, hnew⟩ := hr (not_not.mp hty)
    generalize hcopy : ({ t.heap r with type := .tcpRelay, averageRTT := 0, id := (t.heap r).id ^^^ tcpTag } : Endpoint) =
      copy
    have hentry : Entry relays true v6Added copy :=
      .relay id true v6 hid (by rw [← hcopy]; rfl) (by rw [← hcopy, heq, tagged_xor_tcpTag]) (fun _ => rfl) hv6
    have hcopyId : copy.id = (t.heap r).id ^^^ tcpTag := by rw [← hcopy]
    have hcopyType : copy.type = .tcpRelay := by rw [← hcopy]
    have hpush := h.push hentry (hcopyId ▸ hnew)
    have hids : ∀ id ∈ (t.push copy).ids, id ∈ t.ids ∨ id = (t.heap r).id ^^^ tcpTag := by
      intro id hm
      rw [ids_push h.fresh, hcopyId] at hm
      exact (mem_append.mp hm).imp_right mem_singleton.mp
    have hheap : ∀ r' < t.next, (t.push copy).heap r' = t.heap r' := fun r' hr' => heap_push_of_lt hr'
    dsimp only
    split
    case isTrue =>
      refine ⟨?_, Nat.le_succ _, hheap, hids⟩
      have hnext : t.next ∈ (t.push copy).endpoints := mem_endpoints_push.mpr (.inr rfl)
      have hnextType : (t.push copy).type t.next = .tcpRelay := by rw [type, heap_push_next, hcopyType]
      have hselect := hpush.select t.useTCP hnext hnext
        (Endpoint.isRelay_iff.mpr (.inr hnextType)) (fun _ => .inr htcp) fun hlan => by rw [hnextType] at hlan; cases hlan
      exact hselect.congr (fun _ => ⟨rfl, rfl⟩) hselect.entries rfl rfl rfl rfl fun h => h
    case isFalse => exact ⟨hpush, Nat.le_succ _, hheap, hids⟩

theorem Sound.addTcpRelays (h : t.Sound relays) (hids : AdmissibleIds relays) : t.addTcpRelays.Sound relays := by
  unfold EndpointTable.addTcpRelays
  split
  case isFalse => exact h
  case isTrue hadd =>
    have hrs : ∀ r ∈ t.endpoints, r < t.next ∧ ((t.heap r).type = .udpRelay →
        (∃ id ∈ relays, ∃ v6, (t.heap r).id = tagged id false v6 ∧ (v6 = true → t.didAddIPv6Relays = true)) ∧
          (t.heap r).id ^^^ tcpTag ∉ t.ids) := by
      refine fun r hr => ⟨h.fresh r hr, fun hty => ?_⟩
      cases h.entries r hr with
      | relay id tcp v6 hid _ heq htcp hv6 =>
        obtain rfl : tcp = false := by simpa [hadd.2] using htcp
        refine ⟨⟨id, hid, v6, heq, hv6⟩, ?_⟩
        rw [heq, tagged_xor_tcpTag]
        exact h.tagged_not_mem hids hid (.inl ⟨rfl, hadd.2⟩)
      | inet hinet | inetV6 hinet | lan hinet => cases hty.symm.trans hinet
    have hall : (t.endpoints.foldl pushTcpRelay t).Inv relays true t.didAddIPv6Relays ∧
        (t.endpoints.foldl pushTcpRelay t).useTCP = true ∧
        (t.endpoints.foldl pushTcpRelay t).didAddIPv6Relays = t.didAddIPv6Relays := by
      refine foldl_copies tcpTag (C := fun e => e.type = .udpRelay)
        (Q := fun e => ∃ id ∈ relays, ∃ v6, e.id = tagged id false v6 ∧ (v6 = true → t.didAddIPv6Relays = true))
        (P := fun t' => t'.Inv relays true t.didAddIPv6Relays ∧ t'.useTCP = true ∧
          t'.didAddIPv6Relays = t.didAddIPv6Relays) (fun t' r hP _ hnew => ?_)
        ⟨h.mono (fun _ => rfl) fun h => h, hadd.1, rfl⟩ hrs h.nodup
      obtain ⟨hinv, htcp, hv6⟩ := hP
      obtain ⟨hinv', hrest⟩ := hinv.pushTcpRelay htcp hnew
      obtain ⟨htcp', hv6'⟩ := flags_pushTcpRelay t' r
      exact ⟨⟨hinv', htcp'.trans htcp, hv6'.trans hv6⟩, hrest⟩
    have hfold := foldl_addTcpRelay t.endpoints (t, [])
    dsimp only at hfold ⊢
    rw [append_nil] at hfold
    obtain ⟨hinv, -, hv6⟩ := hall
    have hflag : (t.endpoints.foldl addTcpRelay (t, [])).1.didAddIPv6Relays = t.didAddIPv6Relays :=
      (congrArg EndpointTable.didAddIPv6Relays hfold).trans hv6
    rw [← hfold] at hinv
    show Inv relays true _ _
    rw [show _ = t.didAddIPv6Relays from hflag]
    exact hinv.congr (fun _ => ⟨rfl, rfl⟩) hinv.entries rfl rfl rfl rfl fun h => h

end EndpointTable

end TelegramClient.VoIP.Endpoints
