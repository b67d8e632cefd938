import TelegramClient.VoIP.EndpointCopies

/-!
# The endpoints over whole calls

* **`endpoints_consistent`** : the current endpoint and the preferred relay are in the table, whose ids are distinct.
-/

namespace TelegramClient.VoIP.Endpoints
open List

namespace EndpointTable

variable {relays : List (BitVec 64)} {tcpAdded v6Added : Bool} {t t' : EndpointTable}

/-! ## Pings -/

def Preferable (t : EndpointTable) (r : Nat) : Prop :=
  r ∈ t.endpoints ∧ (t.heap r).isRelay = true ∧ (t.type r = .udpRelay ∨ t.useTCP = true)

theorem minPingRelay_spec (t : EndpointTable) (thresholds : PingThresholds) :
    (t.minPingRelay thresholds).2 = t.preferredRelay ∨ t.Preferable (t.minPingRelay thresholds).2 := by
  have hloop : ∀ (rs : List Nat) (best : ℚ × Nat), (∀ r ∈ rs, r ∈ t.endpoints) →
      best.2 = t.preferredRelay ∨ t.Preferable best.2 → (rs.foldl (t.minPing thresholds) best).2 = t.preferredRelay ∨
          t.Preferable (rs.foldl (t.minPing thresholds) best).2 := by
    intro rs
    induction rs with
    | nil => exact fun best _ hbest => hbest
    | cons r rs ih =>
      intro best hrs hbest
      obtain ⟨hr, hrs⟩ := forall_mem_cons.mp hrs
      refine ih _ hrs ?_
      unfold EndpointTable.minPing
      dsimp only
      generalize (if (t.heap r).type = .udpRelay then (1 : ℚ) else 2) = k
      split
      case isTrue hty =>
        split
        · exact .inr ⟨hr, Endpoint.isRelay_iff.mpr (hty.imp_right And.right), hty.imp_right And.left⟩
        · exact hbest
      case isFalse => exact hbest
  exact hloop t.endpoints _ (fun _ hr => hr) (.inl rfl)

variable {r : Nat}

theorem Inv.prefer (h : t.Inv relays tcpAdded v6Added) (hr : r = t.preferredRelay ∨ t.Preferable r) :
    (t.prefer r).Inv relays tcpAdded v6Added := by
  unfold EndpointTable.prefer
  split
  case isFalse => exact h
  case isTrue hne =>
    obtain ⟨hm, hrelay, hty⟩ := hr.resolve_left hne
    have hnot : t.type r ≠ .udpP2pLan := by
      intro hlan
      rcases Endpoint.isRelay_iff.mp hrelay with hudp | htcp
      · cases hudp.symm.trans hlan
      · cases htcp.symm.trans hlan
    split
    · exact h.select t.useTCP hm hm hrelay (fun _ => hty) fun hlan => absurd hlan hnot
    · exact h.select t.useTCP h.current hm hrelay (fun _ => hty) h.hasRelay

theorem getEndpointByType_spec {type : EndpointType} (hty : type ≠ .udpRelay)
    (h : t.getEndpointByType type = some r) : r ∈ t.endpoints ∧ t.type r = type := by
  rw [getEndpointByType, if_neg hty] at h
  obtain ⟨hr, hp⟩ := mem_of_find h
  exact ⟨hr, of_decide_eq_true hp⟩

theorem Inv.switchP2p (h : t.Inv relays tcpAdded v6Added) (thresholds : PingThresholds) (minPing : ℚ) :
    (t.switchP2p thresholds minPing).Inv relays tcpAdded v6Added := by
  unfold EndpointTable.switchP2p
  split
  case isTrue hudp =>
    split
    case h_1 => exact h
    case h_2 p2p hp2p =>
      obtain ⟨hp2pMem, hp2pType⟩ := getEndpointByType_spec (by decide) hp2p
      dsimp only
      split
      case h_1 lan hlan =>
        obtain ⟨hlan, -⟩ := Option.filter_eq_some_iff.mp hlan
        obtain ⟨hlanMem, -⟩ := getEndpointByType_spec (by decide) hlan
        exact h.select t.useTCP hlanMem h.preferred h.isRelay (fun _ => h.preferredType (.inl hudp))
          fun _ => ⟨_, h.current, hudp⟩
      case h_2 =>
        split
        · exact h.toInet hp2pMem hp2pType
        · exact h
  case isFalse =>
    split
    · exact h.toRelay
    · exact h

theorem Inv.sendRelayPings (h : t.Inv relays tcpAdded v6Added) (thresholds : PingThresholds) :
    (t.sendRelayPings thresholds).Inv relays tcpAdded v6Added := by
  unfold EndpointTable.sendRelayPings
  split
  · exact (h.prefer (minPingRelay_spec t thresholds)).switchP2p thresholds _
  · exact h

/-! ## Timeouts -/

theorem Inv.sendPublicEndpointsRequest (h : t.Inv relays tcpAdded v6Added) :
    t.sendPublicEndpointsRequest.Inv relays tcpAdded v6Added :=
  h.congr (fun _ => ⟨rfl, rfl⟩) h.entries rfl rfl rfl rfl id

theorem Inv.handleTimeout (h : t.Inv relays tcpAdded v6Added) : t.handleTimeout.Inv relays tcpAdded v6Added := by
  unfold EndpointTable.handleTimeout
  split
  case isTrue => exact h
  case isFalse =>
    refine (h.toRelay.withRTT fun r => ?_).sendPublicEndpointsRequest
    split
    · exact ⟨0, rfl⟩
    · exact ⟨(t.heap r).averageRTT, rfl⟩

/-! ## Networks -/

/-- What holds in the loop of `SetNetworkType`: the current endpoint is in the table, or one of the relays that are left
will take its place. -/
structure Leaving (relays : List (BitVec 64)) (tcpAdded v6Added : Bool) (t : EndpointTable) (rest : List Nat) : Prop where
  relayed : Inv relays tcpAdded v6Added { t with currentEndpoint := t.preferredRelay }
  mem : ∀ r ∈ rest, r ∈ t.endpoints
  current : (t.currentEndpoint ∈ t.endpoints ∧ t.type t.currentEndpoint ≠ .udpP2pLan ∧
      (t.type t.currentEndpoint = .udpRelay → t.type t.preferredRelay = .udpRelay ∨ t.useTCP = true)) ∨
    (t.useTCP = true ∧ t.type t.preferredRelay = .tcpRelay ∧ ∃ r ∈ rest, t.type r = .udpRelay)

variable {rs : List Nat}

theorem Leaving.finish (h : t.Leaving relays tcpAdded v6Added rs) (hr : r ∉ rs) : Leaving relays tcpAdded v6Added
      (if ((t.modify r fun e => { e with averageRTT := 0 }).heap r).type = .udpP2pLan then
        { t.modify r fun e => { e with averageRTT := 0 } with
          endpoints := (t.modify r fun e => { e with averageRTT := 0 }).endpoints.erase r }
      else t.modify r fun e => { e with averageRTT := 0 }) rs := by
  have hty (r' : Nat) : (t.modify r fun e => { e with averageRTT := 0 }).type r' = t.type r' := by
    show (Function.update t.heap r _ r').type = _
    rw [Function.update_apply]
    split
    case isTrue heq => exact heq ▸ rfl
    case isFalse => rfl
  have hmodify : Leaving relays tcpAdded v6Added (t.modify r fun e => { e with averageRTT := 0 }) rs := by
    refine ⟨h.relayed.modify (r := r) (f := fun e => { e with averageRTT := 0 }) ⟨rfl, rfl⟩ fun hr => ?_, h.mem, ?_⟩
    · exact (h.relayed.entries r hr).withRTT 0
    · simp only [hty]
      exact h.current
  split
  case isFalse => exact hmodify
  case isTrue hlan =>
    generalize (t.modify r fun e => { e with averageRTT := 0 }) = t at hmodify hlan
    have hrelay : (t.heap r).isRelay = false := by simp [Endpoint.isRelay, hlan]
    have hnd : t.endpoints.Nodup := List.Nodup.of_map _ hmodify.relayed.nodup
    have hne : t.preferredRelay ≠ r := by
      rintro rfl
      exact absurd hmodify.relayed.isRelay (by rw [hrelay]; exact Bool.false_ne_true)
    refine ⟨hmodify.relayed.erase erase_sublist (fun r' hr' hne => (mem_erase_of_ne hne).mpr hr') hrelay hne,
      fun r' hr' => (mem_erase_of_ne ?_).mpr (hmodify.mem r' hr'), hmodify.current.imp_left ?_⟩
    · rintro rfl
      exact hr hr'
    · rintro ⟨hm, hnot, hudp⟩
      have hcur : t.currentEndpoint ≠ r := by
        rintro rfl
        exact hnot hlan
      exact ⟨(mem_erase_of_ne hcur).mpr hm, hnot, hudp⟩

theorem Leaving.leaveNetwork (h : t.Leaving relays tcpAdded v6Added (r :: rs)) (hnd : (r :: rs).Nodup) :
    (t.leaveNetwork r).Leaving relays tcpAdded v6Added rs := by
  obtain ⟨hr, hrs⟩ := forall_mem_cons.mp h.mem
  have hnot := (nodup_cons.mp hnd).1
  unfold EndpointTable.leaveNetwork
  dsimp only
  split
  case isTrue hudp =>
    have hudp := hudp.1
    have hnotLan : t.type r ≠ .udpP2pLan := fun hlan => by cases hudp.symm.trans hlan
    split
    case isTrue =>
      -- The first relay over UDP takes over from the one over TCP.
      have hselect := h.relayed.select false hr hr (Endpoint.isRelay_iff.mpr (.inl hudp)) (fun _ => .inl hudp)
        fun hlan => absurd hlan hnotLan
      exact Leaving.finish (t := { t with useTCP := false, preferredRelay := r, currentEndpoint := r })
        ⟨hselect, hrs, .inl ⟨hr, hnotLan, fun _ => .inl hudp⟩⟩ hnot
    case isFalse htcp =>
      have hpref := (Endpoint.isRelay_iff.mp h.relayed.isRelay).resolve_right htcp
      have hselect := h.relayed.select false h.relayed.preferred h.relayed.preferred h.relayed.isRelay
        (fun _ => .inl hpref) fun hlan => by cases hpref.symm.trans hlan
      obtain ⟨hcur, hlan, -⟩ := h.current.resolve_right fun hwait => htcp hwait.2.1
      exact Leaving.finish (t := { t with useTCP := false })
        ⟨hselect, hrs, .inl ⟨hcur, hlan, fun _ => .inl hpref⟩⟩ hnot
  case isFalse hother =>
    refine Leaving.finish ⟨h.relayed, hrs, h.current.imp_right ?_⟩ hnot
    rintro ⟨htcp, hpref, r', hr', hty⟩
    refine ⟨htcp, hpref, r', (mem_cons.mp hr').resolve_left ?_, hty⟩
    rintro rfl
    exact hother ⟨hty, htcp⟩

theorem Leaving.foldl (h : t.Leaving relays tcpAdded v6Added rs) (hnd : rs.Nodup) :
    (rs.foldl EndpointTable.leaveNetwork t).Inv relays tcpAdded v6Added := by
  induction rs generalizing t with
  | nil =>
    obtain ⟨hcur, hlan, hudp⟩ := h.current.resolve_right fun ⟨_, _, r, hr, _⟩ => not_mem_nil hr
    exact h.relayed.select t.useTCP hcur h.relayed.preferred h.relayed.isRelay
      (fun hty => hudp (hty.resolve_right hlan)) fun hty => absurd hty hlan
  | cons r rs ih => exact ih (h.leaveNetwork hnd) (nodup_cons.mp hnd).2

theorem Inv.leaveEndpoint (h : t.Inv relays tcpAdded v6Added) : t.leaveEndpoint.Inv relays tcpAdded v6Added := by
  unfold EndpointTable.leaveEndpoint
  have hnd : t.endpoints.Nodup := List.Nodup.of_map _ h.nodup
  split
  case isFalse => exact h
  case isTrue hnot =>
    dsimp only
    split
    case isTrue hudp =>
      refine Leaving.foldl ⟨h.toRelay, fun _ hr => hr, .inl ⟨h.preferred, fun hlan => ?_, fun _ => .inl hudp⟩⟩ hnd
      cases hudp.symm.trans hlan
    case isFalse hpref =>
      have htcp := (Endpoint.isRelay_iff.mp h.isRelay).resolve_left hpref
      refine Leaving.foldl ⟨h.toRelay, fun _ hr => hr, ?_⟩ hnd
      by_cases hlan : t.type t.currentEndpoint = .udpP2pLan
      · exact .inr ⟨(h.preferredType (.inr hlan)).resolve_left hpref, htcp, h.hasRelay hlan⟩
      · exact .inl ⟨h.current, hlan, fun hudp => absurd hudp hnot⟩

/-! ## Events -/

/-- The copies that the table says have been made. -/
def copied (t : EndpointTable) : Bool × Bool := (t.didAddTcpRelays, t.didAddIPv6Relays)

theorem Sound.of_copied (h : t.Sound relays) (hcopied : t'.copied = t.copied)
    (hkeep : ∀ tcpAdded v6Added, t.Inv relays tcpAdded v6Added → t'.Inv relays tcpAdded v6Added) : t'.Sound relays := by
  obtain ⟨htcp, hv6⟩ := Prod.mk.inj hcopied
  unfold Sound
  rw [htcp, hv6]
  exact hkeep _ _ h

@[simp] theorem copied_eraseFirst (p : Endpoint → Bool) : (t.eraseFirst p).copied = t.copied := by
  unfold EndpointTable.eraseFirst
  split <;> rfl

theorem copied_handlePeerInfo (peerAddr : UInt32) (peerPort : UInt16) :
    (t.handlePeerInfo peerAddr peerPort).copied = t.copied := by
  unfold EndpointTable.handlePeerInfo
  split
  · exact (copied_eraseFirst _).trans (copied_eraseFirst _)
  · rfl

theorem copied_handleLanEndpoint (extra : Bool) (peerAddr : UInt32) (peerPort : UInt16) :
    (t.handleLanEndpoint extra peerAddr peerPort).copied = t.copied := by
  unfold EndpointTable.handleLanEndpoint
  split
  · rfl
  · split <;> rfl

theorem copied_handleIPv6Endpoint (addr : BitVec 128) (port : UInt16) :
    (t.handleIPv6Endpoint addr port).copied = t.copied := by
  unfold EndpointTable.handleIPv6Endpoint
  split
  · rfl
  · split <;> rfl

theorem copied_prefer (r : Nat) : (t.prefer r).copied = t.copied := by
  unfold EndpointTable.prefer
  split <;> rfl

variable (thresholds : PingThresholds)

theorem copied_switchP2p (minPing : ℚ) : (t.switchP2p thresholds minPing).copied = t.copied := by
  unfold EndpointTable.switchP2p
  split
  · split
    · rfl
    · dsimp only
      split
      · rfl
      · split <;> rfl
  · split <;> rfl

theorem copied_sendRelayPings : (t.sendRelayPings thresholds).copied = t.copied := by
  unfold EndpointTable.sendRelayPings
  split
  · exact (copied_switchP2p thresholds _).trans (copied_prefer _)
  · rfl

theorem copied_handleTimeout : t.handleTimeout.copied = t.copied := by
  unfold EndpointTable.handleTimeout
  split <;> rfl

theorem copied_leaveNetwork (r : Nat) : (t.leaveNetwork r).copied = t.copied := by
  unfold EndpointTable.leaveNetwork
  dsimp only
  split_ifs <;> rfl

theorem copied_leaveEndpoint : t.leaveEndpoint.copied = t.copied := by
  have hloop : ∀ (rs : List Nat) (t : EndpointTable), (rs.foldl EndpointTable.leaveNetwork t).copied = t.copied := by
    intro rs
    induction rs with
    | nil => exact fun _ => rfl
    | cons r rs ih => exact fun t => (ih _).trans (copied_leaveNetwork r)
  unfold EndpointTable.leaveEndpoint
  dsimp only
  split
  · rw [hloop]
    split <;> rfl
  · rfl

theorem Inv.overTCP (h : t.Inv relays tcpAdded v6Added) :
    Inv relays tcpAdded v6Added { t with useTCP := true, useUDP := false } :=
  h.congr (fun _ => ⟨rfl, rfl⟩) h.entries rfl rfl rfl rfl fun _ => rfl

theorem Sound.setNetworkType (h : t.Sound relays) (hids : AdmissibleIds relays) (itfName : String) (myIPv6 : BitVec 128)
    (proxyFails : Bool) (map : MapOrder) : (t.setNetworkType itfName myIPv6 proxyFails map).Sound relays := by
  have hsame : ∀ tcpAdded v6Added, t.Inv relays tcpAdded v6Added →
      Inv relays tcpAdded v6Added { t with myIPv6 := myIPv6 } :=
    fun _ _ h => h.congr (fun _ => ⟨rfl, rfl⟩) h.entries rfl rfl rfl rfl fun h => h
  have hname : ∀ tcpAdded v6Added, t.Inv relays tcpAdded v6Added →
      Inv relays tcpAdded v6Added { t with myIPv6 := myIPv6, activeNetItfName := itfName } :=
    fun _ _ h => h.congr (fun _ => ⟨rfl, rfl⟩) h.entries rfl rfl rfl rfl fun h => h
  unfold EndpointTable.setNetworkType
  dsimp only
  split
  · exact h.of_copied rfl hsame
  · split
    · exact h.of_copied rfl hname
    · refine Sound.addIPv6Relays ?_ hids map
      have hleave : ({ t with myIPv6 := myIPv6, activeNetItfName := itfName } : EndpointTable).leaveEndpoint.Sound relays :=
        h.of_copied copied_leaveEndpoint fun tcpAdded v6Added h => (hname tcpAdded v6Added h).leaveEndpoint
      split
      · exact hleave.of_copied rfl fun _ _ h => h.overTCP.sendPublicEndpointsRequest
      · exact hleave.of_copied rfl fun _ _ h => h.sendPublicEndpointsRequest

theorem Sound.step (h : t.Sound relays) (hids : AdmissibleIds relays) (thresholds : PingThresholds) (map : MapOrder)
    {event : EndpointEvent} (hev : ∀ addr port, event = .ipv6Endpoint addr port → addr ≠ 0) :
    (stepEndpoints thresholds map t event).Sound relays := by
  cases event with
  | peerInfo peerAddr peerPort =>
    exact h.of_copied (copied_handlePeerInfo peerAddr peerPort) fun _ _ h => h.handlePeerInfo hids peerAddr peerPort
  | lanEndpoint extra peerAddr peerPort =>
    exact h.of_copied (copied_handleLanEndpoint extra peerAddr peerPort) fun _ _ h =>
      h.handleLanEndpoint hids extra peerAddr peerPort
  | ipv6Endpoint addr port =>
    exact h.of_copied (copied_handleIPv6Endpoint addr port) fun _ _ h =>
      h.handleIPv6Endpoint hids (hev addr port rfl) port
  | relayPings => exact h.of_copied (copied_sendRelayPings thresholds) fun _ _ h => h.sendRelayPings thresholds
  | addTcpRelays => exact h.addTcpRelays hids
  | loseUDP unavailable =>
    refine h.of_copied ?_ fun _ _ h => ?_
    · cases unavailable <;> rfl
    · cases unavailable <;> exact h.congr (fun _ => ⟨rfl, rfl⟩) h.entries rfl rfl rfl rfl fun _ => rfl
  | timeout => exact h.of_copied copied_handleTimeout fun _ _ h => h.handleTimeout
  | networkType itfName myIPv6 proxyFails => exact h.setNetworkType hids itfName myIPv6 proxyFails map
  | publicEndpointsRequest => exact h.of_copied rfl fun _ _ h => h.sendPublicEndpointsRequest
  | requestExpired =>
    exact h.of_copied rfl fun _ _ h => h.congr (fun _ => ⟨rfl, rfl⟩) h.entries rfl rfl rfl rfl fun h => h
  | pong r averageRTT =>
    exact h.of_copied rfl fun _ _ h =>
      h.modify (f := fun e => { e with averageRTT := averageRTT }) ⟨rfl, rfl⟩ fun hr => (h.entries r hr).withRTT averageRTT

/-! ## Calls -/

variable {endpoints : List Endpoint}

theorem Inv.foldl_push (h : t.Inv relays tcpAdded v6Added)
    (hrelay : ∀ e ∈ endpoints, e.isRelay = true ∧ e.id ∈ relays) (hnd : (t.ids ++ endpoints.map Endpoint.id).Nodup) :
    (endpoints.foldl EndpointTable.push t).Inv relays tcpAdded v6Added := by
  induction endpoints generalizing t with
  | nil => exact h
  | cons e endpoints ih =>
    obtain ⟨⟨hisRelay, hid⟩, hrest⟩ := forall_mem_cons.mp hrelay
    have hentry : Entry relays tcpAdded v6Added e :=
      .relay e.id false false hid hisRelay (by simp [tagged]) nofun nofun
    refine ih (h.push hentry fun hm => ?_) hrest ?_
    · exact (nodup_append.mp hnd).2.2 e.id hm e.id mem_cons_self rfl
    · rw [ids_push h.fresh, append_assoc]
      exact hnd

/-- The first endpoint, which is chosen before it is added. -/
def single (t : EndpointTable) (e : Endpoint) (useTCP didAddTcpRelays : Bool) : EndpointTable :=
  push
    { t with
      endpoints := []
      currentEndpoint := t.next
      preferredRelay := t.next
      useTCP := useTCP
      didAddTcpRelays := didAddTcpRelays }
    e

theorem ids_single (t : EndpointTable) (e : Endpoint) (useTCP didAddTcpRelays : Bool) :
    (t.single e useTCP didAddTcpRelays).ids = [e.id] :=
  ids_push (fun _ hr => absurd hr not_mem_nil) e

theorem Inv.single (t : EndpointTable) {e : Endpoint} (hrelay : e.isRelay = true) (hid : e.id ∈ relays)
    (useTCP didAddTcpRelays : Bool) : (t.single e useTCP didAddTcpRelays).Inv relays tcpAdded v6Added := by
  have hheap : (t.single e useTCP didAddTcpRelays).heap t.next = e := Function.update_self _ _ _
  have hm : ∀ r ∈ (t.single e useTCP didAddTcpRelays).endpoints, r = t.next := fun r hr => mem_singleton.mp hr
  have hnotLan : (t.single e useTCP didAddTcpRelays).type t.next ≠ .udpP2pLan := by
    rw [type, hheap]
    rintro hlan
    simp [Endpoint.isRelay, hlan] at hrelay
  refine ⟨fun r hr => ?_, ?_, fun r hr => ?_, mem_singleton_self _, mem_singleton_self _, ?_, fun hty => ?_,
    fun hlan => absurd hlan hnotLan⟩
  · rw [hm r hr]
    exact Nat.lt_succ_self _
  · rw [ids_single]
    exact nodup_singleton _
  · rw [hm r hr, hheap]
    exact .relay e.id false false hid hrelay (by simp [tagged]) Bool.noConfusion Bool.noConfusion
  · show ((t.single e useTCP didAddTcpRelays).heap t.next).isRelay = true
    rw [hheap]
    exact hrelay
  · exact .inl (hty.resolve_right hnotLan)

theorem foldl_push_select (endpoints : List Endpoint) (t : EndpointTable) (r : Nat) (useTCP didAddTcpRelays : Bool) :
    ({ endpoints.foldl EndpointTable.push t with
        currentEndpoint := r
        preferredRelay := r
        useTCP := useTCP
        didAddTcpRelays := didAddTcpRelays } : EndpointTable) =
      endpoints.foldl EndpointTable.push
        { t with currentEndpoint := r, preferredRelay := r, useTCP := useTCP, didAddTcpRelays := didAddTcpRelays } := by
  induction endpoints generalizing t with
  | nil => rfl
  | cons e endpoints ih => exact ih (t.push e)

theorem Sound.setRemoteEndpoints (t : EndpointTable) (hne : endpoints ≠ [])
    (hrelay : ∀ e ∈ endpoints, e.isRelay = true) (hids : AdmissibleIds (endpoints.map Endpoint.id)) (map : MapOrder) :
    (t.setRemoteEndpoints endpoints map).Sound (endpoints.map Endpoint.id) := by
  refine Sound.addIPv6Relays ?_ hids map
  rw [foldl_push_select]
  generalize (!endpoints.any fun e => e.type = EndpointType.udpRelay) = useTCP
  generalize (endpoints.any fun e => e.type = EndpointType.tcpRelay) = didAddTcpRelays
  have hm : ∀ e ∈ endpoints, e.isRelay = true ∧ e.id ∈ endpoints.map Endpoint.id :=
    fun e he => ⟨hrelay e he, mem_map.mpr ⟨e, he, rfl⟩⟩
  have hnd := hids.nodup
  generalize hrelays : endpoints.map Endpoint.id = relays at hm hnd ⊢
  cases endpoints with
  | nil => exact absurd rfl hne
  | cons e endpoints =>
    obtain ⟨⟨hisRelay, hid⟩, hrest⟩ := forall_mem_cons.mp hm
    refine (Inv.single t hisRelay hid useTCP didAddTcpRelays).foldl_push hrest ?_
    rw [ids_single, singleton_append, ← map_cons, hrelays]
    exact hnd

theorem Sound.foldl (h : t.Sound relays) (hids : AdmissibleIds relays) (thresholds : PingThresholds) (map : MapOrder)
    {events : List EndpointEvent} (hevents : ∀ addr port, .ipv6Endpoint addr port ∈ events → addr ≠ 0) :
    (events.foldl (stepEndpoints thresholds map) t).Sound relays := by
  induction events generalizing t with
  | nil => exact h
  | cons event events ih =>
    refine ih (h.step hids thresholds map fun addr port heq => ?_) fun addr port hm => ?_
    · exact hevents addr port (heq ▸ mem_cons_self)
    · exact hevents addr port (mem_cons_of_mem _ hm)

theorem Inv.getEndpointByID (h : t.Inv relays tcpAdded v6Added) (hr : r ∈ t.endpoints) :
    t.getEndpointByID (t.heap r).id = some r := by
  cases hfind : t.getEndpointByID (t.heap r).id with
  | none => exact absurd (not_of_find hfind r hr) (by simp)
  | some r' =>
    obtain ⟨hr', hid⟩ := mem_of_find hfind
    exact congrArg some (h.eq_of_id hr' hr (of_decide_eq_true hid))

theorem getEndpointByID_eq_none {id : BitVec 64} (hid : id ∉ t.ids) : t.getEndpointByID id = none := by
  refine find?_eq_none.mpr fun r hr heq => hid (mem_map.mpr ⟨r, hr, ?_⟩)
  exact of_decide_eq_true heq

/-- The endpoints of a call are consistent if no relay has an id of the peer, and the peer has no empty address. -/
theorem endpoints_consistent (thresholds : PingThresholds) (map : MapOrder) (allowP2p : Bool) (myIPv6 : BitVec 128)
    (activeNetItfName : String) (endpoints : List Endpoint) (hne : endpoints ≠ [])
    (hrelay : ∀ e ∈ endpoints, e.isRelay = true) (hids : AdmissibleIds (endpoints.map Endpoint.id))
    (events : List EndpointEvent) (hevents : ∀ addr port, .ipv6Endpoint addr port ∈ events → addr ≠ 0) :
    let t := events.foldl (stepEndpoints thresholds map)
      ((init allowP2p myIPv6 activeNetItfName).setRemoteEndpoints endpoints map)
    t.currentEndpoint ∈ t.endpoints ∧ t.preferredRelay ∈ t.endpoints ∧
      (t.heap t.preferredRelay).isRelay = true ∧ t.ids.Nodup ∧
        (∀ r ∈ t.endpoints, t.getEndpointByID (t.heap r).id = some r) ∧
          ∀ id, id ∉ t.ids → t.getEndpointByID id = none := by
  have hstart := Sound.setRemoteEndpoints (init allowP2p myIPv6 activeNetItfName) hne hrelay hids map
  have hsound := hstart.foldl hids thresholds map hevents
  intro t
  exact ⟨hsound.current, hsound.preferred, hsound.isRelay, hsound.nodup, fun _ hr => hsound.getEndpointByID hr,
    fun _ hid => getEndpointByID_eq_none hid⟩

/-- A relay, of which there is a copy over TCP, and the peer with an address in version 6. -/
theorem endpoints_consistent_relay :
    let t := [.loseUDP false, .addTcpRelays, .ipv6Endpoint 1 0].foldl
      (stepEndpoints ⟨1, 1, 1, fun a b => a * b⟩ ⟨fun rs => rs, fun _ => .refl _⟩)
      ((init true 0 "").setRemoteEndpoints [⟨1, 0, 1, 0, .udpRelay, 0⟩] ⟨fun rs => rs, fun _ => .refl _⟩)
    t.currentEndpoint ∈ t.endpoints ∧ t.preferredRelay ∈ t.endpoints ∧
      (t.heap t.preferredRelay).isRelay = true ∧ t.ids.Nodup ∧
        (∀ r ∈ t.endpoints, t.getEndpointByID (t.heap r).id = some r) ∧
          ∀ id, id ∉ t.ids → t.getEndpointByID id = none :=
  endpoints_consistent ⟨1, 1, 1, fun a b => a * b⟩ ⟨fun rs => rs, fun _ => .refl _⟩ true 0 ""
    [⟨1, 0, 1, 0, .udpRelay, 0⟩] (cons_ne_nil _ _) (forall_mem_singleton.mpr rfl)
    ⟨pairwise_singleton _ _, forall_mem_singleton.mpr (by decide +kernel)⟩
    [.loseUDP false, .addTcpRelays, .ipv6Endpoint 1 0] fun addr port hmem => by
      simp only [mem_cons, reduceCtorEq, EndpointEvent.ipv6Endpoint.injEq, not_mem_nil, false_or,
        or_false] at hmem
      rw [hmem.1]
      decide

/-- A relay whose id is that of the peer, and a peer without an address that announces two ports. -/
theorem reserved_ids_shared :
    let thresholds : PingThresholds := ⟨1, 1, 1, fun a b => a * b⟩
    let map : MapOrder := ⟨fun rs => rs, fun _ => .refl _⟩
    ¬ ([.publicEndpointsRequest, .peerInfo 5 6].foldl (stepEndpoints thresholds map)
        ((init true 0 "").setRemoteEndpoints [⟨p2pInetId, 0, 1, 0, .udpRelay, 0⟩] map)).ids.Nodup ∧
      ¬ ([.ipv6Endpoint 0 1, .ipv6Endpoint 0 2].foldl (stepEndpoints thresholds map)
        ((init true 0 "").setRemoteEndpoints [⟨1, 0, 1, 0, .udpRelay, 0⟩] map)).ids.Nodup := by
  decide

end EndpointTable

end TelegramClient.VoIP.Endpoints
