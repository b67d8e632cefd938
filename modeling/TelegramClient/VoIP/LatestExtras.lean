import TelegramClient.VoIP.Acknowledgements
import TelegramClient.VoIP.HeaderRoundTrip

/-!
# The latest extra of a call

An extra is in every header until a header that has it is acknowledged. The other side applies the extras of all the
packets that it accepts, also of packets behind the newest one; `ProcessExtraData` drops an extra only if it is the last
one of its type.

* `Peer.ExtrasInv` : one direction of the call;
* **`latest_extra_wins`** : in the runs with extras in order, an acknowledged extra is the one that was applied last.
-/

namespace TelegramClient.VoIP
open Function (update update_eq_self update_of_ne update_self)
open List (forall_mem_append forall_mem_nil forall_mem_singleton mem_cons mem_cons_of_mem mem_cons_self mem_map
  not_mem_nil)
open UnacknowledgedExtraData (bytes isAcknowledged)
open ApiExtra (streamFlags)
open Vector (replicate)

/-! ## Extras that are applied -/

def UniqueTypes (extras : List Bytes) : Prop :=
  ∀ type content content', type :: content ∈ extras → type :: content' ∈ extras → content = content'

theorem UniqueTypes.tail {e : Bytes} {extras : List Bytes} (h : UniqueTypes (e :: extras)) : UniqueTypes extras :=
  fun type content content' hm hmem' =>
    h type content content' (mem_cons_of_mem e hm) (mem_cons_of_mem e hmem')

namespace Peer

variable (sha1 : Bytes → Bytes)

/-- `ProcessExtraData` returns at once. -/
def dropsExtra (p : Peer) : Bytes → Bool
  | [] => true
  | type :: content => p.lastReceivedExtrasByType type == extraHash sha1 (type :: content)

def hasApplied (p : Peer) : Bytes → Bool
  | [] => true
  | type :: content => p.applied type == some content

variable (p : Peer) (type : UInt8) (content : Bytes)

theorem dropsExtra_cons :
    p.dropsExtra sha1 (type :: content) = (p.lastReceivedExtrasByType type == extraHash sha1 (type :: content)) := rfl

theorem hasApplied_cons : p.hasApplied (type :: content) = (p.applied type == some content) := rfl

theorem processExtraData_cons
    (hfilter : p.dropsExtra sha1 (type :: content) = true → p.hasApplied (type :: content) = true) :
    (p.processExtraData sha1 (type :: content)).applied = update p.applied type (some content) ∧
      (p.processExtraData sha1 (type :: content)).lastReceivedExtrasByType =
        update p.lastReceivedExtrasByType type (extraHash sha1 (type :: content)) := by
  unfold processExtraData
  dsimp only
  split
  case isTrue hhash =>
    have happlied := beq_iff_eq.mp (hfilter (beq_iff_eq.mpr hhash))
    rw [← happlied, ← hhash, update_eq_self, update_eq_self]
    exact ⟨rfl, rfl⟩
  case isFalse => exact ⟨rfl, rfl⟩

theorem applied_foldl {extras : List Bytes} (hunique : UniqueTypes extras) {p : Peer}
    (hfilter : ∀ e ∈ extras, p.dropsExtra sha1 e = true → p.hasApplied e = true) :
    (∀ type content, type :: content ∈ extras →
        (extras.foldl (processExtraData sha1) p).applied type = some content) ∧
      ∀ type, (∀ content, type :: content ∉ extras) →
        (extras.foldl (processExtraData sha1) p).applied type = p.applied type := by
  induction extras generalizing p with
  | nil => exact ⟨fun _ _ h => absurd h not_mem_nil, fun _ _ => rfl⟩
  | cons e extras ih =>
    obtain ⟨hfirst, hrest⟩ := List.forall_mem_cons.mp hfilter
    cases e with
    | nil =>
      obtain ⟨hcarried, hother⟩ := ih hunique.tail hrest
      refine ⟨fun type content hm => ?_, fun type hnone => ?_⟩
      · exact hcarried type content (List.mem_of_ne_of_mem (List.cons_ne_nil _ _) hm)
      · exact hother type fun content hm => hnone content (mem_cons_of_mem _ hm)
    | cons type content =>
      obtain ⟨happlied, hhash⟩ := processExtraData_cons sha1 p type content hfirst
      have hsame : ∀ content', type :: content' ∈ extras → content' = content := fun content' hm =>
        hunique type content' content (mem_cons_of_mem _ hm) mem_cons_self
      rw [List.foldl_cons]
      generalize p.processExtraData sha1 (type :: content) = p' at happlied hhash
      have hfilter' : ∀ e ∈ extras, p'.dropsExtra sha1 e = true → p'.hasApplied e = true := by
        intro e hm
        cases e with
        | nil => exact fun h => h
        | cons type' content' =>
          have hold := hrest _ hm
          rw [dropsExtra_cons, hasApplied_cons] at hold ⊢
          rw [happlied, hhash]
          by_cases hty : type' = type
          · subst hty
            rw [update_self, update_self, hsame content' hm]
            exact fun _ => beq_self_eq_true _
          · rwa [update_of_ne hty, update_of_ne hty]
      obtain ⟨hcarried, hother⟩ := ih hunique.tail hfilter'
      refine ⟨fun type' content' hm => ?_, fun type' hnone => ?_⟩
      · by_cases hlater : ∃ content', type' :: content' ∈ extras
        · obtain ⟨later, hlater⟩ := hlater
          rw [hcarried type' later hlater, hunique type' later content' (mem_cons_of_mem _ hlater) hm]
        · rw [hother type' fun later hlater' => hlater ⟨later, hlater'⟩, happlied]
          rcases mem_cons.mp hm with heq | hm
          · obtain ⟨rfl, rfl⟩ := List.cons.inj heq
            rw [update_self]
          · exact absurd ⟨content', hm⟩ hlater
      · rw [hother type' fun content' hm => hnone content' (mem_cons_of_mem _ hm), happlied,
          update_of_ne]
        rintro rfl
        exact hnone content mem_cons_self

theorem processAcks_frame (d : Datagram) (now : Int) :
    (p.processAcks d now).peerVersion = p.peerVersion ∧ (p.processAcks d now).applied = p.applied ∧
      (p.processAcks d now).lastReceivedExtrasByType = p.lastReceivedExtrasByType ∧
      (p.processAcks d now).lastSent = p.lastSent ∧ (p.processAcks d now).firstNumber = p.firstNumber := by
  unfold processAcks
  split <;> exact ⟨rfl, rfl, rfl, rfl, rfl⟩

theorem applied_processHeader {p : Peer} {d : Datagram} {now : Int}
    (hrecv : (p.receiver.receive ⟨d.number, now⟩).isSome = true)
    (hver : d.header.extras ≠ [] → 6 ≤ p.peerVersion) (hunique : UniqueTypes d.header.extras)
    (hfilter : ∀ e ∈ d.header.extras, p.dropsExtra sha1 e = true → p.hasApplied e = true) :
    (∀ type content, type :: content ∈ d.header.extras → (p.processHeader sha1 d now).applied type = some content) ∧
      ∀ type, (∀ content, type :: content ∉ d.header.extras) →
        (p.processHeader sha1 d now).applied type = p.applied type := by
  obtain ⟨receiver, hrecv⟩ := Option.isSome_iff_exists.mp hrecv
  simp only [processHeader, hrecv]
  obtain ⟨hpeerVersion, happlied, hhashes, -, -⟩ := processAcks_frame { p with receiver := receiver } d now
  generalize { p with receiver := receiver }.processAcks d now = p' at *
  unfold processExtras
  split
  · have hfilter' : ∀ e ∈ d.header.extras, p'.dropsExtra sha1 e = true → p'.hasApplied e = true := by
      intro e hm
      have hold := hfilter e hm
      cases e with
      | nil => exact fun h => h
      | cons type content =>
        rw [dropsExtra_cons, hasApplied_cons] at hold ⊢
        rwa [happlied, hhashes]
    have hspec := applied_foldl sha1 hunique hfilter'
    rwa [happlied] at hspec
  case isFalse hold =>
    have hempty : d.header.extras = [] := not_not.mp fun hne => hold (hpeerVersion ▸ hver hne)
    rw [hempty]
    exact ⟨fun _ _ h => absurd h not_mem_nil, fun type _ => congrFun happlied type⟩

/-! ## One direction of the call -/

variable {x y : UnacknowledgedExtraData}

theorem bytes_injective (h : x.bytes = y.bytes) : x.type = y.type ∧ x.data = y.data :=
  List.cons.inj h

/-- The extra of this type has been in a header since it was sent last. -/
def Contained (p : Peer) (type : UInt8) : Prop := ∀ x ∈ p.currentExtras, x.type = type → x.firstContainingSeq ≠ 0

/-- The extras of `p`, which has sent `sent`, and of the other side `q`. -/
structure ExtrasInv (p : Peer) (sent : List Datagram) (q : Peer) : Prop where
  nodup : (p.currentExtras.map UnacknowledgedExtraData.type).Nodup
  data : ∀ x ∈ p.currentExtras, p.lastSent x.type = some x.data
  first : ∀ x ∈ p.currentExtras, x.firstContainingSeq ≠ 0 →
    x.firstContainingSeq = UInt32.ofInt (p.firstNumber x.type)
  unique : ∀ d ∈ sent, UniqueTypes d.header.extras
  highest : q.receiver.highest = 0 ∨ ∃ d ∈ sent, d.number = q.receiver.highest
  /-- From its first header on every header has the extra. -/
  carried : ∀ x ∈ p.currentExtras, x.firstContainingSeq ≠ 0 → ∀ d ∈ sent, p.firstNumber x.type ≤ d.number →
    x.bytes ∈ d.header.extras
  /-- No header after that has another one of its type. -/
  only : ∀ type data, p.lastSent type = some data → p.Contained type → ∀ d ∈ sent, p.firstNumber type ≤ d.number →
    ∀ content, type :: content ∈ d.header.extras → content = data
  applied : ∀ type data, p.lastSent type = some data → p.Contained type → p.firstNumber type ≤ q.receiver.highest →
    q.applied type = some data
  acknowledged : ∀ type data, p.lastSent type = some data → (∀ x ∈ p.currentExtras, x.type ≠ type) →
    p.firstNumber type ≤ q.receiver.highest

theorem eq_of_type_eq {extras : List UnacknowledgedExtraData} (h : (extras.map UnacknowledgedExtraData.type).Nodup)
    (hx : x ∈ extras) (hy : y ∈ extras) (hty : x.type = y.type) : x = y :=
  List.inj_on_of_nodup_map h hx hy hty

theorem writeHeader_received (pending : PendingOutgoingPacket) :
    (p.writeHeader pending).receiver = p.receiver ∧ (p.writeHeader pending).applied = p.applied := by
  unfold Peer.writeHeader
  dsimp only
  split <;> exact ⟨rfl, rfl⟩

namespace ExtrasInv

variable {p : Peer} {sent : List Datagram} {q : Peer}

variable {q' : Peer}

theorem frame (h : p.ExtrasInv sent q) {p' : Peer} (hextras : p'.currentExtras = p.currentExtras)
    (hlast : p'.lastSent = p.lastSent) (hfirst : p'.firstNumber = p.firstNumber)
    (hreceiver : q'.receiver = q.receiver) (happlied : q'.applied = q.applied) : p'.ExtrasInv sent q' := by
  obtain ⟨hnd, hdata, hfirst', hunique, hhighest, hcarried, honly, happlied', hacked⟩ := h
  unfold Contained at honly happlied'
  constructor
  · rwa [hextras]
  · rwa [hextras, hlast]
  · rwa [hextras, hfirst]
  · exact hunique
  · rwa [hreceiver]
  · rwa [hextras, hfirst]
  · unfold Contained
    rwa [hextras, hlast, hfirst]
  · unfold Contained
    rwa [hextras, hlast, hfirst, hreceiver, happlied]
  · rwa [hextras, hlast, hfirst, hreceiver]

theorem highest_lt (h : p.ExtrasInv sent q) {n : Int} (hpos : 0 < n) (hnew : ∀ d ∈ sent, d.number < n) :
    q.receiver.highest < n := by
  rcases h.highest with hzero | ⟨d, hd, hnum⟩
  · omega
  · exact hnum ▸ hnew d hd

theorem self_mem_sendExtra (data : Bytes) (type : UInt8) (extras : List UnacknowledgedExtraData) :
    ⟨type, data, 0⟩ ∈ VoIP.sendExtra data type extras := by
  induction extras with
  | nil => exact List.mem_singleton_self _
  | cons y ys ih =>
    rw [VoIP.sendExtra]
    split
    · exact mem_cons_self
    · exact mem_cons_of_mem y ih

variable {extras : List UnacknowledgedExtraData}

theorem mem_sendExtra_of_ne {data : Bytes} {type : UInt8} (hx : x ∈ extras)
    (hty : x.type ≠ type) : x ∈ VoIP.sendExtra data type extras := by
  induction extras with
  | nil => exact absurd hx not_mem_nil
  | cons y ys ih =>
    rw [VoIP.sendExtra]
    rcases mem_cons.mp hx with rfl | hx
    · rw [if_neg hty]
      exact mem_cons_self
    · split
      · exact mem_cons_of_mem _ hx
      · exact mem_cons_of_mem y (ih hx)

theorem sendExtra (h : p.ExtrasInv sent q) (data : Bytes) (type : UInt8) :
    (p.sendExtra data type).ExtrasInv sent q := by
  have hself := self_mem_sendExtra data type p.currentExtras
  have hnd := nodup_type_sendExtra h.nodup data type
  have hm : ∀ x ∈ VoIP.sendExtra data type p.currentExtras,
      x = ⟨type, data, 0⟩ ∨ x ∈ p.currentExtras ∧ x.type ≠ type := by
    intro x hx
    by_cases hty : x.type = type
    · exact .inl (eq_of_type_eq hnd hx hself hty)
    · refine .inr ⟨(mem_sendExtra hx).resolve_left ?_, hty⟩
      rintro rfl
      exact hty rfl
  have hnew : ¬(p.sendExtra data type).Contained type := fun hcont => hcont _ hself rfl rfl
  have hold : ∀ {type'}, type' ≠ type → (p.sendExtra data type).lastSent type' = p.lastSent type' ∧
      ((p.sendExtra data type).Contained type' → p.Contained type') := by
    intro type' hty
    refine ⟨update_of_ne hty _ _, fun hcont x hx hxtype => ?_⟩
    exact hcont x (mem_sendExtra_of_ne hx (hxtype ▸ hty)) hxtype
  refine ⟨hnd, fun x hx => ?_, fun x hx hfirst => ?_, h.unique, h.highest, fun x hx hfirst => ?_, ?_, ?_, ?_⟩
  · rcases hm x hx with rfl | ⟨hx, hty⟩
    · exact update_self type _ _
    · rw [(hold hty).1]
      exact h.data x hx
  · rcases hm x hx with rfl | ⟨hx, -⟩
    · exact absurd rfl hfirst
    · exact h.first x hx hfirst
  · rcases hm x hx with rfl | ⟨hx, -⟩
    · exact absurd rfl hfirst
    · exact h.carried x hx hfirst
  · intro type' data' hlast hcont
    by_cases hty : type' = type
    · exact absurd (hty ▸ hcont) hnew
    · exact h.only type' data' ((hold hty).1 ▸ hlast) ((hold hty).2 hcont)
  · intro type' data' hlast hcont
    by_cases hty : type' = type
    · exact absurd (hty ▸ hcont) hnew
    · exact h.applied type' data' ((hold hty).1 ▸ hlast) ((hold hty).2 hcont)
  · intro type' data' hlast hnone
    by_cases hty : type' = type
    · exact absurd hty.symm (hnone _ hself)
    · refine h.acknowledged type' data' ((hold hty).1 ▸ hlast) fun x hx hxtype => ?_
      exact hnone x (mem_sendExtra_of_ne hx (hxtype ▸ hty)) hxtype

variable {d : Datagram}

theorem processAcks (h : p.ExtrasInv sent q) (hsound : d.Sound q.receiver) (hnear : p.NumbersNear d) (now : Int) :
    (p.processAcks d now).ExtrasInv sent q := by
  unfold Peer.processAcks
  split
  case isFalse => exact h
  have hsub : ∀ x ∈ removeAcknowledged d.header.ackId p.currentExtras, x ∈ p.currentExtras :=
    fun x hx => (List.mem_filter.mp hx).1
  have hacked : ∀ x ∈ p.currentExtras, x.isAcknowledged d.header.ackId = true →
      x.firstContainingSeq ≠ 0 ∧ p.firstNumber x.type ≤ q.receiver.highest := by
    intro x hx hacked
    simp only [isAcknowledged, Bool.and_eq_true, Bool.or_eq_true, bne_iff_ne, ne_eq,
      beq_iff_eq] at hacked
    obtain ⟨hfirst, hreached⟩ := hacked
    have hnear := hnear.extras x hx hfirst
    rw [hsound.ackId, h.first x hx hfirst, seqgt_ofInt hnear, ofInt_inj_of_near (hnear.trans (by decide))] at hreached
    exact ⟨hfirst, le_trans (hreached.elim Eq.ge le_of_lt) hsound.le⟩
  have hm : ∀ x ∈ p.currentExtras, x.isAcknowledged d.header.ackId = true ∨
      x ∈ removeAcknowledged d.header.ackId p.currentExtras := by
    intro x hx
    by_cases hx' : x.isAcknowledged d.header.ackId = true
    · exact .inl hx'
    · exact .inr (List.mem_filter.mpr ⟨hx, by rw [Bool.eq_false_iff.mpr hx']; rfl⟩)
  have hold : ∀ type, (∀ x ∈ removeAcknowledged d.header.ackId p.currentExtras, x.type = type →
      x.firstContainingSeq ≠ 0) → p.Contained type := by
    intro type hcont x hx hty
    rcases hm x hx with hx' | hx'
    · exact (hacked x hx hx').1
    · exact hcont x hx' hty
  refine ⟨h.nodup.sublist (List.filter_sublist.map _), fun x hx => h.data x (hsub x hx),
    fun x hx => h.first x (hsub x hx), h.unique, h.highest, fun x hx => h.carried x (hsub x hx),
    fun type data hlast hcont => h.only type data hlast (hold type hcont),
    fun type data hlast hcont => h.applied type data hlast (hold type hcont),
    fun type data hlast hnone => ?_⟩
  by_cases hthere : ∃ x ∈ p.currentExtras, x.type = type
  · obtain ⟨x, hx, rfl⟩ := hthere
    exact (hacked x hx ((hm x hx).resolve_right fun hx' => hnone x hx' rfl)).2
  · exact h.acknowledged type data hlast fun x hx hty => hthere ⟨x, hx, hty⟩

theorem extras_datagram (p : Peer) (pending : PendingOutgoingPacket) :
    (p.datagram pending).header.extras =
      if p.carriesExtras then p.currentExtras.map bytes else [] := rfl

variable {pending : PendingOutgoingPacket}

theorem writeHeader_of_not_carries (h : p.ExtrasInv sent q) (hcarries : ¬p.carriesExtras = true)
    (hnone : ∀ x ∈ p.currentExtras, x.firstContainingSeq = 0) :
    (p.writeHeader pending).ExtrasInv (sent ++ [p.datagram pending]) q := by
  have hextras : (p.datagram pending).header.extras = [] := by rw [extras_datagram, if_neg hcarries]
  have hsame : p.ExtrasInv (sent ++ [p.datagram pending]) q := by
    refine ⟨h.nodup, h.data, h.first, ?_, ?_, ?_, ?_, h.applied, h.acknowledged⟩
    · refine forall_mem_append.mpr ⟨h.unique, forall_mem_singleton.mpr ?_⟩
      rw [hextras]
      exact fun _ _ _ hm => absurd hm not_mem_nil
    · exact h.highest.imp_right fun ⟨d, hd, hnum⟩ => ⟨d, List.mem_append_left _ hd, hnum⟩
    · exact fun x hx hfirst => absurd (hnone x hx) hfirst
    · intro type data hlast hcont
      refine forall_mem_append.mpr ⟨h.only type data hlast hcont, forall_mem_singleton.mpr ?_⟩
      rw [hextras]
      exact fun _ _ hm => absurd hm not_mem_nil
  have hstay : ∀ packets, ¬{ p with recentOutgoingPackets := packets }.carriesExtras = true := fun _ => hcarries
  unfold Peer.writeHeader
  rw [if_neg (hstay _)]
  exact hsame.frame rfl rfl rfl rfl rfl

theorem mem_markContained {pseq : UInt32} {x' : UnacknowledgedExtraData} (h : x' ∈ markContained pseq extras) :
    ∃ x ∈ extras, x'.bytes = x.bytes ∧
      (x.firstContainingSeq = 0 ∧ x'.firstContainingSeq = pseq ∨ x.firstContainingSeq ≠ 0 ∧ x' = x) := by
  obtain ⟨x, hx, rfl⟩ := mem_map.mp h
  refine ⟨x, hx, ?_⟩
  split
  case isTrue hzero => exact ⟨rfl, .inl ⟨hzero, rfl⟩⟩
  case isFalse hne => exact ⟨rfl, .inr ⟨hne, rfl⟩⟩

theorem writeHeader_eq (pending : PendingOutgoingPacket) (hcarries : p.carriesExtras = true) :
    ∃ packets first, p.writeHeader pending = { p with
        recentOutgoingPackets := packets
        currentExtras := markContained pending.seq p.currentExtras
        firstNumber := first } ∧
      ∀ type, (∃ x ∈ p.currentExtras, x.type = type ∧ x.firstContainingSeq = 0) ∧ first type = pending.number ∨
        p.Contained type ∧ first type = p.firstNumber type := by
  have hstay : ∀ packets, { p with recentOutgoingPackets := packets }.carriesExtras = true := fun _ => hcarries
  unfold Peer.writeHeader
  rw [if_pos (hstay _)]
  refine ⟨_, _, rfl, fun type => ?_⟩
  dsimp only
  split
  case isTrue hany =>
    obtain ⟨x, hx, hzero⟩ := List.any_eq_true.mp hany
    rw [Bool.and_eq_true, beq_iff_eq, beq_iff_eq] at hzero
    exact .inl ⟨⟨x, hx, hzero⟩, rfl⟩
  case isFalse hany =>
    refine .inr ⟨fun x hx hty hzero => hany (List.any_eq_true.mpr ⟨x, hx, ?_⟩), rfl⟩
    rw [Bool.and_eq_true, beq_iff_eq, beq_iff_eq]
    exact ⟨hty, hzero⟩

theorem uniqueTypes_map (h : (extras.map UnacknowledgedExtraData.type).Nodup) : UniqueTypes (extras.map bytes) := by
  intro type content content' hm hmem'
  obtain ⟨x, hx, hbs⟩ := mem_map.mp hm
  obtain ⟨y, hy, hbytes'⟩ := mem_map.mp hmem'
  obtain ⟨hxtype, hxdata⟩ := List.cons.inj hbs
  obtain ⟨hytype, hydata⟩ := List.cons.inj hbytes'
  rw [← hxdata, ← hydata, eq_of_type_eq h hx hy (hxtype.trans hytype.symm)]

theorem writeHeader_of_carries (h : p.ExtrasInv sent q) (hpend : pending.Sound) (hcarries : p.carriesExtras = true)
    (hnew : ∀ d ∈ sent, d.number < pending.number) :
    (p.writeHeader pending).ExtrasInv (sent ++ [p.datagram pending]) q := by
  have hextras : (p.datagram pending).header.extras = p.currentExtras.map bytes := by
    rw [extras_datagram, if_pos hcarries]
  have hhighest := h.highest_lt hpend.pos hnew
  obtain ⟨packets, first, heq, hfirst⟩ := writeHeader_eq pending hcarries
  -- what is old is for numbers below this one
  have hold : ∀ type, first type ≤ q.receiver.highest ∨ (∃ d ∈ sent, first type ≤ d.number) →
      p.Contained type ∧ first type = p.firstNumber type := by
    intro type hle
    refine (hfirst type).resolve_left fun hmarked => ?_
    have hnum := hmarked.2
    rcases hle with hle | ⟨d, hd, hle⟩
    · omega
    · have := hnew d hd
      omega
  rw [heq]
  constructor
  case nodup =>
    dsimp only
    rw [map_type_markContained]
    exact h.nodup
  case data =>
    intro x' hx'
    obtain ⟨x, hx, hbs, -⟩ := mem_markContained hx'
    obtain ⟨hty, hdata⟩ := bytes_injective hbs
    rw [hty, hdata]
    exact h.data x hx
  case first =>
    intro x' hx' hne
    obtain ⟨x, hx, hbs, hcases⟩ := mem_markContained hx'
    obtain ⟨hty, -⟩ := bytes_injective hbs
    dsimp only
    rw [hty]
    rcases hcases with ⟨hzero, hseq⟩ | ⟨hx0, rfl⟩
    · rcases hfirst x.type with ⟨-, hnum⟩ | ⟨hcont, -⟩
      · rw [hseq, hnum]
        exact hpend.seq
      · exact absurd hzero (hcont x hx rfl)
    · rcases hfirst x'.type with ⟨⟨y, hy, hytype, hzero⟩, -⟩ | ⟨-, hsame⟩
      · rw [eq_of_type_eq h.nodup hy hx hytype] at hzero
        exact absurd hzero hx0
      · rw [hsame]
        exact h.first x' hx hx0
  case unique =>
    refine forall_mem_append.mpr ⟨h.unique, forall_mem_singleton.mpr ?_⟩
    rw [hextras]
    exact uniqueTypes_map h.nodup
  case highest => exact h.highest.imp_right fun ⟨d, hd, hnum⟩ => ⟨d, List.mem_append_left _ hd, hnum⟩
  case carried =>
    intro x' hx' hne
    obtain ⟨x, hx, hbs, hcases⟩ := mem_markContained hx'
    obtain ⟨hty, -⟩ := bytes_injective hbs
    dsimp only
    rw [hty, hbs]
    refine forall_mem_append.mpr ⟨fun d hd hle => ?_, forall_mem_singleton.mpr fun _ => ?_⟩
    · obtain ⟨hcont, hsame⟩ := hold x.type (.inr ⟨d, hd, hle⟩)
      exact h.carried x hx (hcont x hx rfl) d hd (hsame ▸ hle)
    · rw [hextras]
      exact List.mem_map_of_mem hx
  case only =>
    intro type data hlast _
    refine forall_mem_append.mpr ⟨fun d hd hle => ?_, forall_mem_singleton.mpr fun _ content hm => ?_⟩
    · obtain ⟨hcont, hsame⟩ := hold type (.inr ⟨d, hd, hle⟩)
      exact h.only type data hlast hcont d hd (hsame ▸ hle)
    · rw [hextras] at hm
      obtain ⟨x, hx, hbs⟩ := mem_map.mp hm
      obtain ⟨rfl, rfl⟩ := List.cons.inj hbs
      exact Option.some.inj ((h.data x hx).symm.trans hlast)
  case applied =>
    intro type data hlast _ hle
    obtain ⟨hcont, hsame⟩ := hold type (.inl hle)
    exact h.applied type data hlast hcont (hsame ▸ hle)
  case acknowledged =>
    intro type data hlast hnone
    have hnone' : ∀ x ∈ p.currentExtras, x.type ≠ type := by
      intro x hx hty
      have hm := List.mem_map_of_mem (f := UnacknowledgedExtraData.type) hx
      rw [← map_type_markContained pending.seq] at hm
      obtain ⟨x', hx', htype'⟩ := mem_map.mp hm
      exact hnone x' hx' (htype'.trans hty)
    rcases hfirst type with ⟨⟨x, hx, hty, -⟩, -⟩ | ⟨-, hsame⟩
    · exact absurd hty (hnone' x hx)
    · dsimp only
      rw [hsame]
      exact h.acknowledged type data hlast hnone'

theorem deliver (h : p.ExtrasInv sent q) (hd : d ∈ sent) (hhighest : q.receiver.highest < d.number ∧
      q'.receiver.highest = d.number ∨
      d.number ≤ q.receiver.highest ∧ q'.receiver.highest = q.receiver.highest) (hlate : d.number ≤ q.receiver.highest →
      ∀ type content, type :: content ∈ d.header.extras → q.applied type = some content)
    (hcarried : ∀ type content, type :: content ∈ d.header.extras → q'.applied type = some content)
    (hother : ∀ type, (∀ content, type :: content ∉ d.header.extras) → q'.applied type = q.applied type) :
    p.ExtrasInv sent q' := by
  refine ⟨h.nodup, h.data, h.first, h.unique, ?_, h.carried, h.only, fun type data hlast hcont hle => ?_,
    fun type data hlast hnone => ?_⟩
  · rcases hhighest with ⟨-, hnew⟩ | ⟨-, hsame⟩
    · exact .inr ⟨d, hd, hnew.symm⟩
    · exact hsame ▸ h.highest
  · by_cases hthere : ∃ content, type :: content ∈ d.header.extras
    · obtain ⟨content, hm⟩ := hthere
      rw [hcarried type content hm]
      rcases hhighest with ⟨-, hnew⟩ | ⟨hbehind, hsame⟩
      · rw [h.only type data hlast hcont d hd (hnew ▸ hle) content hm]
      · rw [← hlate hbehind type content hm]
        exact h.applied type data hlast hcont (hsame ▸ hle)
    · rw [hother type fun content hm => hthere ⟨content, hm⟩]
      refine h.applied type data hlast hcont ?_
      rcases hhighest with ⟨-, hnew⟩ | ⟨-, hsame⟩
      · -- the newest header does not have the extra, so it is acknowledged
        refine h.acknowledged type data hlast fun x hx hty => hthere ⟨x.data, ?_⟩
        subst hty
        exact h.carried x hx (hcont x hx rfl) d hd (hnew ▸ hle)
      · exact hsame ▸ hle
  · have hold := h.acknowledged type data hlast hnone
    omega

end ExtrasInv

end Peer

/-! ## The call -/

namespace Call

variable (sha1 : Bytes → Bytes)

/-- Both sides know of extras, the headers with extras are written in the order of their numbers, and the hash tells the
extras apart. -/
def ExtrasSetting (c : Call) : CallEvent → Prop
  | .send side index => ∀ pending, (c.peer side).sendQueue[index]? = some pending →
      if (c.peer side).carriesExtras then ∀ d ∈ c.sent side, d.number < pending.number
      else ∀ x ∈ (c.peer side).currentExtras, x.firstContainingSeq = 0
  | .deliver side index _ => ∀ d, (c.sent side.other)[index]? = some d →
      (d.header.extras ≠ [] → 6 ≤ (c.peer side).peerVersion) ∧
        ∀ e ∈ d.header.extras, (c.peer side).dropsExtra sha1 e = true → (c.peer side).hasApplied e = true
  | _ => True

/-- A packet that is accepted behind the newest one brings only extras that are dropped. -/
def ExtrasInOrder (c : Call) : CallEvent → Prop
  | .deliver side index now => ∀ d, (c.sent side.other)[index]? = some d →
      ((c.peer side).receiver.receive ⟨d.number, now⟩).isSome = true →
      seqgt d.header.pseq (c.peer side).receiver.window.lastRemoteSeq = false →
      ∀ e ∈ d.header.extras, (c.peer side).dropsExtra sha1 e = true
  | _ => True

instance (c : Call) : (event : CallEvent) → Decidable (c.ExtrasSetting sha1 event)
  | .send side index => Option.decidableForallMem (c.peer side).sendQueue[index]?
  | .deliver side index _ => Option.decidableForallMem (c.sent side.other)[index]?
  | .put .. | .sendPacketReliably .. | .sendExtra .. | .tick .. | .drop .. | .setState .. => isTrue trivial

instance (c : Call) : (event : CallEvent) → Decidable (c.ExtrasInOrder sha1 event)
  | .deliver side index _ => Option.decidableForallMem (c.sent side.other)[index]?
  | .put .. | .sendPacketReliably .. | .sendExtra .. | .tick .. | .send .. | .drop .. | .setState .. => isTrue trivial

def ExtrasInv (c : Call) : Prop := ∀ side, (c.peer side).ExtrasInv (c.sent side) (c.peer side.other)

theorem extrasInv_init (callID : Vector UInt8 16) : (init callID).ExtrasInv := fun _ =>
  { nodup := List.nodup_nil
    data := forall_mem_nil _
    first := forall_mem_nil _
    unique := forall_mem_nil _
    highest := .inl rfl
    carried := forall_mem_nil _
    only := fun _ _ h => absurd h (Option.some_ne_none _).symm
    applied := fun _ _ h => absurd h (Option.some_ne_none _).symm
    acknowledged := fun _ _ h => absurd h (Option.some_ne_none _).symm }

variable {c : Call}

variable {p : Peer}

theorem extrasInv_act (side : Side) {out : List Datagram}
    (hself : p.ExtrasInv (c.sent side ++ out) (c.peer side.other))
    (hother : (c.peer side.other).ExtrasInv (c.sent side.other) p) : (c.act side p out).ExtrasInv := by
  intro side'
  by_cases hside : side' = side
  · subst hside
    rw [peer_act_self, sent_act_self, peer_act_of_ne c side'.other_ne]
    exact hself
  · have hback := Side.eq_other_of_ne hside
    obtain rfl : side' = side.other := by rw [← hback, Side.other_other]
    rw [peer_act_of_ne c hside, sent_act_of_ne c hside, hback, peer_act_self]
    exact hother

theorem extrasInv_act_nil (side : Side) (hself : p.ExtrasInv (c.sent side) (c.peer side.other))
    (hother : (c.peer side.other).ExtrasInv (c.sent side.other) p) : (c.act side p []).ExtrasInv :=
  extrasInv_act side ((List.append_nil (c.sent side)).symm ▸ hself) hother

theorem ExtrasInv.step (h : c.ExtrasInv) (hc : c.Sound) {event : CallEvent} (hflight : c.InFlight event)
    (hsetting : c.ExtrasSetting sha1 event) (horder : c.ExtrasInOrder sha1 event) :
    (stepCall sha1 c event).ExtrasInv := by
  have hother : ∀ side, (c.peer side.other).ExtrasInv (c.sent side.other) (c.peer side) := by
    intro side
    have hside := h side.other
    rwa [Side.other_other] at hside
  cases event with
  | put side type data copies | sendPacketReliably side type data retryInterval timeout | tick side now buffers
  | drop side index | setState side state peerVersion =>
    exact extrasInv_act_nil side ((h side).frame rfl rfl rfl rfl rfl) ((hother side).frame rfl rfl rfl rfl rfl)
  | sendExtra side data type =>
    exact extrasInv_act_nil side ((h side).sendExtra data type) ((hother side).frame rfl rfl rfl rfl rfl)
  | send side index =>
    rw [stepCall]
    cases hpend : (c.peer side).sendQueue[index]? with
    | none => exact h
    | some pending =>
      have hsound := hc.pending side pending (List.mem_of_getElem? hpend)
      have hsetting := hsetting pending hpend
      have hwritten : ((c.peer side).writeHeader pending).ExtrasInv
          (c.sent side ++ [(c.peer side).datagram pending]) (c.peer side.other) := by
        split at hsetting
        case isTrue hcarries => exact (h side).writeHeader_of_carries hsound hcarries hsetting
        case isFalse hcarries => exact (h side).writeHeader_of_not_carries hcarries hsetting
      obtain ⟨hreceiver, happlied⟩ := Peer.writeHeader_received (c.peer side) pending
      dsimp only
      split
      · exact extrasInv_act side (hwritten.frame rfl rfl rfl rfl rfl)
          ((hother side).frame rfl rfl rfl hreceiver happlied)
      · exact h
  | deliver side index now =>
    rw [stepCall]
    cases hdatagram : (c.sent side.other)[index]? with
    | none => exact h
    | some d =>
      obtain ⟨hclock, hnear⟩ := hflight d hdatagram
      obtain ⟨hver, hfilter⟩ := hsetting d hdatagram
      have hd := List.mem_of_getElem? hdatagram
      have hsound := hc.datagram side.other d hd
      have hacks := (h side).processAcks hsound hnear now
      dsimp only
      rcases Peer.processHeader_cases sha1 (c.peer side) d now with
        ⟨-, heq⟩ | ⟨receiver, hashes, applied, hrecv, heq⟩
      · rw [heq]
        exact extrasInv_act_nil side (h side) (hother side)
      · have hsome := Option.isSome_of_eq_some hrecv
        obtain ⟨-, -, hhighest⟩ := (hc.receiver side).receive (hnear.inFlight hclock) hrecv
        obtain ⟨hcarried, hrest⟩ :=
          Peer.applied_processHeader sha1 hsome hver ((hother side).unique d hd) hfilter
        have hreceiver : ((c.peer side).processHeader sha1 d now).receiver = receiver := by rw [heq]
        refine extrasInv_act_nil side ?_ ((hother side).deliver hd ?_ ?_ hcarried hrest)
        · rw [heq]
          exact hacks.frame rfl rfl rfl rfl rfl
        · rwa [hreceiver]
        · intro hbehind type content hm
          have hnot : seqgt d.header.pseq (c.peer side).receiver.window.lastRemoteSeq = false := by
            rw [hsound.pseq, (hc.receiver side).lastRemoteSeq, Bool.eq_false_iff, ne_eq, seqgt_ofInt hnear.received]
            omega
          exact beq_iff_eq.mp (hfilter _ hm (horder d hdatagram hsome hnot _ hm))

/-- When the last extra of a type is not sent any more, it is the one that the other side has applied last. -/
def LatestExtra (c : Call) (side : Side) (type : UInt8) : Prop :=
  ∀ data, (c.peer side).lastSent type = some data → (∀ x ∈ (c.peer side).currentExtras, x.type ≠ type) →
    (c.peer side.other).applied type = some data

theorem ExtrasInv.latestExtra (h : c.ExtrasInv) (side : Side) (type : UInt8) : c.LatestExtra side type :=
  fun data hlast hnone => (h side).applied type data hlast (fun x hx hty => absurd hty (hnone x hx))
    ((h side).acknowledged type data hlast hnone)

/-- In the runs in which no packet behind the newest one brings an extra that is not dropped, the latest extra wins. -/
theorem latest_extra_wins (callID : Vector UInt8 16) (events : List CallEvent)
    (h : AllSteps (stepCall sha1)
      (fun c event => c.InFlight event ∧ c.ExtrasSetting sha1 event ∧ c.ExtrasInOrder sha1 event) (init callID) events)
    (side : Side) (type : UInt8) : (runCall sha1 callID events).LatestExtra side type := by
  have hstep : ∀ (c : Call) event, c.Sound ∧ c.ExtrasInv →
      c.InFlight event ∧ c.ExtrasSetting sha1 event ∧ c.ExtrasInOrder sha1 event →
      (stepCall sha1 c event).Sound ∧ (stepCall sha1 c event).ExtrasInv := by
    intro c event ⟨hsound, hinv⟩ ⟨hflight, hsetting, horder⟩
    exact ⟨hsound.step sha1 hflight, hinv.step sha1 hsound hflight hsetting horder⟩
  obtain ⟨-, hinv⟩ := h.invariant hstep ⟨sound_init callID, extrasInv_init callID⟩
  exact hinv.latestExtra side type

/-- Stream 1 is enabled in packet 1 and disabled in packet 2; both sides answer. -/
def muteCall (before after : List Nat) : List CallEvent :=
  [.setState .caller .established 8, .setState .callee .established 8,
    .sendExtra .caller (streamFlags 1 1).data 1, .put .caller 4 [] 1, .send .caller 0,
    .sendExtra .caller (streamFlags 1 0).data 1, .put .caller 4 [] 1, .send .caller 0] ++
  before.map (fun number => .deliver .callee (number - 1) 101) ++
  [.put .callee 4 [] 1, .send .callee 0, .deliver .caller 0 102] ++
  after.map fun number => .deliver .callee (number - 1) 103

/-- Both packets arrive in order, and later once more. -/
theorem latest_extra_wins_repeated :
    (runCall (fun data => data) (replicate 16 7) (muteCall [1, 2] [2, 1])).LatestExtra .caller 1 ∧
      ((runCall (fun data => data) (replicate 16 7) (muteCall [1, 2] [2, 1])).peer .caller).currentExtras = [] ∧
      ((runCall (fun data => data) (replicate 16 7) (muteCall [1, 2] [2, 1])).peer .callee).applied 1 =
        some (streamFlags 1 0).data :=
  ⟨latest_extra_wins _ _ _ (by decide +kernel) _ _, by decide +kernel, by decide +kernel⟩

/-- Packet 1 arrives after the acknowledgement of packet 2, and enables the stream again. -/
theorem overtaken_extra_applied :
    AllSteps (stepCall fun data => data) (fun c event => c.InFlight event ∧ c.ExtrasSetting (fun data => data) event)
        (init (replicate 16 7)) (muteCall [2] [1]) ∧
      ((runCall (fun data => data) (replicate 16 7) (muteCall [2] [1])).peer .callee).applied 1 =
        some (streamFlags 1 1).data ∧
      ¬(runCall (fun data => data) (replicate 16 7) (muteCall [2] [1])).LatestExtra .caller 1 := by
  have happlied : ((runCall (fun data => data) (replicate 16 7) (muteCall [2] [1])).peer .callee).applied 1 =
      some (streamFlags 1 1).data := by decide +kernel
  refine ⟨by decide +kernel, happlied, fun hlatest => ?_⟩
  have hdata := hlatest (streamFlags 1 0).data (by decide +kernel) (by decide +kernel)
  exact absurd (happlied.symm.trans hdata) (by decide)

end Call

end TelegramClient.VoIP
