import TelegramClient.VoIP.ReceiveWindow
import Mathlib.Algebra.BigOperators.Fin
import Mathlib.Algebra.Order.BigOperators.Group.Finset
import Mathlib.Algebra.Order.Ring.Unbundled.Rat
import Mathlib.Data.Nat.ModEq

/-!
# Congestion control

The packets of a call that are in flight stand in 100 slots, with their sizes added up. A slot is free when its time of
sending is 0. A packet leaves when it is acknowledged, when a new packet needs its slot, and after two seconds.

* `CongestionControl` : `packetAcknowledged`, `packetSent`, `tick`;
* `Accounts.Balanced` : what holds of the counters, and `Accounts.Inv`: why;
* **`congestion_balanced`** : the counters are right up to their widths in every run, and no call aborts;
* `congestion_widths` : why not more.

`timedOut now sendTime` says whether `now - sendTime > 2`, where the difference is rounded.
-/

namespace TelegramClient.VoIP
open List
open UInt32 (ofNat toNat toNat_add toNat_ofNat')

/-! ## The counters -/

structure InflightPacket where
  seq : UInt32
  sendTime : ℚ
  size : UInt64
deriving DecidableEq

structure CongestionControl where
  inflightPackets : Fin 100 → InflightPacket
  inflightHistory : Fin 30 → UInt64
  inflightHistoryTop : Fin 30
  lossCount : UInt32
  lastSentSeq : UInt32
  inflightDataSize : UInt64

/-- What `GetCurrentTime` returns. -/
abbrev ClockTime := {t : ℚ // 0 < t}

namespace CongestionControl

def init : CongestionControl := ⟨fun _ => ⟨0, 0, 0⟩, fun _ => 0, 0, 0, 0, 0⟩

/-- `sendTime=0`, and the size is subtracted. -/
def free (c : CongestionControl) (i : Fin 100) : CongestionControl :=
  { c with
    inflightPackets := Function.update c.inflightPackets i { c.inflightPackets i with sendTime := 0 }
    inflightDataSize := c.inflightDataSize - (c.inflightPackets i).size }

/-- The slot that `PacketAcknowledged` stops at. -/
def acknowledgedSlot (c : CongestionControl) (seq : UInt32) : Option (Fin 100) :=
  (List.finRange 100).find? fun i => (c.inflightPackets i).seq = seq ∧ 0 < (c.inflightPackets i).sendTime

/-- `PacketAcknowledged`. -/
def packetAcknowledged (c : CongestionControl) (seq : UInt32) : CongestionControl :=
  match c.acknowledgedSlot seq with
  | some i => c.free i
  | none => c

/-- The loop of `PacketSent`. `smallestSendTime` is `none` for `INFINITY`. -/
def findSlot (packets : Fin 100 → InflightPacket) :
    List (Fin 100) → Option (Fin 100) → Option ℚ → Option (Fin 100)
  | [], slot, _ => slot
  | i :: is, slot, smallestSendTime =>
    if (packets i).sendTime = 0 then some i
    else if smallestSendTime.all fun smallest => (packets i).sendTime < smallest then
      findSlot packets is (some i) (some (packets i).sendTime)
    else findSlot packets is slot smallestSendTime

def slot (c : CongestionControl) : Option (Fin 100) := findSlot c.inflightPackets (List.finRange 100) none none

def isDuplicate (c : CongestionControl) (seq : UInt32) : Bool := !seqgt seq c.lastSentSeq || seq == c.lastSentSeq

/-- The packet comes into slot `i`, and the packet that is there is lost. -/
def send (c : CongestionControl) (i : Fin 100) (seq : UInt32) (size : UInt64) (now : ClockTime) : CongestionControl :=
  let c := { c with lastSentSeq := seq }
  let c :=
    if 0 < (c.inflightPackets i).sendTime then
      { c with inflightDataSize := c.inflightDataSize - (c.inflightPackets i).size, lossCount := c.lossCount + 1 }
    else c
  { c with
    inflightPackets := Function.update c.inflightPackets i ⟨seq, now, size⟩
    inflightDataSize := c.inflightDataSize + size }

/-- `PacketSent`, or `none` where `assert(slot!=NULL)` fails. -/
def packetSent (c : CongestionControl) (seq : UInt32) (size : UInt64) (now : ClockTime) : Option CongestionControl :=
  if c.isDuplicate seq then some c else c.slot.map fun i => c.send i seq size now

variable (timedOut : ClockTime → ℚ → Bool)

/-- One turn of the loop of `Tick`, which asks for the time in every turn. -/
def tickSlot (now : Fin 100 → ClockTime) (c : CongestionControl) (i : Fin 100) : CongestionControl :=
  if (c.inflightPackets i).sendTime ≠ 0 ∧ timedOut (now i) (c.inflightPackets i).sendTime then
    { c.free i with lossCount := c.lossCount + 1 }
  else c

/-- `Tick`. -/
def tick (c : CongestionControl) (now : Fin 100 → ClockTime) : CongestionControl :=
  let c := (List.finRange 100).foldl (tickSlot timedOut now) c
  { c with
    inflightHistory := Function.update c.inflightHistory c.inflightHistoryTop c.inflightDataSize
    inflightHistoryTop := c.inflightHistoryTop + 1 }

variable {c : CongestionControl} {i : Fin 100}

theorem sendTime_free (c : CongestionControl) (i : Fin 100) : ((c.free i).inflightPackets i).sendTime = 0 := by
  unfold free
  dsimp only
  rw [Function.update_self]

theorem send_of_free (hi : (c.inflightPackets i).sendTime = 0) (seq : UInt32) (size : UInt64) (now : ClockTime) :
    c.send i seq size now =
      { c with
        inflightPackets := Function.update c.inflightPackets i ⟨seq, now, size⟩
        lastSentSeq := seq
        inflightDataSize := c.inflightDataSize + size } := by
  unfold send
  dsimp only
  rw [if_neg (by rw [hi]; exact lt_irrefl _)]

theorem send_of_occupied (hi : 0 < (c.inflightPackets i).sendTime) (seq : UInt32) (size : UInt64) (now : ClockTime) :
    c.send i seq size now = send { c.free i with lossCount := c.lossCount + 1 } i seq size now := by
  have hfreed : (({ c.free i with lossCount := c.lossCount + 1 } : CongestionControl).inflightPackets i).sendTime = 0 :=
    c.sendTime_free i
  rw [send_of_free hfreed]
  unfold send free
  dsimp only
  rw [if_pos hi, Function.update_idem]

def inflight (c : CongestionControl) : Finset (Fin 100) := {i | (c.inflightPackets i).sendTime ≠ 0}

end CongestionControl

inductive CongestionEvent where
  | packetSent (seq : UInt32) (size : UInt64) (now : ClockTime)
  | packetAcknowledged (seq : UInt32)
  | tick (now : Fin 100 → ClockTime)

def stepCongestion (timedOut : ClockTime → ℚ → Bool) (c : CongestionControl) :
    CongestionEvent → Option CongestionControl
  | .packetSent seq size now => c.packetSent seq size now
  | .packetAcknowledged seq => some (c.packetAcknowledged seq)
  | .tick now => some (c.tick timedOut now)

/-! ## The observer -/

structure Accounts where
  control : CongestionControl
  /-- The packets that were not rejected. -/
  sent : Nat
  /-- The acknowledgements that found their packet. -/
  acknowledged : Nat
  /-- How far the numbers of the packets have advanced. -/
  advanced : Nat
  /-- How far they had when the packet of a slot was sent. -/
  sentAt : Fin 100 → Nat

namespace Accounts

def init : Accounts := ⟨.init, 0, 0, 0, fun _ => 0⟩

/-- The packet comes into slot `i`. -/
def send (a : Accounts) (i : Fin 100) (seq : UInt32) (size : UInt64) (now : ClockTime) : Accounts :=
  { control := a.control.send i seq size now
    sent := a.sent + 1
    acknowledged := a.acknowledged
    advanced := a.advanced + (seq - a.control.lastSentSeq).toNat
    sentAt := Function.update a.sentAt i (a.advanced + (seq - a.control.lastSentSeq).toNat) }

variable (timedOut : ClockTime → ℚ → Bool)

def step (a : Accounts) : CongestionEvent → Option Accounts
  | .packetSent seq size now =>
    if a.control.isDuplicate seq then some a else a.control.slot.map fun i => a.send i seq size now
  | .packetAcknowledged seq => some
      { a with
        control := a.control.packetAcknowledged seq
        acknowledged := a.acknowledged + (if (a.control.acknowledgedSlot seq).isSome then 1 else 0) }
  | .tick now => some { a with control := a.control.tick timedOut now }

def run (a : Accounts) (events : List CongestionEvent) : Option Accounts := events.foldlM (step timedOut) a

theorem control_step (a : Accounts) (event : CongestionEvent) :
    control <$> a.step timedOut event = stepCongestion timedOut a.control event := by
  cases event with
  | packetSent seq size now =>
    show (if a.control.isDuplicate seq then some a else a.control.slot.map fun i => a.send i seq size now).map control =
      if a.control.isDuplicate seq then some a.control else a.control.slot.map fun i => a.control.send i seq size now
    split
    · rfl
    · exact Option.map_map _ _ _
  | packetAcknowledged seq | tick now => rfl

/-- **What holds of the counters.** -/
structure Balanced (a : Accounts) : Prop where
  dataSize : a.control.inflightDataSize.toNat =
    (∑ i ∈ a.control.inflight, (a.control.inflightPackets i).size.toNat) % 2 ^ 64
  noWrap : ∑ i ∈ a.control.inflight, (a.control.inflightPackets i).size.toNat < 2 ^ 64 →
    ∀ i ∈ a.control.inflight, (a.control.inflightPackets i).size ≤ a.control.inflightDataSize
  count : a.sent ≡ a.acknowledged + a.control.lossCount.toNat + a.control.inflight.card [MOD 2 ^ 32]
  seqs : ∀ i ∈ a.control.inflight, ∀ j ∈ a.control.inflight, i ≠ j →
    (a.control.inflightPackets i).seq = (a.control.inflightPackets j).seq →
      a.sentAt i + 2 ^ 32 ≤ a.sentAt j ∨ a.sentAt j + 2 ^ 32 ≤ a.sentAt i

/-! ## Sums over the slots -/

def held (f : InflightPacket → Nat) (packet : InflightPacket) : Nat := if packet.sendTime = 0 then 0 else f packet

variable (c : CongestionControl)

variable (f : InflightPacket → Nat)

theorem sum_inflight : ∑ i ∈ c.inflight, f (c.inflightPackets i) = ∑ i, held f (c.inflightPackets i) := by
  rw [CongestionControl.inflight, Finset.sum_filter]
  refine Finset.sum_congr rfl fun i _ => ?_
  unfold held
  rw [ite_not]

theorem card_inflight : c.inflight.card = ∑ i, held (fun _ => 1) (c.inflightPackets i) := by
  rw [Finset.card_eq_sum_ones, sum_inflight c fun _ => 1]

theorem sum_update (packets : Fin 100 → InflightPacket) (i : Fin 100) (packet : InflightPacket) :
    ∑ j, held f (Function.update packets i packet j) + held f (packets i) = ∑ j, held f (packets j) + held f packet := by
  have hothers : ∑ j ∈ Finset.univ.erase i, held f (Function.update packets i packet j) =
      ∑ j ∈ Finset.univ.erase i, held f (packets j) :=
    Finset.sum_congr rfl fun j hj => by rw [Function.update_of_ne (Finset.ne_of_mem_erase hj)]
  rw [← Finset.sum_erase_add _ _ (Finset.mem_univ i), ← Finset.sum_erase_add _ (fun j => held f (packets j))
    (Finset.mem_univ i), hothers, Function.update_self]
  omega

/-! ## What holds between the calls -/

structure Inv (a : Accounts) : Prop where
  sendTime_nonneg : ∀ i, 0 ≤ (a.control.inflightPackets i).sendTime
  dataSize : a.control.inflightDataSize.toNat ≡
    ∑ i, held (·.size.toNat) (a.control.inflightPackets i) [MOD 2 ^ 64]
  count : a.sent ≡
    a.acknowledged + a.control.lossCount.toNat + ∑ i, held (fun _ => 1) (a.control.inflightPackets i) [MOD 2 ^ 32]
  lastSentSeq : a.control.lastSentSeq.toNat = a.advanced % 2 ^ 32
  seq : ∀ i, (a.control.inflightPackets i).sendTime ≠ 0 →
    (a.control.inflightPackets i).seq.toNat = a.sentAt i % 2 ^ 32 ∧ a.sentAt i ≤ a.advanced
  distinct : ∀ i j, (a.control.inflightPackets i).sendTime ≠ 0 → (a.control.inflightPackets j).sendTime ≠ 0 → i ≠ j →
    a.sentAt i ≠ a.sentAt j

theorem inv_init : init.Inv where
  sendTime_nonneg := fun _ => Rat.le_refl
  dataSize := by
    rw [show ∑ i, held (·.size.toNat) (init.control.inflightPackets i) = 0 from Finset.sum_eq_zero fun _ _ => if_pos rfl]
    rfl
  count := by
    rw [show ∑ i, held (fun _ => 1) (init.control.inflightPackets i) = 0 from
      Finset.sum_eq_zero fun _ _ => if_pos rfl]
    rfl
  lastSentSeq := rfl
  seq := fun _ h => absurd rfl h
  distinct := fun _ _ h => absurd rfl h

variable {a : Accounts}

theorem Inv.balanced (h : a.Inv) : a.Balanced := by
  have hsum : a.control.inflightDataSize.toNat =
      (∑ i ∈ a.control.inflight, (a.control.inflightPackets i).size.toNat) % 2 ^ 64 := by
    rw [sum_inflight a.control (·.size.toNat), ← h.dataSize]
    exact (Nat.mod_eq_of_lt (UInt64.toNat_lt _)).symm
  refine ⟨hsum, fun hsmall i hi => ?_, ?_, fun i hi j hj hij hseq => ?_⟩
  · rw [UInt64.le_iff_toNat_le, hsum, Nat.mod_eq_of_lt hsmall]
    exact Finset.single_le_sum (f := fun i => (a.control.inflightPackets i).size.toNat) (fun _ _ => Nat.zero_le _) hi
  · rw [card_inflight]
    exact h.count
  · have hi := (Finset.mem_filter.mp hi).2
    have hj := (Finset.mem_filter.mp hj).2
    have hne := h.distinct i j hi hj hij
    have hsame := (h.seq i hi).1.symm.trans ((congrArg toNat hseq).trans (h.seq j hj).1)
    omega

variable {i : Fin 100}

theorem Inv.free (h : a.Inv) (hi : (a.control.inflightPackets i).sendTime ≠ 0) {acknowledged : Nat}
    {lossCount : UInt32}
    (hone : acknowledged + lossCount.toNat ≡ a.acknowledged + a.control.lossCount.toNat + 1 [MOD 2 ^ 32]) :
    Inv { a with control := { a.control.free i with lossCount := lossCount }, acknowledged := acknowledged } := by
  have hpkts (j : Fin 100) : (a.control.free i).inflightPackets j =
      if j = i then { a.control.inflightPackets i with sendTime := 0 } else a.control.inflightPackets j :=
    Function.update_apply _ _ _ _
  have hinflight {j : Fin 100} (hj : ((a.control.free i).inflightPackets j).sendTime ≠ 0) :
      (a.control.free i).inflightPackets j = a.control.inflightPackets j := by
    rw [hpkts] at hj ⊢
    split at hj
    · exact absurd rfl hj
    · exact if_neg ‹_›
  have hsum (f : InflightPacket → Nat) : ∑ j, held f ((a.control.free i).inflightPackets j) +
      f (a.control.inflightPackets i) = ∑ j, held f (a.control.inflightPackets j) := by
    have hupd := sum_update f a.control.inflightPackets i { a.control.inflightPackets i with sendTime := 0 }
    rw [held, if_neg hi, held, if_pos rfl, add_zero] at hupd
    exact hupd
  refine ⟨fun j => ?_, ?_, ?_, h.lastSentSeq, fun j hj => ?_, fun j k hj hk => ?_⟩
  · show 0 ≤ ((a.control.free i).inflightPackets j).sendTime
    rw [hpkts]
    split
    · exact Rat.le_refl
    · exact h.sendTime_nonneg j
  · have hdata := h.dataSize
    rw [← hsum (·.size.toNat)] at hdata
    show (a.control.inflightDataSize - (a.control.inflightPackets i).size).toNat ≡
      ∑ j, held (·.size.toNat) ((a.control.free i).inflightPackets j) [MOD 2 ^ 64]
    have hlt := UInt64.toNat_lt (a.control.inflightPackets i).size
    rw [UInt64.toNat_sub]
    unfold Nat.ModEq at hdata ⊢
    omega
  · have hcnt := h.count
    rw [← hsum fun _ => 1] at hcnt
    show a.sent ≡ acknowledged + lossCount.toNat + ∑ j, held (fun _ => 1) ((a.control.free i).inflightPackets j)
      [MOD 2 ^ 32]
    unfold Nat.ModEq at hcnt hone ⊢
    omega
  · have hsame := hinflight hj
    have hj : (a.control.inflightPackets j).sendTime ≠ 0 := hsame ▸ hj
    show ((a.control.free i).inflightPackets j).seq.toNat = _ ∧ _
    rw [hsame]
    exact h.seq j hj
  · exact h.distinct j k (hinflight hj ▸ hj) (hinflight hk ▸ hk)

variable {seq : UInt32}

section
variable (h : a.Inv)
include h

theorem toNat_of_not_isDuplicate (hnew : a.control.isDuplicate seq = false) : 0 < (seq - a.control.lastSentSeq).toNat ∧
      seq.toNat = (a.advanced + (seq - a.control.lastSentSeq).toNat) % 2 ^ 32 := by
  have hne : seq ≠ a.control.lastSentSeq := by
    rintro rfl
    simp [CongestionControl.isDuplicate] at hnew
  have hne : seq.toNat ≠ a.control.lastSentSeq.toNat := fun hsame => hne (UInt32.toNat_inj.mp hsame)
  have hlast := h.lastSentSeq
  have hseq := UInt32.toNat_lt seq
  rw [UInt32.toNat_sub]
  omega

theorem Inv.send_of_free (hi : (a.control.inflightPackets i).sendTime = 0) (hnew : a.control.isDuplicate seq = false)
    (size : UInt64) (now : ClockTime) : (a.send i seq size now).Inv := by
  obtain ⟨hpos, hseq⟩ := toNat_of_not_isDuplicate h hnew
  have hnow : (now : ℚ) ≠ 0 := ne_of_gt now.2
  have hcontrol : (a.send i seq size now).control = _ := CongestionControl.send_of_free hi seq size now
  have hpkts (j : Fin 100) : (a.send i seq size now).control.inflightPackets j =
      if j = i then ⟨seq, now, size⟩ else a.control.inflightPackets j := by
    rw [hcontrol]
    exact Function.update_apply _ _ _ _
  have hsentAt (j : Fin 100) : (a.send i seq size now).sentAt j =
      if j = i then a.advanced + (seq - a.control.lastSentSeq).toNat else a.sentAt j := Function.update_apply _ _ _ _
  have hsum (f : InflightPacket → Nat) : ∑ j, held f ((a.send i seq size now).control.inflightPackets j) =
      ∑ j, held f (a.control.inflightPackets j) + f ⟨seq, now, size⟩ := by
    have hupd := sum_update f a.control.inflightPackets i ⟨seq, now, size⟩
    rw [held, if_pos hi, held, if_neg hnow, add_zero] at hupd
    rw [hcontrol]
    exact hupd
  refine ⟨fun j => ?_, ?_, ?_, ?_, fun j hj => ?_, fun j k hj hk hjk => ?_⟩
  · rw [hpkts]
    split
    · exact now.2.le
    · exact h.sendTime_nonneg j
  · have hdata := h.dataSize
    rw [hsum (·.size.toNat), hcontrol]
    show (a.control.inflightDataSize + size).toNat ≡
      ∑ j, held (·.size.toNat) (a.control.inflightPackets j) + size.toNat [MOD 2 ^ 64]
    rw [UInt64.toNat_add]
    unfold Nat.ModEq at hdata ⊢
    omega
  · have hcnt := h.count
    rw [hsum fun _ => 1, hcontrol]
    show a.sent + 1 ≡ a.acknowledged + a.control.lossCount.toNat + _ [MOD 2 ^ 32]
    unfold Nat.ModEq at hcnt ⊢
    omega
  · rw [hcontrol]
    exact hseq
  · rw [hpkts] at hj ⊢
    rw [hsentAt]
    show _ ∧ _ ≤ a.advanced + (seq - a.control.lastSentSeq).toNat
    split at hj
    case isTrue hji =>
      rw [if_pos hji, if_pos hji]
      exact ⟨hseq, le_rfl⟩
    case isFalse hji =>
      rw [if_neg hji, if_neg hji]
      exact ⟨(h.seq j hj).1, Nat.le_add_right_of_le (h.seq j hj).2⟩
  · rw [hpkts] at hj hk
    rw [hsentAt, hsentAt]
    split at hj <;> split at hk
    case isTrue.isTrue hji hki => exact absurd (hji.trans hki.symm) hjk
    case isTrue.isFalse hji hki =>
      have hle := (h.seq k hk).2
      rw [if_pos hji, if_neg hki]
      omega
    case isFalse.isTrue hji hki =>
      have hle := (h.seq j hj).2
      rw [if_neg hji, if_pos hki]
      omega
    case isFalse.isFalse hji hki =>
      rw [if_neg hji, if_neg hki]
      exact h.distinct j k hj hk hjk

theorem Inv.send (i : Fin 100) (hnew : a.control.isDuplicate seq = false) (size : UInt64) (now : ClockTime) :
    (a.send i seq size now).Inv := by
  rcases (h.sendTime_nonneg i).eq_or_lt with hfree | hoccupied
  · exact h.send_of_free hfree.symm hnew size now
  · have hlost : (a.control.lossCount + 1).toNat ≡ a.control.lossCount.toNat + 1 [MOD 2 ^ 32] := by
      rw [toNat_add]
      exact Nat.mod_modEq _ _
    have hfreed := h.free (ne_of_gt hoccupied) (hlost.add_left a.acknowledged)
    have hsent := hfreed.send_of_free (a.control.sendTime_free i) hnew size now
    unfold Accounts.send at hsent ⊢
    rw [CongestionControl.send_of_occupied hoccupied]
    exact hsent

theorem Inv.packetAcknowledged (seq : UInt32) : Inv
      { a with
        control := a.control.packetAcknowledged seq
        acknowledged := a.acknowledged + (if (a.control.acknowledgedSlot seq).isSome then 1 else 0) } := by
  unfold CongestionControl.packetAcknowledged
  cases hslot : a.control.acknowledgedSlot seq with
  | none => exact h
  | some i =>
    have hfound := find?_some hslot
    have hi : (a.control.inflightPackets i).sendTime ≠ 0 := ne_of_gt (of_decide_eq_true hfound).2
    exact h.free hi (by rw [Option.isSome_some, if_pos rfl]; exact congrArg (· % 2 ^ 32) (Nat.add_right_comm _ _ _))

theorem Inv.tickSlot (now : Fin 100 → ClockTime) (i : Fin 100) :
    Inv { a with control := a.control.tickSlot timedOut now i } := by
  unfold CongestionControl.tickSlot
  split
  case isTrue hout =>
    refine h.free hout.1 ?_
    rw [toNat_add]
    exact (Nat.mod_modEq _ _).add_left _
  case isFalse => exact h

theorem Inv.withHistory (history : Fin 30 → UInt64) (top : Fin 30) :
    Inv { a with control := { a.control with inflightHistory := history, inflightHistoryTop := top } } :=
  ⟨h.sendTime_nonneg, h.dataSize, h.count, h.lastSentSeq, h.seq, h.distinct⟩

theorem Inv.tick (now : Fin 100 → ClockTime) : Inv { a with control := a.control.tick timedOut now } := by
  have hslots : ∀ (is : List (Fin 100)) (c : CongestionControl), Inv { a with control := c } →
      Inv { a with control := is.foldl (CongestionControl.tickSlot timedOut now) c } := by
    intro is
    induction is with
    | nil => exact fun c hc => hc
    | cons i is ih => exact fun c hc => ih _ (hc.tickSlot timedOut now i)
  exact (hslots (List.finRange 100) a.control h).withHistory _ _

end

theorem slot_ne_none : c.slot ≠ none := by
  have hkeeps : ∀ (is : List (Fin 100)) (slot : Option (Fin 100)) (smallest : Option ℚ), slot ≠ none →
      CongestionControl.findSlot c.inflightPackets is slot smallest ≠ none := by
    intro is
    induction is with
    | nil => exact fun slot smallest hslot => hslot
    | cons i is ih =>
      intro slot smallest hslot
      unfold CongestionControl.findSlot
      split_ifs
      · exact Option.some_ne_none i
      · exact ih _ _ (Option.some_ne_none i)
      · exact ih _ _ hslot
  unfold CongestionControl.slot
  rw [finRange_succ]
  unfold CongestionControl.findSlot
  split_ifs with hfree hsmaller
  · exact Option.some_ne_none 0
  · exact hkeeps _ _ _ (Option.some_ne_none 0)
  · exact absurd Option.all_none hsmaller

theorem Inv.step (h : a.Inv) (event : CongestionEvent) : ∃ a', a.step timedOut event = some a' ∧ a'.Inv := by
  cases event with
  | packetSent seq size now =>
    cases hduplicate : a.control.isDuplicate seq with
    | true => exact ⟨a, if_pos hduplicate, h⟩
    | false =>
      obtain ⟨i, hi⟩ := Option.ne_none_iff_exists'.mp (slot_ne_none a.control)
      refine ⟨a.send i seq size now, ?_, h.send i hduplicate size now⟩
      show (if a.control.isDuplicate seq then some a else a.control.slot.map fun i => a.send i seq size now) = _
      rw [hduplicate, if_neg Bool.false_ne_true, hi, Option.map_some]
  | packetAcknowledged seq => exact ⟨_, rfl, h.packetAcknowledged seq⟩
  | tick now => exact ⟨_, rfl, h.tick timedOut now⟩

theorem Inv.run (h : a.Inv) (events : List CongestionEvent) : ∃ a', a.run timedOut events = some a' ∧ a'.Inv := by
  induction events generalizing a with
  | nil => exact ⟨a, rfl, h⟩
  | cons event events ih =>
    obtain ⟨a₁, hstep, h₁⟩ := h.step timedOut event
    obtain ⟨a', hrun, h'⟩ := ih h₁
    refine ⟨a', ?_, h'⟩
    rw [Accounts.run, foldlM_cons, hstep]
    exact hrun

end Accounts

/-- **The counters of the congestion control.** In every run the size in flight is the sum over the slots modulo `2 ^ 64`,
so that while the sum is below it is exact and nothing is subtracted from less, the packets sent are those acknowledged,
lost and in flight modulo `2 ^ 32`, two slots have the same number only if the numbers have gone round in between, and
there is a slot for every packet. -/
theorem congestion_balanced (timedOut : ClockTime → ℚ → Bool) (events : List CongestionEvent) :
    ∃ a, Accounts.init.run timedOut events = some a ∧ a.Balanced := by
  obtain ⟨a, hrun, h⟩ := Accounts.inv_init.run timedOut events
  exact ⟨a, hrun, h.balanced⟩

/-! ## The widths of the counters -/

def packetsSent (packets : List (UInt32 × UInt64)) : List CongestionEvent :=
  packets.map fun packet => .packetSent packet.1 packet.2 ⟨1, by decide⟩

/-- Empty packets with the numbers from 1 to `count`. -/
def consecutive (count : Nat) : List (UInt32 × UInt64) := (List.range count).map fun k => (UInt32.ofNat (k + 1), 0)

theorem isDuplicate_succ {c : CongestionControl} {n : Nat} (h : c.lastSentSeq = ofNat n) :
    c.isDuplicate (ofNat (n + 1)) = false := by
  have hgt : seqgt (ofNat (n + 1)) (ofNat n) = true := by
    rw [← ofInt_natCast, ← ofInt_natCast, seqgt_ofInt (by rw [abs_lt]; omega)]
    omega
  have hne : (ofNat (n + 1) == ofNat n) = false := by
    rw [beq_eq_false_iff_ne, ne_eq, ← UInt32.toNat_inj, toNat_ofNat', toNat_ofNat']
    omega
  rw [CongestionControl.isDuplicate, h, hgt, hne]
  rfl

theorem run_consecutive (timedOut : ClockTime → ℚ → Bool) (count : Nat) :
    ∃ a, Accounts.init.run timedOut (packetsSent (consecutive count)) = some a ∧ a.sent = count ∧ a.acknowledged = 0 ∧
      a.control.lastSentSeq = ofNat count := by
  induction count with
  | zero => exact ⟨.init, rfl, rfl, rfl, rfl⟩
  | succ n ih =>
    obtain ⟨a, hrun, hsent, hacked, hlast⟩ := ih
    obtain ⟨i, hi⟩ := Option.ne_none_iff_exists'.mp (Accounts.slot_ne_none a.control)
    refine ⟨a.send i (ofNat (n + 1)) 0 ⟨1, by decide⟩, ?_, congrArg (· + 1) hsent, hacked, ?_⟩
    · have hstep : a.step timedOut (.packetSent (ofNat (n + 1)) 0 ⟨1, by decide⟩) =
          some (a.send i (ofNat (n + 1)) 0 ⟨1, by decide⟩) := by
        show (if a.control.isDuplicate _ then some a else a.control.slot.map _) = _
        rw [isDuplicate_succ hlast, if_neg Bool.false_ne_true, hi, Option.map_some]
      rw [Accounts.run] at hrun ⊢
      rw [consecutive, range_succ, map_append, packetsSent, map_append, foldlM_append]
      exact Option.bind_eq_some_iff.mpr ⟨a, hrun, Option.bind_eq_some_iff.mpr ⟨_, hstep, rfl⟩⟩
    · show (a.control.send i _ 0 _).lastSentSeq = _
      unfold CongestionControl.send
      dsimp only
      split <;> rfl

/-- Numbers that go round in three steps are in flight twice, sizes that add up to `2 ^ 64` count as 0, and `2 ^ 32`
losses as none. -/
theorem congestion_widths :
    (∃ a, Accounts.init.run (fun now sendTime => 2 < now.1 - sendTime)
        (packetsSent [(1, 0), (0x80000000, 0), (0xFFFFFFFF, 0), (1, 0)]) = some a ∧
      (a.control.inflightPackets 0).sendTime ≠ 0 ∧ (a.control.inflightPackets 3).sendTime ≠ 0 ∧
        (a.control.inflightPackets 0).seq = (a.control.inflightPackets 3).seq) ∧
    (∃ a, Accounts.init.run (fun now sendTime => 2 < now.1 - sendTime) (packetsSent [(1, 0xFFFFFFFFFFFFFFFF), (2, 1)]) = some a ∧
      a.control.inflightDataSize.toNat ≠ ∑ i ∈ a.control.inflight, (a.control.inflightPackets i).size.toNat) ∧
    (∃ a, Accounts.init.run (fun now sendTime => 2 < now.1 - sendTime) (packetsSent (consecutive (2 ^ 32 + 100))) = some a ∧
      a.sent ≠ a.acknowledged + a.control.lossCount.toNat + a.control.inflight.card) := by
  refine ⟨⟨_, rfl, by decide⟩, ⟨_, rfl, by decide +kernel⟩, ?_⟩
  obtain ⟨a, hrun, hsent, hacknowledged, -⟩ := run_consecutive (fun now sendTime => 2 < now.1 - sendTime) (2 ^ 32 + 100)
  refine ⟨a, hrun, ?_⟩
  have hlost := UInt32.toNat_lt a.control.lossCount
  have hslots : a.control.inflight.card ≤ 100 := Finset.card_le_univ _
  omega

end TelegramClient.VoIP
