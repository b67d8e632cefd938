import TelegramClient.Lib.Runs
import TelegramClient.Lib.SerialNumbers

/-!
# The receive window of a call

`ProcessIncomingPacket` keeps the number of the newest packet and the times at which it and the 31 packets before it
were received, and drops packets that it has seen or that are too old.

* `seqgt`, `ReceiveWindow`, `receive` : the comparison of numbers, the window, and the check;
* **`processedOnce_iff`** : when the window stays exact and no packet is accepted twice.

Times are ticks of the clock; 0 is no time.
-/

namespace TelegramClient.VoIP
open UInt32 (lt_iff_toNat_lt ofInt)

def seqgt (s1 s2 : UInt32) : Bool :=
  (decide (s2 < s1) && decide (s1 - s2 ≤ 0xFFFFFFFF / 2)) || (decide (s1 < s2) && decide (0xFFFFFFFF / 2 < s2 - s1))

theorem seqgt_ofInt {a b : Int} (h : |a - b| < 2 ^ 31) :
    seqgt (ofInt a) (ofInt b) = true ↔ b < a := by
  have hbounds := abs_lt.mp h
  have ha := toNat_ofInt a
  have hb := toNat_ofInt b
  have hab := toNat_ofInt (a - b)
  have hba := toNat_ofInt (b - a)
  rw [ofInt_sub] at hab hba
  have hhalf : ((0xFFFFFFFF : UInt32) / 2).toNat = 2 ^ 31 - 1 := rfl
  simp only [seqgt, Bool.or_eq_true, Bool.and_eq_true, decide_eq_true_eq, lt_iff_toNat_lt,
    UInt32.le_iff_toNat_le, hhalf]
  omega

/-! ## The check -/

structure ReceiveWindow where
  lastRemoteSeq : UInt32
  recvPacketTimes : Vector Int 32
deriving DecidableEq

namespace ReceiveWindow

def init : ReceiveWindow := ⟨0, Vector.replicate 32 0⟩

/-- `memmove(&recvPacketTimes[diff], recvPacketTimes, (32-diff)*sizeof(double))`. -/
def memmoveTimes (times : Vector Int 32) (diff : Nat) : Vector Int 32 :=
  Vector.ofFn fun k => if k.val < diff then times[k] else times[k.val - diff]

/-- `memset(recvPacketTimes, 0, count*sizeof(double))`. -/
def memsetTimes (times : Vector Int 32) (count : Nat) : Vector Int 32 :=
  Vector.ofFn fun k => if k.val < count then 0 else times[k]

/-- The window after the packet `pseq`, or `none` when it is dropped. -/
def receive (window : ReceiveWindow) (pseq : UInt32) (now : Int) : Option ReceiveWindow :=
  if seqgt pseq window.lastRemoteSeq then
    let diff := pseq - window.lastRemoteSeq
    if 31 < diff then some ⟨pseq, memsetTimes window.recvPacketTimes 32⟩
    else
      let moved := memmoveTimes window.recvPacketTimes diff.toNat
      let cleared := if 1 < diff then memsetTimes moved diff.toNat else moved
      some ⟨pseq, cleared.set 0 now⟩
  else
    let index := (window.lastRemoteSeq - pseq).toNat
    if h : index < 32 then
      if window.recvPacketTimes[index] ≠ 0 then none
      else some { window with recvPacketTimes := window.recvPacketTimes.set index now }
    else none

variable {k : Nat}

variable (times : Vector Int 32)

@[simp] theorem getElem_memmoveTimes (diff : Nat) (h : k < 32) :
    (memmoveTimes times diff)[k] = if k < diff then times[k] else times[k - diff] := Vector.getElem_ofFn h

@[simp] theorem getElem_memsetTimes (count : Nat) (h : k < 32) :
    (memsetTimes times count)[k] = if k < count then 0 else times[k] := Vector.getElem_ofFn h

@[simp] theorem getElem_init (h : k < 32) : init.recvPacketTimes[k] = 0 := Vector.getElem_replicate h

section
variable {window : ReceiveWindow} {highest number now : Int}

theorem receive_jump (hlast : window.lastRemoteSeq = ofInt highest) (hnear : |number - highest| < 2 ^ 31)
    (hjump : highest + 31 < number) :
    window.receive (ofInt number) now =
      some ⟨ofInt number, memsetTimes window.recvPacketTimes 32⟩ := by
  have hgt := (seqgt_ofInt hnear).mpr (by omega)
  have hdiff := toNat_sub_ofInt (show highest ≤ number by omega) (by have := abs_lt.mp hnear; omega)
  have hfar : 31 < ofInt number - ofInt highest := by
    rw [lt_iff_toNat_lt]
    exact Int.ofNat_lt.mp (by rw [hdiff]; exact Int.lt_sub_left_of_add_lt hjump)
  simp only [receive, hlast, hgt, if_true, if_pos hfar]

theorem receive_forward {diff : Nat} (hlast : window.lastRemoteSeq = ofInt highest) (hpos : 0 < diff)
    (hle : diff ≤ 31) : ∃ times : Vector Int 32, window.receive (ofInt (highest + diff)) now =
        some ⟨ofInt (highest + diff), times⟩ ∧ ∀ (k : Nat) (_ : k < 32),
        times[k] = if k = 0 then now else if k < diff then 0 else window.recvPacketTimes[k - diff] := by
  have hnear : |highest + (diff : Int) - highest| < 2 ^ 31 := by rw [abs_lt]; omega
  have hgt := (seqgt_ofInt hnear).mpr (by omega)
  have hdiff := toNat_sub_ofInt (show highest ≤ highest + diff by omega) (by omega)
  have hdiff' : (ofInt (highest + diff) - ofInt highest).toNat = diff := by omega
  have hclose : ¬31 < ofInt (highest + diff) - ofInt highest := by
    rw [lt_iff_toNat_lt, hdiff']
    exact Nat.not_lt.mpr hle
  have hone : 1 < ofInt (highest + diff) - ofInt highest ↔ 1 < diff := by
    rw [lt_iff_toNat_lt, hdiff']
    rfl
  simp only [receive, hlast, hgt, if_true, if_neg hclose, hdiff', hone]
  refine ⟨_, rfl, fun k hk => ?_⟩
  rw [Vector.getElem_set]
  split
  case isTrue hzero => rw [if_pos hzero.symm]
  case isFalse hzero =>
    rw [if_neg (Ne.symm hzero)]
    -- a step of one has no time to clear
    by_cases hfar : 1 < diff
    · rw [if_pos hfar, getElem_memsetTimes, getElem_memmoveTimes]
      split <;> rfl
    · rw [if_neg hfar, getElem_memmoveTimes, if_neg (by omega), if_neg (by omega)]

theorem receive_window (hlast : window.lastRemoteSeq = ofInt highest) (hk : k < 32) :
    window.receive (ofInt (highest - k)) now = if window.recvPacketTimes[k] ≠ 0 then none
      else some { window with recvPacketTimes := window.recvPacketTimes.set k now } := by
  have hnear : |highest - (k : Int) - highest| < 2 ^ 31 := by rw [abs_lt]; omega
  have hgt := mt (seqgt_ofInt hnear).mp (by omega)
  have hidx := toNat_sub_ofInt (show highest - k ≤ highest by omega) (by omega)
  have hindex' : (ofInt highest - ofInt (highest - k)).toNat = k := by omega
  simp only [receive, hlast, hgt, hindex', dif_pos hk, Bool.false_eq_true, if_false]

theorem receive_late (hlast : window.lastRemoteSeq = ofInt highest) (hnear : |number - highest| < 2 ^ 31)
    (hlate : number + 32 ≤ highest) : window.receive (ofInt number) now = none := by
  have hgt := mt (seqgt_ofInt hnear).mp (by omega)
  have hidx := toNat_sub_ofInt (show number ≤ highest by omega) (by have := abs_lt.mp hnear; omega)
  have hfar : ¬(ofInt highest - ofInt number).toNat < 32 := by omega
  simp only [receive, hlast, hgt, dif_neg hfar, Bool.false_eq_true, if_false]

end

end ReceiveWindow

/-! ## The receiver -/

structure Receiver where
  window : ReceiveWindow
  /-- The whole number of the newest packet. -/
  highest : Int
  /-- The packets that went past the check. -/
  accepted : List Int
deriving DecidableEq

structure ReceivedPacket where
  number : Int
  now : Int

def ReceivedPacket.pseq (packet : ReceivedPacket) : UInt32 := UInt32.ofInt packet.number

namespace Receiver

def init : Receiver := ⟨ReceiveWindow.init, 0, []⟩

def receive (r : Receiver) (packet : ReceivedPacket) : Option Receiver :=
  (r.window.receive packet.pseq packet.now).map fun window =>
    ⟨window, max r.highest packet.number, packet.number :: r.accepted⟩

def step (r : Receiver) (packet : ReceivedPacket) : Receiver := (r.receive packet).getD r

/-- The numbers in flight are less than half of the numbers apart, and the clock is positive. -/
def InFlight (r : Receiver) (packet : ReceivedPacket) : Prop :=
  |packet.number - r.highest| < 2 ^ 31 ∧ 0 < packet.now

/-- The times say which packets have been accepted. -/
structure Exact (r : Receiver) : Prop where
  lastRemoteSeq : r.window.lastRemoteSeq = UInt32.ofInt r.highest
  times : ∀ (k : Nat) (_ : k < 32), r.window.recvPacketTimes[k] ≠ 0 ↔ r.highest - k ∈ r.accepted

/-- A packet goes past the check for the first time only, and the window is exact after it. -/
def ProcessedOnce (r : Receiver) (packet : ReceivedPacket) : Prop :=
  ∀ r', r.receive packet = some r' → packet.number ∉ r.accepted ∧ r'.Exact

/-- The packet is not more than 31 ahead of the newest one. -/
def SmallJump (r : Receiver) (packet : ReceivedPacket) : Prop :=
  seqgt packet.pseq r.window.lastRemoteSeq = true → packet.pseq - r.window.lastRemoteSeq ≤ 31

variable {r : Receiver} {packet : ReceivedPacket}

theorem smallJump_iff (hlast : r.window.lastRemoteSeq = ofInt r.highest) (hflight : r.InFlight packet) :
    r.SmallJump packet ↔ packet.number ≤ r.highest + 31 := by
  have hnear := abs_lt.mp hflight.1
  unfold SmallJump ReceivedPacket.pseq
  rw [hlast, seqgt_ofInt hflight.1]
  by_cases hahead : r.highest < packet.number
  · have hdiff := toNat_sub_ofInt hahead.le (by omega)
    have hbound : ofInt packet.number - ofInt r.highest ≤ 31 ↔ packet.number - r.highest ≤ 31 := by
      rw [UInt32.le_iff_toNat_le, ← hdiff]
      exact Int.ofNat_le.symm
    rw [hbound]
    omega
  · exact ⟨fun _ => by omega, fun _ habsurd => absurd habsurd hahead⟩

theorem receive_cases (hlast : r.window.lastRemoteSeq = ofInt r.highest) (hflight : r.InFlight packet) :
    (r.highest + 31 < packet.number ∧ r.receive packet = some
        ⟨⟨packet.pseq, ReceiveWindow.memsetTimes r.window.recvPacketTimes 32⟩, packet.number,
          packet.number :: r.accepted⟩) ∨
      (∃ (diff : Nat) (times : Vector Int 32), 0 < diff ∧ diff ≤ 31 ∧ packet.number = r.highest + diff ∧
        r.receive packet = some ⟨⟨packet.pseq, times⟩, packet.number, packet.number :: r.accepted⟩ ∧
        ∀ (k : Nat) (_ : k < 32), times[k] =
          if k = 0 then packet.now else if k < diff then 0 else r.window.recvPacketTimes[k - diff]) ∨
      (∃ (k : Nat) (_ : k < 32), packet.number = r.highest - k ∧ r.window.recvPacketTimes[k] = 0 ∧
        r.receive packet = some ⟨⟨r.window.lastRemoteSeq, r.window.recvPacketTimes.set k packet.now⟩, r.highest,
            packet.number :: r.accepted⟩) ∨ packet.number ≤ r.highest ∧ r.receive packet = none := by
  have hnear := abs_lt.mp hflight.1
  unfold receive ReceivedPacket.pseq
  by_cases hjump : r.highest + 31 < packet.number
  · refine .inl ⟨hjump, ?_⟩
    rw [ReceiveWindow.receive_jump hlast hflight.1 hjump, Option.map_some, max_eq_right (by omega)]
  by_cases hahead : r.highest < packet.number
  · obtain ⟨diff, hdiff⟩ := Int.eq_ofNat_of_zero_le (show 0 ≤ packet.number - r.highest by omega)
    have hnum : packet.number = r.highest + diff := by omega
    obtain ⟨times, hrecv, htimes⟩ :=
      @ReceiveWindow.receive_forward _ _ packet.now diff hlast (by omega) (by omega)
    refine .inr (.inl ⟨diff, times, by omega, by omega, hnum, ?_, htimes⟩)
    rw [hnum, hrecv, Option.map_some, max_eq_right (by omega)]
  obtain ⟨k, hk⟩ := Int.eq_ofNat_of_zero_le (show 0 ≤ r.highest - packet.number by omega)
  have hnum : packet.number = r.highest - k := by omega
  by_cases hlate : k < 32
  · by_cases htime : r.window.recvPacketTimes[k] = 0
    · refine .inr (.inr (.inl ⟨k, hlate, hnum, htime, ?_⟩))
      rw [hnum, ReceiveWindow.receive_window hlast hlate, if_neg (not_not.mpr htime), Option.map_some,
        max_eq_left (by omega)]
    · refine .inr (.inr (.inr ⟨by omega, ?_⟩))
      rw [hnum, ReceiveWindow.receive_window hlast hlate, if_pos htime, Option.map_none]
  · refine .inr (.inr (.inr ⟨by omega, ?_⟩))
    rw [ReceiveWindow.receive_late hlast hflight.1 (by omega), Option.map_none]

/-- The times mark only packets that have been accepted. -/
structure Sound (r : Receiver) : Prop where
  lastRemoteSeq : r.window.lastRemoteSeq = UInt32.ofInt r.highest
  times : ∀ (k : Nat) (_ : k < 32), r.window.recvPacketTimes[k] ≠ 0 → r.highest - k ∈ r.accepted
  highest : r.highest = 0 ∨ r.highest ∈ r.accepted

theorem sound_init : init.Sound where
  lastRemoteSeq := rfl
  times := fun _ hk htime => absurd (ReceiveWindow.getElem_init hk) htime
  highest := .inl rfl

variable {r' : Receiver}

theorem Sound.receive (h : r.Sound) (hflight : r.InFlight packet) (hrecv : r.receive packet = some r') :
    r'.Sound ∧ r'.accepted = packet.number :: r.accepted ∧
      (r.highest < packet.number ∧ r'.highest = packet.number ∨
        packet.number ≤ r.highest ∧ r'.highest = r.highest) := by
  rcases receive_cases h.lastRemoteSeq hflight with ⟨hjump, hahead⟩ |
    ⟨diff, times, hpos, hle, hnum, hforward, htimes⟩ | ⟨k, hk, hnum, htime, hwindow⟩ | ⟨-, hnone⟩
  · obtain rfl := Option.some.inj (hahead.symm.trans hrecv)
    refine ⟨⟨rfl, fun _ hk htime => ?_, .inr List.mem_cons_self⟩, rfl, .inl ⟨by omega, rfl⟩⟩
    rw [ReceiveWindow.getElem_memsetTimes, if_pos hk] at htime
    exact absurd rfl htime
  · obtain rfl := Option.some.inj (hforward.symm.trans hrecv)
    refine ⟨⟨rfl, fun k hk htime => ?_, .inr List.mem_cons_self⟩, rfl, .inl ⟨by omega, rfl⟩⟩
    dsimp only at htime ⊢
    rw [htimes k hk] at htime
    split at htime
    case isTrue hzero =>
      rw [hzero, Int.natCast_zero, Int.sub_zero]
      exact List.mem_cons_self
    split at htime
    · exact absurd rfl htime
    · have hold := h.times (k - diff) (by omega) htime
      have hsame : r.highest - ((k - diff : Nat) : Int) = packet.number - k := by omega
      exact List.mem_cons_of_mem _ (hsame ▸ hold)
  · obtain rfl := Option.some.inj (hwindow.symm.trans hrecv)
    refine ⟨⟨h.lastRemoteSeq, fun j hj hmarked => ?_, h.highest.imp_right (List.mem_cons_of_mem _)⟩, rfl,
      .inr ⟨by omega, rfl⟩⟩
    dsimp only at hmarked ⊢
    rw [Vector.getElem_set] at hmarked
    split at hmarked
    case isTrue heq =>
      rw [← heq, ← hnum]
      exact List.mem_cons_self
    · exact List.mem_cons_of_mem _ (h.times j hj hmarked)
  · cases hnone.symm.trans hrecv

/-- What holds as long as no packet is far ahead. -/
structure Inv (r : Receiver) : Prop where
  exact : r.Exact
  le_highest : ∀ number ∈ r.accepted, number ≤ r.highest

theorem inv_init : init.Inv where
  exact := ⟨rfl, fun k hk => by simp [init]⟩
  le_highest := fun number hm => absurd hm List.not_mem_nil

theorem Inv.receive (h : r.Inv) (hflight : r.InFlight packet) (hsmall : packet.number ≤ r.highest + 31)
    (hrecv : r.receive packet = some r') : packet.number ∉ r.accepted ∧ r'.Inv := by
  rcases receive_cases h.exact.lastRemoteSeq hflight with ⟨hjump, -⟩ |
    ⟨diff, times, hpos, hle, hnum, hforward, htimes⟩ | ⟨k, hk, hnum, htime, hwindow⟩ | ⟨-, hnone⟩
  · omega
  · obtain rfl := Option.some.inj (hforward.symm.trans hrecv)
    have hnew : packet.number ∉ r.accepted := fun hm => by have := h.le_highest _ hm; omega
    refine ⟨hnew, ⟨rfl, fun k hk => ?_⟩, ?_⟩
    · dsimp only
      rw [htimes k hk, List.mem_cons]
      split
      case isTrue hzero =>
        subst hzero
        simpa using hflight.2.ne'
      split
      · refine ⟨fun habsurd => absurd rfl habsurd, fun hm => ?_⟩
        rcases hm with heq | hm
        · omega
        · have := h.le_highest _ hm
          omega
      · rw [h.exact.times (k - diff) (by omega)]
        have hsame : r.highest - ((k - diff : Nat) : Int) = packet.number - k := by omega
        rw [hsame]
        exact ⟨Or.inr, fun hm => hm.resolve_left (by omega)⟩
    · refine List.forall_mem_cons.mpr ⟨le_refl _, fun number hm => ?_⟩
      have := h.le_highest number hm
      dsimp only
      omega
  · obtain rfl := Option.some.inj (hwindow.symm.trans hrecv)
    have hnew : packet.number ∉ r.accepted := fun hm =>
      (h.exact.times k hk).mpr (hnum ▸ hm) htime
    refine ⟨hnew, ⟨h.exact.lastRemoteSeq, fun j hj => ?_⟩, ?_⟩
    · dsimp only
      rw [Vector.getElem_set, List.mem_cons]
      split
      case isTrue heq =>
        subst heq
        exact ⟨fun _ => .inl hnum.symm, fun _ => hflight.2.ne'⟩
      case isFalse hne =>
        rw [h.exact.times j hj]
        exact ⟨Or.inr, fun hm => hm.resolve_left (by omega)⟩
    · refine List.forall_mem_cons.mpr ⟨?_, h.le_highest⟩
      dsimp only
      omega
  · cases hnone.symm.trans hrecv

theorem Inv.not_exact_of_jump (h : r.Inv) (hflight : r.InFlight packet) (hjump : r.highest + 31 < packet.number) :
    ∃ r', r.receive packet = some r' ∧ ¬r'.Exact := by
  rcases receive_cases h.exact.lastRemoteSeq hflight with ⟨-, hrecv⟩ | ⟨_, _, _, _, _, _⟩ | ⟨_, _, _, _⟩ | ⟨_, _⟩
  · refine ⟨_, hrecv, fun hexact => ?_⟩
    have hzero := (hexact.times 0 (by decide)).mpr (by simp)
    simp at hzero
  all_goals omega

theorem Inv.step (h : r.Inv) (hflight : r.InFlight packet) (hsmall : r.SmallJump packet) : (r.step packet).Inv := by
  unfold Receiver.step
  cases hrecv : r.receive packet with
  | none => exact h
  | some r' => exact (h.receive hflight ((smallJump_iff h.exact.lastRemoteSeq hflight).mp hsmall) hrecv).2

theorem processedOnce_iff_smallJump (h : r.Inv) (hflight : r.InFlight packet) :
    r.ProcessedOnce packet ↔ r.SmallJump packet := by
  rw [smallJump_iff h.exact.lastRemoteSeq hflight]
  constructor
  · intro honce
    by_contra hjump
    obtain ⟨r', hrecv, hnot⟩ := h.not_exact_of_jump hflight (not_le.mp hjump)
    exact hnot (honce r' hrecv).2
  · intro hsmall r' hrecv
    exact ⟨(h.receive hflight hsmall hrecv).1, (h.receive hflight hsmall hrecv).2.exact⟩

/-- For numbers in flight, every packet is processed at most once and the window stays exact in exactly the runs in
which no packet is more than 31 ahead of the newest one. -/
theorem processedOnce_iff (packets : List ReceivedPacket) (hflight : AllSteps step InFlight init packets) :
    AllSteps step ProcessedOnce init packets ↔ AllSteps step SmallJump init packets := by
  have hstep : ∀ (r : Receiver) packet, r.InFlight packet → r.Inv → r.SmallJump packet → (r.step packet).Inv :=
    fun _ _ hflight hinv hsmall => hinv.step hflight hsmall
  have hiff : ∀ (r : Receiver) packet, r.InFlight packet → r.Inv →
      (r.ProcessedOnce packet ↔ r.SmallJump packet) := fun _ _ hflight hinv => processedOnce_iff_smallJump hinv hflight
  exact allSteps_iff hstep hiff inv_init hflight

/-- After the first packet 39 are lost, and the next one comes twice. -/
def burstLoss : List ReceivedPacket := [⟨1, 5⟩, ⟨41, 6⟩, ⟨41, 7⟩]

/-- The packet after the loss is accepted without a time, and when it comes again it is accepted again. -/
theorem burstLoss_processed_twice :
    AllSteps step InFlight init burstLoss ∧ ¬AllSteps step ProcessedOnce init burstLoss ∧
      (burstLoss.foldl step init).accepted = [41, 41, 1] := by
  have hflight : AllSteps step InFlight init burstLoss := by
    refine ⟨⟨?_, ?_⟩, ⟨?_, ?_⟩, ⟨?_, ?_⟩, trivial⟩ <;> decide
  refine ⟨hflight, fun honce => ?_, by decide⟩
  have hjump := honce.2.1 _ rfl
  exact absurd ((hjump.2.times 0 (by decide)).mpr (by decide)) (by decide)

/-- A gap, the missing packet, and one that comes again. -/
theorem processedOnce_reordered :
    AllSteps step ProcessedOnce init [⟨1, 5⟩, ⟨3, 6⟩, ⟨2, 7⟩, ⟨3, 8⟩, ⟨34, 9⟩] :=
  (processedOnce_iff _ (by refine ⟨⟨?_, ?_⟩, ⟨?_, ?_⟩, ⟨?_, ?_⟩, ⟨?_, ?_⟩, ⟨?_, ?_⟩, trivial⟩ <;> decide)).mpr
    (by refine ⟨?_, ?_, ?_, ?_, ?_, trivial⟩ <;> unfold SmallJump <;> decide)

end Receiver

end TelegramClient.VoIP
