import TelegramClient.VoIP.Controller
import Mathlib.Data.Nat.Bitwise
import Mathlib.Data.List.FinRange
import Mathlib.Data.List.TakeWhile

/-!
# Acknowledgements of a call mean receipt

The mask of a header has the bit `31-k` for the packet `ackId-k`, and the reader takes this bit for the packet
`ackId-(k+1)`.

* `ackBit_ackMask` : what the bits of a mask are;
* `Peer.AckInv` : what was acknowledged has been received;
* **`acks_mean_receipt`** : in the runs in which no mask has a gap where it matters, what is acknowledged was received.
-/

namespace TelegramClient.VoIP
open UInt32 (ofInt ofInt_add ofInt_one ofNat)
open List (forall_mem_append forall_mem_cons forall_mem_nil mem_cons_self mem_filter)
open Vector (mem_toList_iff replicate)

/-! ## The mask -/

variable (acks : UInt32)

theorem testBit_or_one (b : Prop) [Decidable b] (j : Nat) :
    (if b then acks ||| 1 else acks).toNat.testBit j = true ↔ acks.toNat.testBit j = true ∨ b ∧ j = 0 := by
  by_cases hb : b
  · rw [if_pos hb, UInt32.toNat_or, Nat.testBit_or, Bool.or_eq_true]
    refine or_congr_right ?_
    have hone : (1 : UInt32).toNat = 1 := rfl
    rw [hone, Nat.testBit_one_eq_true_iff_self_eq_zero]
    exact (and_iff_right hb).symm
  · rw [if_neg hb]
    exact (or_iff_left fun h => hb h.1).symm

theorem testBit_shift_one (j : Nat) :
    (acks <<< 1).toNat.testBit j = true ↔ j < 32 ∧ 1 ≤ j ∧ acks.toNat.testBit (j - 1) = true := by
  have hone : (1 : UInt32).toNat % 32 = 1 := rfl
  rw [UInt32.toNat_shiftLeft, hone, Nat.testBit_mod_two_pow, Nat.testBit_shiftLeft]
  simp

/-- The mask after the first `n` rounds. -/
def maskOf (times : Vector Int 32) (n : Nat) : UInt32 := ((List.finRange 32).take n).foldl (addAck times) 0

variable (times : Vector Int 32)

variable {n : Nat}

theorem maskOf_succ (h : n < 32) : maskOf times (n + 1) = addAck times (maskOf times n) ⟨n, h⟩ := by
  unfold maskOf
  rw [List.take_succ_eq_append_getElem (by simpa using h), List.foldl_append]
  simp

theorem testBit_maskOf (hn : n ≤ 31) (j : Nat) :
    (maskOf times n).toNat.testBit j = true ↔ ∃ (k : Nat) (_ : k < 32), k + j = n ∧ 1 ≤ j ∧ 0 < times[k] := by
  induction n generalizing j with
  | zero =>
    refine ⟨fun h => ?_, fun ⟨k, _, hsum, hpos, _⟩ => ?_⟩
    · simp [maskOf] at h
    · omega
  | succ n ih =>
    rw [maskOf_succ times (by omega), addAck, if_pos (show n < 31 by omega), testBit_shift_one, testBit_or_one,
      ih (by omega)]
    constructor
    · rintro ⟨-, hpos, ⟨k, hk, hsum, -, htime⟩ | ⟨htime, hzero⟩⟩
      · exact ⟨k, hk, by omega, hpos, htime⟩
      · exact ⟨n, by omega, by omega, hpos, htime⟩
    · rintro ⟨k, hk, hsum, hpos, htime⟩
      refine ⟨by omega, hpos, ?_⟩
      by_cases hzero : j - 1 = 0
      · obtain rfl : k = n := by omega
        exact .inr ⟨htime, hzero⟩
      · exact .inl ⟨k, hk, by omega, by omega, htime⟩

theorem ackBit_eq_testBit {i : Nat} (hi : i < 32) : Peer.ackBit acks i = acks.toNat.testBit (31 - i) := by
  have hshift : (ofNat (31 - i)).toNat % 32 = 31 - i := by
    rw [UInt32.toNat_ofNat']
    omega
  have hone : (1 : UInt32).toNat = 2 ^ 1 - 1 := rfl
  have hand : ((acks >>> ofNat (31 - i)) &&& 1).toNat = (acks.toNat >>> (31 - i)) % 2 := by
    rw [UInt32.toNat_and, UInt32.toNat_shiftRight, hshift, hone, Nat.and_two_pow_sub_one_eq_mod]
  rw [Bool.eq_iff_iff, Peer.ackBit, bne_iff_ne, ne_eq, ← UInt32.toNat_inj, hand, Nat.testBit_eq_decide_div_mod_eq,
    decide_eq_true_eq, Nat.shiftRight_eq_div_pow]
  have hzero : (0 : UInt32).toNat = 0 := rfl
  omega

theorem ackBit_ackMask {k : Nat} (hk : k < 32) : Peer.ackBit (ackMask times) k = true ↔ 0 < times[k] := by
  have hfull : ackMask times = addAck times (maskOf times 31) ⟨31, by decide⟩ := by
    rw [← maskOf_succ]
    rfl
  rw [ackBit_eq_testBit _ hk, hfull, addAck, if_neg (show ¬31 < 31 by decide), testBit_or_one,
    testBit_maskOf times (le_refl 31)]
  constructor
  · rintro (⟨j, hj, hsum, -, htime⟩ | ⟨htime, hzero⟩)
    · obtain rfl : j = k := by omega
      exact htime
    · obtain rfl : k = 31 := by omega
      exact htime
  · intro htime
    by_cases hlast : k = 31
    · subst hlast
      exact .inr ⟨htime, rfl⟩
    · exact .inl ⟨k, hk, by omega, by omega, htime⟩

/-! ## What the headers say -/

structure Datagram.Sound (d : Datagram) (r : Receiver) : Prop where
  pseq : d.header.pseq = UInt32.ofInt d.number
  ackId : d.header.ackId = UInt32.ofInt d.ackNumber
  acked : d.ackNumber = 0 ∨ d.ackNumber ∈ d.accepted
  mask : ∀ k : Nat, k < 32 → Peer.ackBit d.header.acks k = true → d.ackNumber - k ∈ d.accepted
  subset : d.accepted ⊆ r.accepted
  le : d.ackNumber ≤ r.highest

def Receiver.Grows (r r' : Receiver) : Prop := r.accepted ⊆ r'.accepted ∧ r.highest ≤ r'.highest

theorem Receiver.Grows.refl (r : Receiver) : r.Grows r := ⟨List.Subset.refl _, le_refl _⟩

variable {r r' : Receiver}

theorem Receiver.Grows.receive (h : r.Sound) {packet : ReceivedPacket} (hflight : r.InFlight packet)
    (hrecv : r.receive packet = some r') : r'.Sound ∧ r.Grows r' := by
  obtain ⟨hsound, haccepted, hhighest⟩ := h.receive hflight hrecv
  refine ⟨hsound, haccepted ▸ List.subset_cons_self _ _, ?_⟩
  rcases hhighest with ⟨hlt, hsame⟩ | ⟨-, hsame⟩
  · exact hsame ▸ hlt.le
  · exact hsame.ge

theorem Datagram.Sound.mono {d : Datagram} (h : d.Sound r) (hgrows : r.Grows r') : d.Sound r' :=
  ⟨h.pseq, h.ackId, h.acked, h.mask, List.Subset.trans h.subset hgrows.1, h.le.trans hgrows.2⟩

structure PendingOutgoingPacket.Sound (pending : PendingOutgoingPacket) : Prop where
  seq : pending.seq = UInt32.ofInt pending.number
  pos : 0 < pending.number

structure Call.Sound (c : Call) : Prop where
  receiver : ∀ side, (c.peer side).receiver.Sound
  pending : ∀ side, ∀ pending ∈ (c.peer side).sendQueue, pending.Sound
  seq : ∀ side, (c.peer side).seq = UInt32.ofInt (c.peer side).nextNumber ∧ 0 < (c.peer side).nextNumber
  datagram : ∀ side, ∀ d ∈ c.sent side, d.Sound (c.peer side).receiver

namespace Call

variable (c : Call)

@[simp] theorem peer_act_self (side : Side) (p : Peer) (out : List Datagram) :
    (c.act side p out).peer side = p := by simp [act]

@[simp] theorem sent_act_self (side : Side) (p : Peer) (out : List Datagram) :
    (c.act side p out).sent side = c.sent side ++ out := by simp [act]

variable {side side' : Side}

theorem peer_act_of_ne (h : side' ≠ side) (p : Peer) (out : List Datagram) :
    (c.act side p out).peer side' = c.peer side' := by simp [act, h]

theorem sent_act_of_ne (h : side' ≠ side) (p : Peer) (out : List Datagram) :
    (c.act side p out).sent side' = c.sent side' := by simp [act, h]

variable {p : Peer} {out : List Datagram}

theorem forall_peer_act (P : Peer → Prop) {c : Call} (hother : ∀ side, P (c.peer side)) (side : Side) (hself : P p)
    (side' : Side) : P ((c.act side p out).peer side') := by
  by_cases hside : side' = side
  · subst hside
    rwa [peer_act_self]
  · rw [peer_act_of_ne c hside]
    exact hother side'

theorem Sound.act {c : Call} (h : c.Sound) (side : Side) (hreceiver : p.receiver.Sound)
    (hgrows : (c.peer side).receiver.Grows p.receiver) (hpend : ∀ pending ∈ p.sendQueue, pending.Sound)
    (hseq : p.seq = ofInt p.nextNumber ∧ 0 < p.nextNumber) (hout : ∀ d ∈ out, d.Sound p.receiver) :
    (c.act side p out).Sound := by
  constructor
  case receiver => exact forall_peer_act (fun p => p.receiver.Sound) h.receiver side hreceiver
  case pending => exact forall_peer_act (fun p => ∀ pending ∈ p.sendQueue, pending.Sound) h.pending side hpend
  case seq => exact forall_peer_act (fun p => p.seq = ofInt p.nextNumber ∧ 0 < p.nextNumber) h.seq side hseq
  case datagram =>
    intro side'
    by_cases hside : side' = side
    · subst hside
      rw [peer_act_self, sent_act_self]
      exact forall_mem_append.mpr ⟨fun d hd => (h.datagram side' d hd).mono hgrows, hout⟩
    · rw [peer_act_of_ne c hside, sent_act_of_ne c hside]
      exact h.datagram side'

end Call

/-! ## What the functions leave alone -/

namespace Peer

variable (sha1 : Bytes → Bytes) (p : Peer)

variable (d : Datagram) (now : Int)

theorem receiver_processAcks :
    (p.processAcks d now).receiver = p.receiver ∧ (p.processAcks d now).sendQueue = p.sendQueue ∧
      (p.processAcks d now).seq = p.seq ∧ (p.processAcks d now).nextNumber = p.nextNumber := by
  unfold processAcks
  split <;> exact ⟨rfl, rfl, rfl, rfl⟩

theorem processExtraData_eq (data : Bytes) : ∃ hashes applied, p.processExtraData sha1 data =
      { p with lastReceivedExtrasByType := hashes, applied := applied } := by
  unfold processExtraData
  split
  · exact ⟨_, _, rfl⟩
  · dsimp only
    split
    · exact ⟨_, _, rfl⟩
    · exact ⟨_, _, rfl⟩

theorem processExtras_eq (header : PacketHeader) : ∃ hashes applied, p.processExtras sha1 header =
      { p with lastReceivedExtrasByType := hashes, applied := applied } := by
  have hfold : ∀ (extras : List Bytes) (p : Peer), ∃ hashes applied, extras.foldl (processExtraData sha1) p =
      { p with lastReceivedExtrasByType := hashes, applied := applied } := by
    intro extras
    induction extras with
    | nil => exact fun p => ⟨_, _, rfl⟩
    | cons data extras ih =>
      intro p
      obtain ⟨hashes, applied, hone⟩ := processExtraData_eq sha1 p data
      obtain ⟨hashes', applied', hrest⟩ := ih (p.processExtraData sha1 data)
      refine ⟨hashes', applied', ?_⟩
      rw [List.foldl_cons, hrest, hone]
  unfold processExtras
  split
  · exact hfold header.extras p
  · exact ⟨_, _, rfl⟩

theorem writeHeader_frame (pending : PendingOutgoingPacket) :
    (p.writeHeader pending).receiver = p.receiver ∧ (p.writeHeader pending).seq = p.seq ∧
      (p.writeHeader pending).nextNumber = p.nextNumber := by
  unfold writeHeader
  dsimp only
  split <;> exact ⟨rfl, rfl, rfl⟩

theorem processAcks_receiver (receiver : Receiver) (d : Datagram) (now : Int) :
    { p with receiver := receiver }.processAcks d now = { p.processAcks d now with receiver := receiver } := by
  unfold processAcks
  by_cases h : seqgt d.header.ackId p.lastRemoteAckSeq = true
  · rw [if_pos h, if_pos h]
  · rw [if_neg h, if_neg h]

/-- A header whose packet is dropped changes nothing, and another one is for the receiver, the acknowledgements and the
extras. -/
theorem processHeader_cases : p.receiver.receive ⟨d.number, now⟩ = none ∧ p.processHeader sha1 d now = p ∨
      ∃ receiver hashes applied, p.receiver.receive ⟨d.number, now⟩ = some receiver ∧
        p.processHeader sha1 d now = { p.processAcks d now with
          receiver := receiver, lastReceivedExtrasByType := hashes, applied := applied } := by
  cases hrecv : p.receiver.receive ⟨d.number, now⟩ with
  | none => exact .inl ⟨rfl, by simp only [processHeader, hrecv]⟩
  | some receiver =>
    obtain ⟨hashes, applied, heq⟩ :=
      processExtras_eq sha1 ({ p with receiver := receiver }.processAcks d now) d.header
    refine .inr ⟨receiver, hashes, applied, rfl, ?_⟩
    simp only [processHeader, hrecv]
    rw [heq, processAcks_receiver]

theorem sound_datagram {p : Peer} (h : p.receiver.Sound) {pending : PendingOutgoingPacket}
    (hpend : pending.Sound) : (p.datagram pending).Sound p.receiver where
  pseq := hpend.seq
  ackId := h.lastRemoteSeq
  acked := h.highest
  mask := fun _ hk hbit => h.times _ hk ((ackBit_ackMask _ hk).mp hbit).ne'
  subset := List.Subset.refl _
  le := le_refl _

theorem resendQueued_spec (qps : List QueuedPacket) (buffers : Nat) {seq : UInt32} {number : Int}
    (hseq : seq = ofInt number) (hpos : 0 < number) :
    (∀ pending ∈ (resendQueued now qps buffers seq number).2, pending.Sound) ∧
      ∀ qp' ∈ (resendQueued now qps buffers seq number).1, ∃ qp ∈ qps,
        qp' = qp ∨ ∃ n : Int, qp' = qp.resent (ofInt n) n now := by
  induction qps generalizing buffers seq number with
  | nil => exact ⟨forall_mem_nil _, forall_mem_nil _⟩
  | cons qp qps ih =>
    have hkeep : ∀ {P : QueuedPacket → Prop}, (∃ qp' ∈ qps, P qp') → ∃ qp' ∈ qp :: qps, P qp' :=
      fun ⟨qp', hm, hP⟩ => ⟨qp', List.mem_cons_of_mem qp hm, hP⟩
    rw [resendQueued]
    split
    · obtain ⟨hpend, hkept⟩ := ih buffers hseq hpos
      exact ⟨hpend, fun qp' hm => hkeep (hkept qp' hm)⟩
    · split
      · have hnext : seq + 1 = ofInt (number + 1) := by rw [ofInt_add, hseq, ofInt_one]
        obtain ⟨hpend, hkept⟩ := ih (buffers - 1) hnext (by omega)
        refine ⟨forall_mem_cons.mpr ⟨⟨hseq, hpos⟩, hpend⟩, forall_mem_cons.mpr ⟨?_, ?_⟩⟩
        · exact ⟨qp, mem_cons_self, .inr ⟨number, by rw [hseq]⟩⟩
        · exact fun qp' hm => hkeep (hkept qp' hm)
      · obtain ⟨hpend, hkept⟩ := ih buffers hseq hpos
        refine ⟨hpend, forall_mem_cons.mpr ⟨⟨qp, mem_cons_self, .inl rfl⟩, ?_⟩⟩
        exact fun qp' hm => hkeep (hkept qp' hm)

/-- The numbers that meet in a header are less than half of the numbers apart. -/
structure NumbersNear (p : Peer) (d : Datagram) : Prop where
  received : |d.number - p.receiver.highest| < 2 ^ 31
  acknowledged : |d.ackNumber - p.ackNumber| < 2 ^ 31
  recent : ∀ packet ∈ p.recentOutgoingPackets, |packet.number - d.ackNumber| < 2 ^ 31
  queued : ∀ qp ∈ p.queuedPackets, ∀ n ∈ qp.sentUnder, ∀ packet ∈ p.recentOutgoingPackets,
    |packet.number - n| < 2 ^ 31
  extras : ∀ x ∈ p.currentExtras, x.firstContainingSeq ≠ 0 → |d.ackNumber - p.firstNumber x.type| < 2 ^ 31

instance (p : Peer) (d : Datagram) : Decidable (p.NumbersNear d) :=
  decidable_of_iff (_ ∧ _ ∧ _ ∧ _ ∧ _)
    ⟨fun ⟨h1, h2, h3, h4, h5⟩ => ⟨h1, h2, h3, h4, h5⟩, fun ⟨h1, h2, h3, h4, h5⟩ => ⟨h1, h2, h3, h4, h5⟩⟩

theorem NumbersNear.inFlight {p : Peer} {d : Datagram} (h : p.NumbersNear d) {now : Int} (hclock : 0 < now) :
    p.receiver.InFlight ⟨d.number, now⟩ := ⟨h.received, hclock⟩

end Peer

namespace Call

/-- The clock is positive, and the numbers in flight are less than half of the numbers apart. -/
def InFlight (c : Call) : CallEvent → Prop
  | .deliver side index now => ∀ d, (c.sent side.other)[index]? = some d → 0 < now ∧ (c.peer side).NumbersNear d
  | _ => True

instance (c : Call) : (event : CallEvent) → Decidable (c.InFlight event)
  | .deliver side index _ => Option.decidableForallMem (c.sent side.other)[index]?
  | .put .. | .sendPacketReliably .. | .sendExtra .. | .tick .. | .send .. | .drop .. | .setState .. => isTrue trivial

variable (sha1 : Bytes → Bytes)

theorem sound_init (callID : Vector UInt8 16) : (init callID).Sound where
  receiver := fun _ => Receiver.sound_init
  pending := fun _ => forall_mem_nil _
  seq := fun _ => ⟨rfl, Int.one_pos⟩
  datagram := fun _ => forall_mem_nil _

theorem Sound.step {c : Call} (h : c.Sound) {event : CallEvent} (hflight : c.InFlight event) :
    (stepCall sha1 c event).Sound := by
  have hnone : ∀ side, ∀ d ∈ ([] : List Datagram), d.Sound (c.peer side).receiver :=
    fun _ => forall_mem_nil _
  cases event with
  | put side type data copies =>
    obtain ⟨hseq, hpos⟩ := h.seq side
    refine h.act side (h.receiver side) (Receiver.Grows.refl _) ?_ ⟨?_, Int.add_pos hpos Int.one_pos⟩ (hnone side)
    · refine forall_mem_append.mpr ⟨h.pending side, fun pending hm => ?_⟩
      rw [List.eq_of_mem_replicate hm]
      exact ⟨hseq, hpos⟩
    · rw [Peer.put, ofInt_add, ← hseq, ofInt_one]
  | sendPacketReliably side type data retryInterval timeout | sendExtra side data type
  | setState side state peerVersion =>
    exact h.act side (h.receiver side) (Receiver.Grows.refl _) (h.pending side) (h.seq side) (hnone side)
  | tick side now buffers =>
    obtain ⟨hseq, hpos⟩ := h.seq side
    obtain ⟨hpend, -⟩ := Peer.resendQueued_spec now (c.peer side).queuedPackets buffers hseq hpos
    refine h.act side (h.receiver side) (Receiver.Grows.refl _) ?_ ⟨?_, ?_⟩ (hnone side)
    · exact forall_mem_append.mpr ⟨h.pending side, hpend⟩
    · dsimp only [Peer.tick]
      rw [ofInt_add, ← hseq, ofInt_natCast]
    · exact Int.add_pos_of_pos_of_nonneg hpos (Int.natCast_nonneg _)
  | send side index =>
    rw [stepCall]
    cases hpend : (c.peer side).sendQueue[index]? with
    | none => exact h
    | some pending =>
      dsimp only
      split
      · obtain ⟨hreceiver, hseq, hnext⟩ := Peer.writeHeader_frame (c.peer side) pending
        refine h.act side ?_ ?_ ?_ ?_ ?_
        · exact hreceiver ▸ h.receiver side
        · exact hreceiver ▸ Receiver.Grows.refl _
        · exact fun other hm => h.pending side other (List.mem_of_mem_eraseIdx hm)
        · exact hseq ▸ hnext ▸ h.seq side
        · refine List.forall_mem_singleton.mpr ?_
          exact hreceiver ▸ Peer.sound_datagram (h.receiver side)
            (h.pending side pending (List.mem_of_getElem? hpend))
      · exact h
  | drop side index =>
    exact h.act side (h.receiver side) (Receiver.Grows.refl _)
      (fun other hm => h.pending side other (List.mem_of_mem_eraseIdx hm)) (h.seq side) (hnone side)
  | deliver side index now =>
    rw [stepCall]
    cases hdatagram : (c.sent side.other)[index]? with
    | none => exact h
    | some d =>
      obtain ⟨hclock, hnear⟩ := hflight d hdatagram
      dsimp only
      rcases Peer.processHeader_cases sha1 (c.peer side) d now with
        ⟨-, heq⟩ | ⟨receiver, hashes, applied, hrecv, heq⟩
      · rw [heq]
        exact h.act side (h.receiver side) (Receiver.Grows.refl _) (h.pending side) (h.seq side) (hnone side)
      · obtain ⟨hsound, hgrows⟩ := Receiver.Grows.receive (h.receiver side) (hnear.inFlight hclock) hrecv
        obtain ⟨-, hq, hseq, hnext⟩ := Peer.receiver_processAcks (c.peer side) d now
        rw [heq]
        refine h.act side hsound hgrows ?_ ?_ (forall_mem_nil _)
        · exact hq ▸ h.pending side
        · exact hseq ▸ hnext ▸ h.seq side

end Call

/-! ## What is acknowledged -/

/-- It is for a header of the other side, whose writer had received the packet. -/
def Acknowledgement.Sound (ack : Acknowledgement) (sent : List Datagram) : Prop :=
  ack.datagram ∈ sent ∧ ack.seq = UInt32.ofInt ack.number ∧ ack.number ∈ ack.datagram.accepted

def Logged (log : List Acknowledgement) (number : Int) : Prop := ∃ ack ∈ log, ack.number = number

theorem Logged.mono {log log' : List Acknowledgement} (hsub : log ⊆ log') {number : Int} (h : Logged log number) :
    Logged log' number := by
  obtain ⟨ack, hm, hnum⟩ := h
  exact ⟨ack, hsub hm, hnum⟩

namespace Peer

/-- `sent` is all that the other side has sent. -/
structure AckInv (p : Peer) (sent : List Datagram) : Prop where
  last : p.lastRemoteAckSeq = UInt32.ofInt p.ackNumber ∧ 0 ≤ p.ackNumber
  recent : ∀ packet ∈ p.recentOutgoingPackets, packet.seq = UInt32.ofInt packet.number ∧
    (packet.ackTime ≠ 0 → Logged p.acknowledged packet.number)
  queued : ∀ qp ∈ p.queuedPackets, ∀ seq ∈ qp.seqs.toList, seq ≠ 0 → ∃ n ∈ qp.sentUnder, seq = UInt32.ofInt n
  acknowledged : ∀ ack ∈ p.acknowledged, ack.Sound sent
  removed : ∀ qp ∈ p.removed, ∃ n ∈ qp.sentUnder, Logged p.acknowledged n

variable {p : Peer} {sent : List Datagram}

theorem AckInv.mono {sent' : List Datagram} (h : p.AckInv sent) (hsub : sent ⊆ sent') : p.AckInv sent' :=
  ⟨h.last, h.recent, h.queued,
    fun ack hm => ⟨hsub (h.acknowledged ack hm).1, (h.acknowledged ack hm).2⟩, h.removed⟩

theorem AckInv.frame {p' : Peer} (h : p.AckInv sent) (hlast : p'.lastRemoteAckSeq = p.lastRemoteAckSeq)
    (hnum : p'.ackNumber = p.ackNumber) (hrecent : p'.recentOutgoingPackets = p.recentOutgoingPackets)
    (hqueued : p'.queuedPackets = p.queuedPackets) (hacked : p'.acknowledged = p.acknowledged)
    (hrem : p'.removed = p.removed) : p'.AckInv sent := by
  obtain ⟨hlast', hrecent', hqueued', hacknowledged', hremoved'⟩ := h
  constructor
  · rwa [hlast, hnum]
  · rwa [hrecent, hacked]
  · rwa [hqueued]
  · rwa [hacked]
  · rwa [hrem, hacked]

/-- Where the mask has the bit of the reader for a packet that it waits for, it has the bit of the writer too. -/
def NoGap (p : Peer) (header : PacketHeader) : Prop :=
  ∀ packet ∈ p.recentOutgoingPackets, packet.ackTime = 0 → ∀ i : Nat, i < 31 →
    packet.seq = header.ackId - UInt32.ofNat (i + 1) → ackBit header.acks i = true → ackBit header.acks (i + 1) = true

instance (p : Peer) (header : PacketHeader) : Decidable (p.NoGap header) := by
  unfold NoGap
  infer_instance

theorem isAckedBy_iff (header : PacketHeader) (i : Nat) (packet : RecentOutgoingPacket) :
    isAckedBy header i packet = true ↔
      packet.ackTime = 0 ∧ ackBit header.acks i = true ∧ packet.seq = header.ackId - ofNat (i + 1) := by
  simp only [isAckedBy, Bool.and_eq_true, beq_iff_eq, and_assoc]

variable {d : Datagram} {packet : RecentOutgoingPacket}

variable {r : Receiver} {i : Nat}

theorem AckInv.sound_of_isAckedBy (h : p.AckInv sent) (hd : d ∈ sent) (hsound : d.Sound r) (hnear : p.NumbersNear d)
    (hgap : p.NoGap d.header) (hi : i < 31) (hm : packet ∈ p.recentOutgoingPackets)
    (hacked : isAckedBy d.header i packet = true) : Acknowledgement.Sound ⟨packet.seq, packet.number, d⟩ sent := by
  obtain ⟨htime, hbit, hseq⟩ := (isAckedBy_iff d.header i packet).mp hacked
  have hnum : packet.number = d.ackNumber - (i + 1 : Nat) := by
    have hsame := (h.recent packet hm).1.symm.trans hseq
    rw [hsound.ackId, ← ofInt_natCast, ← ofInt_sub] at hsame
    refine (ofInt_inj_of_near ?_).mp hsame
    have := abs_lt.mp (hnear.recent packet hm)
    rw [abs_lt]
    omega
  refine ⟨hd, (h.recent packet hm).1, ?_⟩
  dsimp only
  rw [hnum]
  exact hsound.mask (i + 1) (by omega) (hgap packet hm htime i hi hseq hbit)

/-- After some rounds a packet is as it was, or has been marked. -/
def Marked (packets : List RecentOutgoingPacket) (log : List Acknowledgement) (packet : RecentOutgoingPacket) : Prop :=
  packet ∈ packets ∨ packet.ackTime ≠ 0 ∧ Logged log packet.number ∧
    ∃ packet' ∈ packets, packet'.seq = packet.seq ∧ packet'.number = packet.number

variable {packets : List RecentOutgoingPacket} {log : List Acknowledgement}

theorem Marked.mono {log' : List Acknowledgement} (hsub : log ⊆ log') (h : Marked packets log packet) :
    Marked packets log' packet :=
  h.imp_right fun ⟨htime, hlogged, hfrom⟩ => ⟨htime, hlogged.mono hsub, hfrom⟩

/-- What holds after some rounds of the loop over the mask. -/
structure RoundInv (packets : List RecentOutgoingPacket) (log : List Acknowledgement) (sent : List Datagram)
    (s : List RecentOutgoingPacket × List Acknowledgement) : Prop where
  marked : ∀ packet ∈ s.1, Marked packets s.2 packet
  subset : log ⊆ s.2
  sound : ∀ ack ∈ s.2, ack.Sound sent

variable {now : Int}

variable {s : List RecentOutgoingPacket × List Acknowledgement}

theorem RoundInv.ackRound (h : RoundInv packets log sent s) (hclock : 0 < now) (hsound : ∀ packet ∈ packets,
      isAckedBy d.header i packet = true →
      Acknowledgement.Sound ⟨packet.seq, packet.number, d⟩ sent) : RoundInv packets log sent (ackRound d now s i) := by
  have hgrows : s.2 ⊆ (Peer.ackRound d now s i).2 := List.subset_append_left _ _
  -- one that is marked now has not been marked before
  have hfirst : ∀ packet ∈ s.1, isAckedBy d.header i packet = true → packet ∈ packets := fun packet hm hacked =>
    (h.marked packet hm).resolve_right fun hmarked => hmarked.1 ((isAckedBy_iff _ _ _).mp hacked).1
  refine ⟨?_, List.Subset.trans h.subset hgrows, forall_mem_append.mpr ⟨h.sound, ?_⟩⟩
  · refine List.forall_mem_map.mpr fun packet hm => ?_
    by_cases hacked : isAckedBy d.header i packet = true
    · rw [if_pos hacked]
      refine .inr ⟨hclock.ne', ⟨⟨packet.seq, packet.number, d⟩, ?_, rfl⟩, packet, hfirst packet hm hacked, rfl, rfl⟩
      exact List.mem_append_right _ (List.mem_map_of_mem (mem_filter.mpr ⟨hm, hacked⟩))
    · rw [if_neg hacked]
      exact (h.marked packet hm).mono hgrows
  · refine List.forall_mem_map.mpr fun packet hm => ?_
    obtain ⟨hm, hacked⟩ := mem_filter.mp hm
    exact hsound packet (hfirst packet hm hacked) hacked

theorem RoundInv.foldl (h : RoundInv packets log sent s) (hclock : 0 < now) {rounds : List Nat}
    (hsound : ∀ i ∈ rounds, ∀ packet ∈ packets, isAckedBy d.header i packet = true →
      Acknowledgement.Sound ⟨packet.seq, packet.number, d⟩ sent) :
    RoundInv packets log sent (rounds.foldl (Peer.ackRound d now) s) := by
  induction rounds generalizing s with
  | nil => exact h
  | cons i rounds ih =>
    obtain ⟨hone, hrest⟩ := forall_mem_cons.mp hsound
    exact ih (h.ackRound hclock hone) hrest

theorem AckInv.of_marked (h : p.AckInv sent) (hsub : p.acknowledged ⊆ log)
    (hmarked : Marked p.recentOutgoingPackets log packet) :
    packet.seq = ofInt packet.number ∧ (packet.ackTime ≠ 0 → Logged log packet.number) ∧
      ∃ packet' ∈ p.recentOutgoingPackets, packet'.number = packet.number := by
  rcases hmarked with hm | ⟨-, hlogged, packet', hm, hseq, hnum⟩
  · obtain ⟨hseq, htime⟩ := h.recent packet hm
    exact ⟨hseq, fun hne => (htime hne).mono hsub, packet, hm, rfl⟩
  · refine ⟨?_, fun _ => hlogged, packet', hm, hnum⟩
    rw [← hseq, ← hnum]
    exact (h.recent packet' hm).1

variable {qp : QueuedPacket}

theorem AckInv.logged_of_isAcked (h : p.AckInv sent) (hnear : p.NumbersNear d) (hsub : p.acknowledged ⊆ log)
    (hmarked : ∀ packet ∈ packets, Marked p.recentOutgoingPackets log packet) {lastRemoteAckSeq : UInt32}
    (hm : qp ∈ p.queuedPackets) (hacked : qp.isAcked lastRemoteAckSeq packets = true) :
    ∃ n ∈ qp.sentUnder, Logged log n := by
  obtain ⟨seq, hseq, hacked⟩ := List.any_eq_true.mp hacked
  obtain ⟨opkt, hopkt, hacked⟩ := List.any_eq_true.mp (Bool.and_eq_true_iff.mp hacked).2
  obtain ⟨hsame, htime⟩ := Bool.and_eq_true_iff.mp hacked
  have hzero : seq ≠ 0 := by simpa using List.mem_takeWhile_imp hseq
  obtain ⟨n, hn, hnum⟩ := h.queued qp hm seq (List.takeWhile_subset _ hseq) hzero
  obtain ⟨hopktSeq, hlogged, packet, hpkt, hpacketNumber⟩ := h.of_marked hsub (hmarked opkt hopkt)
  have hn' : opkt.number = n := by
    refine (ofInt_inj_of_near ?_).mp (hopktSeq.symm.trans ((beq_iff_eq.mp hsame).trans hnum))
    rw [← hpacketNumber]
    exact (hnear.queued qp hm n hn packet hpkt).trans (by decide)
  exact ⟨n, hn, hn' ▸ hlogged (of_decide_eq_true htime).ne'⟩

theorem AckInv.processAcks (h : p.AckInv sent) (hd : d ∈ sent) (hsound : d.Sound r) (hnear : p.NumbersNear d)
    (hclock : 0 < now) (hgap : seqgt d.header.ackId p.lastRemoteAckSeq = true → p.NoGap d.header) :
    (p.processAcks d now).AckInv sent := by
  unfold Peer.processAcks
  by_cases hnew : seqgt d.header.ackId p.lastRemoteAckSeq = true
  case neg =>
    rw [if_neg hnew]
    exact h
  rw [if_pos hnew]
  have hahead : p.ackNumber < d.ackNumber := by
    rw [hsound.ackId, h.last.1] at hnew
    exact (seqgt_ofInt hnear.acknowledged).mp hnew
  have hpos : 0 < d.ackNumber := h.last.2.trans_lt hahead
  have hack : Acknowledgement.Sound ⟨d.header.ackId, d.ackNumber, d⟩ sent :=
    ⟨hd, hsound.ackId, hsound.acked.resolve_left hpos.ne'⟩
  have hstart : RoundInv p.recentOutgoingPackets p.acknowledged sent
      (p.recentOutgoingPackets, p.acknowledged ++ [⟨d.header.ackId, d.ackNumber, d⟩]) :=
    ⟨fun packet hm => .inl hm, List.subset_append_left _ _,
      forall_mem_append.mpr ⟨h.acknowledged, List.forall_mem_singleton.mpr hack⟩⟩
  have hrounds := hstart.foldl hclock fun i (hi : i ∈ List.range 31) packet hm hacked =>
    h.sound_of_isAckedBy hd hsound hnear (hgap hnew) (List.mem_range.mp hi) hm hacked
  dsimp only
  generalize (List.range 31).foldl (Peer.ackRound d now) _ = acked at hrounds ⊢
  refine ⟨⟨hsound.ackId, hpos.le⟩, fun packet hm => ?_, fun qp hm => ?_, hrounds.sound, ?_⟩
  · obtain ⟨hseq, hlogged, -⟩ := h.of_marked hrounds.subset (hrounds.marked packet hm)
    exact ⟨hseq, hlogged⟩
  · exact h.queued qp (List.mem_of_mem_filter hm)
  · refine forall_mem_append.mpr ⟨fun qp hm => ?_, fun qp hm => ?_⟩
    · obtain ⟨n, hn, hlogged⟩ := h.removed qp hm
      exact ⟨n, hn, hlogged.mono hrounds.subset⟩
    · obtain ⟨hqueued, hacked⟩ := mem_filter.mp hm
      exact h.logged_of_isAcked hnear hrounds.subset hrounds.marked hqueued hacked

theorem AckInv.writeHeader (h : p.AckInv sent) {pending : PendingOutgoingPacket} (hpend : pending.Sound) :
    (p.writeHeader pending).AckInv sent := by
  have hrecent : ∀ packet ∈ (p.recentOutgoingPackets ++ [⟨pending.seq, 0, pending.number⟩]),
      packet.seq = ofInt packet.number ∧ (packet.ackTime ≠ 0 → Logged p.acknowledged packet.number) :=
    forall_mem_append.mpr ⟨h.recent, List.forall_mem_singleton.mpr ⟨hpend.seq, fun hne => absurd rfl hne⟩⟩
  unfold Peer.writeHeader
  dsimp only
  split
  all_goals
    exact ⟨h.last, fun packet hm => hrecent packet (List.mem_of_mem_drop hm), h.queued, h.acknowledged, h.removed⟩

theorem mem_seqs_resent {seq seq' : UInt32} {number : Int} (h : seq' ∈ (qp.resent seq number now).seqs.toList) :
    seq' = seq ∨ seq' ∈ qp.seqs.toList := by
  obtain ⟨j, hj, rfl⟩ := Vector.mem_iff_getElem.mp (mem_toList_iff.mp h)
  have hold : ∀ (k : Nat) (hk : k < 16), qp.seqs[k] ∈ qp.seqs.toList := fun k hk =>
    mem_toList_iff.mpr (Vector.getElem_mem hk)
  unfold QueuedPacket.resent
  dsimp only
  rw [Vector.getElem_ofFn]
  dsimp only
  split
  · exact .inl rfl
  · split
    · exact .inr (hold (j - 1) (by omega))
    · exact .inr (hold j hj)

theorem AckInv.tick (h : p.AckInv sent) (hseq : p.seq = ofInt p.nextNumber ∧ 0 < p.nextNumber) (now : Int)
    (buffers : Nat) : (p.tick now buffers).AckInv sent := by
  obtain ⟨-, hkept⟩ := resendQueued_spec now p.queuedPackets buffers hseq.1 hseq.2
  refine ⟨h.last, h.recent, fun qp' hm seq hseq' hzero => ?_, h.acknowledged, h.removed⟩
  obtain ⟨qp, hqp, rfl | ⟨n, rfl⟩⟩ := hkept qp' hm
  · exact h.queued qp' hqp seq hseq' hzero
  · rcases mem_seqs_resent hseq' with rfl | hold
    · exact ⟨n, mem_cons_self, rfl⟩
    · obtain ⟨n', hn', hnum⟩ := h.queued qp hqp seq hold hzero
      exact ⟨n', List.mem_cons_of_mem n hn', hnum⟩

theorem AckInv.sendPacketReliably (h : p.AckInv sent) (type : UInt8) (data : Bytes) (retryInterval timeout : Int) :
    (p.sendPacketReliably type data retryInterval timeout).AckInv sent := by
  refine ⟨h.last, h.recent, forall_mem_append.mpr ⟨h.queued, List.forall_mem_singleton.mpr ?_⟩, h.acknowledged,
    h.removed⟩
  intro seq hseq hzero
  have hm : seq ∈ replicate 16 (0 : UInt32) := mem_toList_iff.mp hseq
  exact absurd (Vector.mem_replicate.mp hm).2 hzero

theorem ackInv_init (callID : Vector UInt8 16) : (init callID).AckInv [] where
  last := ⟨rfl, le_refl 0⟩
  recent := forall_mem_nil _
  queued := forall_mem_nil _
  acknowledged := forall_mem_nil _
  removed := forall_mem_nil _

end Peer

variable (side : Side)

theorem Side.other_ne : side.other ≠ side := by cases side <;> decide

theorem Side.other_other : side.other.other = side := by cases side <;> rfl

theorem Side.eq_other_of_ne {side side' : Side} (h : side' ≠ side) : side'.other = side := by
  cases side <;> cases side' <;> first | rfl | exact absurd rfl h

namespace Call

/-- A header that is processed and acknowledges something new has no gap in its mask. -/
def NoGap (c : Call) : CallEvent → Prop
  | .deliver side index now => ∀ d, (c.sent side.other)[index]? = some d →
      ((c.peer side).receiver.receive ⟨d.number, now⟩).isSome = true →
      seqgt d.header.ackId (c.peer side).lastRemoteAckSeq = true → (c.peer side).NoGap d.header
  | _ => True

instance (c : Call) : (event : CallEvent) → Decidable (c.NoGap event)
  | .deliver side index _ => Option.decidableForallMem (c.sent side.other)[index]?
  | .put .. | .sendPacketReliably .. | .sendExtra .. | .tick .. | .send .. | .drop .. | .setState .. => isTrue trivial

def AckInv (c : Call) : Prop := ∀ side, (c.peer side).AckInv (c.sent side.other)

variable {c : Call}

theorem AckInv.act (h : c.AckInv) (side : Side) {p : Peer} {out : List Datagram} (hp : p.AckInv (c.sent side.other)) :
    (c.act side p out).AckInv := by
  intro side'
  by_cases hside : side' = side
  · subst hside
    rw [peer_act_self, sent_act_of_ne c side'.other_ne]
    exact hp
  · rw [peer_act_of_ne c hside, Side.eq_other_of_ne hside, sent_act_self]
    exact ((Side.eq_other_of_ne hside) ▸ h side').mono (List.subset_append_left _ _)

variable (sha1 : Bytes → Bytes)

theorem AckInv.step (h : c.AckInv) (hc : c.Sound) {event : CallEvent} (hflight : c.InFlight event)
    (hgap : c.NoGap event) : (stepCall sha1 c event).AckInv := by
  cases event with
  | put side type data copies | sendExtra side data type | drop side index | setState side state peerVersion =>
    exact h.act side ((h side).frame rfl rfl rfl rfl rfl rfl)
  | sendPacketReliably side type data retryInterval timeout =>
    exact h.act side ((h side).sendPacketReliably type data retryInterval timeout)
  | tick side now buffers => exact h.act side ((h side).tick (hc.seq side) now buffers)
  | send side index =>
    rw [stepCall]
    cases hpend : (c.peer side).sendQueue[index]? with
    | none => exact h
    | some pending =>
      have hsound := hc.pending side pending (List.mem_of_getElem? hpend)
      dsimp only
      split
      · exact h.act side (((h side).writeHeader hsound).frame rfl rfl rfl rfl rfl rfl)
      · exact h
  | deliver side index now =>
    rw [stepCall]
    cases hdatagram : (c.sent side.other)[index]? with
    | none => exact h
    | some d =>
      obtain ⟨hclock, hnear⟩ := hflight d hdatagram
      dsimp only
      rcases Peer.processHeader_cases sha1 (c.peer side) d now with
        ⟨-, heq⟩ | ⟨receiver, hashes, applied, hrecv, heq⟩
      · rw [heq]
        exact h.act side (h side)
      · have hd := List.mem_of_getElem? hdatagram
        have hacks := (h side).processAcks hd (hc.datagram side.other d hd) hnear hclock
          (hgap d hdatagram (Option.isSome_of_eq_some hrecv))
        rw [heq]
        exact h.act side (hacks.frame rfl rfl rfl rfl rfl rfl)

/-- What a side has acknowledged was received by the other side, when it wrote the header. -/
structure AcksMeanReceipt (c : Call) (side : Side) : Prop where
  acknowledged : ∀ ack ∈ (c.peer side).acknowledged, ack.datagram ∈ c.sent side.other ∧
    ack.seq = UInt32.ofInt ack.number ∧ ack.number ∈ ack.datagram.accepted
  recent : ∀ packet ∈ (c.peer side).recentOutgoingPackets, packet.ackTime ≠ 0 →
    ∃ ack ∈ (c.peer side).acknowledged, ack.seq = packet.seq ∧ ack.number = packet.number
  removed : ∀ qp ∈ (c.peer side).removed, ∃ n ∈ qp.sentUnder, n ∈ (c.peer side.other).receiver.accepted

theorem AckInv.acksMeanReceipt (h : c.AckInv) (hc : c.Sound) (side : Side) : c.AcksMeanReceipt side where
  acknowledged := (h side).acknowledged
  recent := by
    intro packet hm htime
    obtain ⟨hseq, hlogged⟩ := (h side).recent packet hm
    obtain ⟨ack, hack, hnum⟩ := hlogged htime
    refine ⟨ack, hack, ?_, hnum⟩
    rw [((h side).acknowledged ack hack).2.1, hnum, hseq]
  removed := by
    intro qp hm
    obtain ⟨n, hn, ack, hack, hnum⟩ := (h side).removed qp hm
    obtain ⟨hdatagram, -, haccepted⟩ := (h side).acknowledged ack hack
    exact ⟨n, hn, (hc.datagram side.other ack.datagram hdatagram).subset (hnum ▸ haccepted)⟩

/-- In the runs in which no mask has a gap where it matters, what is acknowledged was received. -/
theorem acks_mean_receipt (callID : Vector UInt8 16) (events : List CallEvent)
    (h : AllSteps (stepCall sha1) (fun c event => c.InFlight event ∧ c.NoGap event) (init callID) events)
    (side : Side) : (runCall sha1 callID events).AcksMeanReceipt side := by
  have hstep : ∀ (c : Call) event, c.Sound ∧ c.AckInv → c.InFlight event ∧ c.NoGap event →
      (stepCall sha1 c event).Sound ∧ (stepCall sha1 c event).AckInv := by
    intro c event ⟨hsound, hinv⟩ ⟨hflight, hgap⟩
    exact ⟨hsound.step sha1 hflight, hinv.step sha1 hsound hflight hgap⟩
  obtain ⟨hsound, hinv⟩ := h.invariant hstep ⟨sound_init callID, fun _ => Peer.ackInv_init callID⟩
  exact hinv.acksMeanReceipt hsound side

/-- Packet 2 is sent until it is acknowledged. The callee receives the packets `received` and answers. -/
def reliableCall (received : List Nat) : List CallEvent :=
  [.put .caller 4 [] 1, .sendPacketReliably .caller 10 [5] 100 0, .tick .caller 100 1, .put .caller 4 [] 1,
    .send .caller 0, .send .caller 0, .send .caller 0] ++
  received.map (fun number => .deliver .callee (number - 1) 101) ++
  [.put .callee 4 [] 1, .send .callee 0, .deliver .caller 0 102]

/-- All three packets arrive, not in order. -/
theorem acks_mean_receipt_reordered :
    (runCall (fun _ => []) (replicate 16 7) (reliableCall [2, 1, 3])).AcksMeanReceipt .caller ∧
      ((runCall (fun _ => []) (replicate 16 7) (reliableCall [2, 1, 3])).peer .caller).removed.map
        QueuedPacket.sentUnder = [[2]] :=
  ⟨acks_mean_receipt _ _ _ (by decide +kernel) _, by decide +kernel⟩

/-- Packet 2 is lost, and is removed because the bit of packet 3 is taken for it. -/
theorem lost_packet_removed :
    AllSteps (stepCall fun _ => []) InFlight (init (replicate 16 7)) (reliableCall [1, 3]) ∧
      ((runCall (fun _ => []) (replicate 16 7) (reliableCall [1, 3])).peer .caller).removed.map
        QueuedPacket.sentUnder = [[2]] ∧
      ((runCall (fun _ => []) (replicate 16 7) (reliableCall [1, 3])).peer .callee).receiver.accepted = [3, 1] ∧
      ¬(runCall (fun _ => []) (replicate 16 7) (reliableCall [1, 3])).AcksMeanReceipt .caller := by
  refine ⟨by decide +kernel, by decide +kernel, by decide +kernel, fun h => ?_⟩
  have hremoved : ∃ qp ∈ ((runCall (fun _ => []) (replicate 16 7) (reliableCall [1, 3])).peer .caller).removed,
      ¬∃ n ∈ qp.sentUnder,
        n ∈ ((runCall (fun _ => []) (replicate 16 7) (reliableCall [1, 3])).peer .callee).receiver.accepted := by
    decide +kernel
  obtain ⟨qp, hmem, hnot⟩ := hremoved
  exact hnot (h.removed qp hmem)

end Call

end TelegramClient.VoIP
