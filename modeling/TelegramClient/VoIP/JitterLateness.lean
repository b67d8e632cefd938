import TelegramClient.VoIP.JitterSteps

/-!
# Late packets

`PutInternal` first asks whether a packet is late, and in that case takes it. It then asks whether the packet is too late,
which a packet that is not late never is: what should be dropped is stored.

* `ReturnsEarly`, `callTime` : when nothing is compared, and the time that a packet is compared with;
* `lateKeptOut_iff` : of one call;
* **`late_kept_out_iff`** : of all calls of a run.
-/

namespace TelegramClient.VoIP
open Function (update_of_ne update_self)

namespace JitterBuffer

/-- The packet is too large, or its timestamp has a slot. -/
def ReturnsEarly (b : JitterBuffer) (pkt : JitterPacket) : Prop :=
  jitterSlotSize < pkt.data.length ∨ b.table.find pkt.timestamp.toNat ≠ none

instance (b : JitterBuffer) (pkt : JitterPacket) : Decidable (b.ReturnsEarly pkt) :=
  inferInstanceAs (Decidable (_ ∨ _))

/-- `nextTimestamp` during the call, before a frame leaves for the packet. -/
def callTime (b : JitterBuffer) (pkt : JitterPacket) : Int :=
  if b.ReturnsEarly pkt then b.nextTimestamp else b.putTime pkt

def TooLate (b : JitterBuffer) (pkt : JitterPacket) : Prop := (pkt.timestamp.toNat : Int) < b.callTime pkt - 1

/-- **What should hold of a call.** -/
structure LateKeptOut (b : JitterBuffer) (pkt : JitterPacket) (b' : JitterBuffer) : Prop where
  recent : ∀ i a, b'.table.slots i = some a → b.callTime pkt - 1 ≤ a.timestamp.toNat
  counted : b.TooLate pkt → b'.latePacketCount = b.latePacketCount + 1
  notStored : b.TooLate pkt → ∀ i a, b'.table.slots i = some a → b.table.slots i = some a
  noneLeaves : b.TooLate pkt → ∀ i a, b.table.slots i = some a → b.callTime pkt - 1 ≤ a.timestamp.toNat →
    b'.table.slots i = some a
  notAdvanced : b.TooLate pkt → b'.nextTimestamp = b.callTime pkt

/-- The packet is not too late, and where the call does not get to its pass over the slots, no frame is. -/
def Timely (b : JitterBuffer) (pkt : JitterPacket) : Prop :=
  ¬b.TooLate pkt ∧ (b.ReturnsEarly pkt → ∀ i a, b.table.slots i = some a → b.nextTimestamp - 1 ≤ a.timestamp.toNat)

variable {b b' : JitterBuffer} {pkt : JitterPacket}

variable {t : SlotTable} {i j : Fin jitterSlotCount} {a : JitterSlot}

theorem timestamp_overwrite (ha : t.slots j = some a) :
    ∃ a', (t.overwrite i pkt).slots j = some a' ∧ a'.timestamp = a.timestamp := by
  unfold SlotTable.overwrite
  by_cases hji : j = i
  · subst hji
    exact ⟨{ a with data := pkt.data, isEC := pkt.isEC }, (update_self _ _ _).trans (by rw [ha, Option.map_some]),
      rfl⟩
  · exact ⟨a, (update_of_ne hji _ _).trans ha, rfl⟩

theorem exists_of_overwrite (ha : (t.overwrite i pkt).slots j = some a) :
    ∃ a', t.slots j = some a' ∧ a'.timestamp = a.timestamp := by
  unfold SlotTable.overwrite at ha
  by_cases hji : j = i
  · subst hji
    obtain ⟨a', ha', rfl⟩ := Option.map_eq_some_iff.mp ((update_self j _ _).symm.trans ha)
    exact ⟨a', ha', rfl⟩
  · exact ⟨a, (update_of_ne hji _ _).symm.trans ha, rfl⟩

section
variable (h : b.handleInput pkt = .ok b')
include h

theorem kept_of_returnsEarly (hearly : b.ReturnsEarly pkt) : b'.latePacketCount = b.latePacketCount ∧
      (∀ j a, b.table.slots j = some a → ∃ a', b'.table.slots j = some a' ∧ a'.timestamp = a.timestamp) ∧
      ∀ j a, b'.table.slots j = some a → ∃ a', b.table.slots j = some a' ∧ a'.timestamp = a.timestamp := by
  rcases handleInput_cases h with ⟨-, rfl⟩ | ⟨-, i, -, rfl⟩ | ⟨hfits, hnew, -⟩
  · exact ⟨rfl, fun j a ha => ⟨a, ha, rfl⟩, fun j a ha => ⟨a, ha, rfl⟩⟩
  · split
    · exact ⟨rfl, fun j a ha => timestamp_overwrite ha, fun j a ha => exists_of_overwrite ha⟩
    · exact ⟨rfl, fun j a ha => ⟨a, ha, rfl⟩, fun j a ha => ⟨a, ha, rfl⟩⟩
  · rcases hearly with hlarge | hfound
    · exact absurd hlarge (Nat.not_lt.mpr hfits)
    · exact absurd hnew hfound

theorem inserted_of_not_returnsEarly (hearly : ¬b.ReturnsEarly pkt) : b.Inserted pkt b' := by
  rw [ReturnsEarly, not_or, ne_eq, not_not] at hearly
  rcases handleInput_cases h with ⟨hlarge, -⟩ | ⟨-, i, hfind, -⟩ | ⟨-, -, hins⟩
  · exact absurd hlarge hearly.1
  · rw [hearly.2] at hfind
    cases hfind
  · exact hins

/-- **One call.** -/
theorem lateKeptOut_iff : b.LateKeptOut pkt b' ↔ b.Timely pkt := by
  by_cases hearly : b.ReturnsEarly pkt
  · have htime : b.callTime pkt = b.nextTimestamp := if_pos hearly
    obtain ⟨hcnt, hkept, hold⟩ := kept_of_returnsEarly h hearly
    constructor
    · intro hout
      refine ⟨fun hlate => ?_, fun _ i a ha => ?_⟩
      · have hcounted := hout.counted hlate
        omega
      · obtain ⟨a', ha', hsame⟩ := hkept i a ha
        rw [← htime, ← hsame]
        exact hout.recent i a' ha'
    · rintro ⟨hnot, hrecent⟩
      refine ⟨fun i a ha => ?_, (absurd · hnot), (absurd · hnot), (absurd · hnot), (absurd · hnot)⟩
      obtain ⟨a', ha', hsame⟩ := hold i a ha
      rw [htime, ← hsame]
      exact hrecent hearly i a' ha'
  · have htime : b.callTime pkt = b.putTime pkt := if_neg hearly
    obtain ⟨i, buffer, hslots⟩ := (inserted_of_not_returnsEarly h hearly).slots
    constructor
    · intro hout
      refine ⟨fun hlate => ?_, fun hearly' => absurd hearly' hearly⟩
      have hrecent := hout.recent i { pkt with buffer := buffer } (by rw [hslots, update_self])
      exact absurd hlate (not_lt.mpr hrecent)
    · rintro ⟨hnot, -⟩
      refine ⟨fun j a ha => ?_, (absurd · hnot), (absurd · hnot), (absurd · hnot), (absurd · hnot)⟩
      rw [hslots] at ha
      by_cases hji : j = i
      · subst hji
        rw [update_self] at ha
        obtain rfl := Option.some.inj ha
        exact not_lt.mp hnot
      · rw [update_of_ne hji] at ha
        have hkept := (Option.filter_eq_some_iff.mp ha).2
        rw [htime]
        exact of_decide_eq_true hkept

end

end JitterBuffer

/-- **Late packets.** In a run of calls no packet that is too late gets into the buffer, or changes what is there, exactly
if there is none: every packet is one step behind the time at most, and where a packet is too large or has a slot
already no frame is further behind either. -/
theorem late_kept_out_iff (config : JitterConfig) (nextTimestamp : Int) (latePacketCount : Nat)
    (events : List JitterEvent) :
    AllOk stepJitter (fun b event b' => ∀ pkt, event = .handleInput pkt → b.LateKeptOut pkt b')
        (JitterBuffer.init config nextTimestamp latePacketCount) events ↔
      AllOk stepJitter (fun b event _ => ∀ pkt, event = .handleInput pkt → b.Timely pkt)
        (JitterBuffer.init config nextTimestamp latePacketCount) events := by
  refine allOk_congr fun b event b' hstep => forall₂_congr fun pkt hevent => ?_
  subst hevent
  exact JitterBuffer.lateKeptOut_iff hstep

/-- The first packet sets the time to 640. The second one is 540 behind that, and is stored. -/
theorem late_packet_stored :
    ¬AllOk stepJitter (fun b event b' => ∀ pkt, event = .handleInput pkt → b.LateKeptOut pkt b')
      (JitterBuffer.init (defaultConfig 60) 0 0) [.handleInput ⟨[1], 1000, false⟩, .handleInput ⟨[2], 100, false⟩] := by
  intro h
  obtain ⟨b₁, h₁, htime, hreset, hfind⟩ : ∃ b₁, stepJitter (.init (defaultConfig 60) 0 0) (.handleInput ⟨[1], 1000, false⟩) =
      .ok b₁ ∧ b₁.nextTimestamp = 640 ∧ b₁.wasReset = false ∧ b₁.table.find 100 = none := ⟨_, rfl, rfl, rfl, rfl⟩
  obtain ⟨b₂, h₂⟩ : ∃ b₂, stepJitter b₁ (.handleInput ⟨[2], 100, false⟩) = .ok b₂ := by
    have hsound : b₁.Sound (defaultConfig 60) := by
      obtain ⟨b, hb, hsound⟩ := (JitterBuffer.sound_init (defaultConfig 60) 0 0).step
        (one_le_maxUsedSlots_defaultConfig 60) (show JitterEvent.Valid (.handleInput ⟨[1], 1000, false⟩) by decide)
      rwa [Except.ok.inj (h₁.symm.trans hb)]
    obtain ⟨b₂, h₂, -⟩ := hsound.step (one_le_maxUsedSlots_defaultConfig 60)
      (show JitterEvent.Valid (.handleInput ⟨[2], 100, false⟩) by decide)
    exact ⟨b₂, h₂⟩
  have hlate := ((h b₁ h₁).2 b₂ h₂).1 _ rfl
  have hearly : ¬b₁.ReturnsEarly ⟨[2], 100, false⟩ := by
    rintro (hlarge | hfound)
    · exact absurd hlarge (by decide)
    · exact hfound hfind
  refine ((JitterBuffer.lateKeptOut_iff h₂).mp hlate).1 ?_
  unfold JitterBuffer.TooLate JitterBuffer.callTime JitterBuffer.putTime JitterBuffer.resync
  rw [if_neg hearly]
  dsimp only
  rw [if_neg (by simp [hreset])]
  dsimp only
  rw [htime]
  decide

end TelegramClient.VoIP
