import TelegramClient.VoIP.JitterSteps

/-!
# What is played

The calls of a jitter buffer are observed: which packets were put for a timestamp since its slot was created, which were
handed out, and what was played last. A packet that does not fit into the caller's buffer is taken for one that was
written.

* `Playback`, `stepPlayback` : a buffer that is observed, and `Playback.buffer_step`: it does what the buffer does;
* `Playback.Inv.step` : what holds between the calls;
* **`playback_faithful_iff`** : everything that is played is what was put, once and in order, exactly if there is room.
-/

namespace TelegramClient.VoIP
open Function (update update_apply update_of_ne update_self)

structure Playback where
  buffer : JitterBuffer
  /-- The packets for a timestamp since its slot was created, the newest first. -/
  puts : UInt32 → List JitterPacket
  /-- The packet of the slot was handed out. -/
  handedOut : UInt32 → Bool
  /-- What was handed out last without an offset, since the time was set. -/
  lastPlayed : Option UInt32

namespace Playback

def init (config : JitterConfig) (nextTimestamp : Int) (latePacketCount : Nat) : Playback :=
  ⟨.init config nextTimestamp latePacketCount, fun _ => [], fun _ => false, none⟩

def afterInput (p : Playback) (pkt : JitterPacket) (buffer : JitterBuffer) : Playback :=
  if jitterSlotSize < pkt.data.length then { p with buffer := buffer }
  else if (p.buffer.table.find pkt.timestamp.toNat).isSome then
    { p with buffer := buffer, puts := Function.update p.puts pkt.timestamp (pkt :: p.puts pkt.timestamp) }
  else
    { buffer := buffer
      puts := Function.update p.puts pkt.timestamp [pkt]
      handedOut := Function.update p.handedOut pkt.timestamp false
      lastPlayed := if p.buffer.wasReset then none else p.lastPlayed }

def afterOutput (p : Playback) (offset : Int) (output : JitterOutput) (buffer : JitterBuffer) : Playback :=
  match output.data with
  | none => { p with buffer := buffer }
  | some pkt =>
    { p with
      buffer := buffer
      handedOut := Function.update p.handedOut pkt.timestamp true
      lastPlayed := if offset = 0 then some pkt.timestamp else p.lastPlayed }

end Playback

def stepPlayback (p : Playback) : JitterEvent → Except JitterFault Playback
  | .handleInput pkt => p.afterInput pkt <$> p.buffer.handleInput pkt
  | .handleOutput len offsetInSteps advance =>
    (fun r => p.afterOutput offsetInSteps r.1 r.2) <$> p.buffer.handleOutput len offsetInSteps advance
  | event => (fun buffer => { p with buffer := buffer }) <$> stepJitter p.buffer event

/-- The last packet that is not for error correction, or else the first one. -/
def storedOf (puts : List JitterPacket) : Option JitterPacket := (puts.find? fun pkt => !pkt.isEC).or puts.getLast?

/-- **What should hold of what `HandleOutput` hands out.** -/
structure PlaysBack (p : Playback) (offset : Int) (output : JitterOutput) : Prop where
  written : 0 < output.size → ∃ pkt, output.data = some pkt ∧ output.size = pkt.data.length ∧
    (pkt.timestamp.toNat : Int) = p.buffer.nextTimestamp + offset * p.buffer.config.step ∧
    storedOf (p.puts pkt.timestamp) = some pkt
  once : ∀ pkt, output.data = some pkt → p.handedOut pkt.timestamp = false
  increasing : offset = 0 → ∀ pkt, output.data = some pkt → ∀ timestamp ∈ p.lastPlayed, timestamp < pkt.timestamp

def JitterEvent.PlaysBack (p : Playback) : JitterEvent → Prop
  | .handleOutput len offsetInSteps advance => ∀ output buffer,
      p.buffer.handleOutput len offsetInSteps advance = .ok (output, buffer) → VoIP.PlaysBack p offsetInSteps output
  | _ => True

/-- The caller has room for the packet, and where a step takes no time it is not one for the time that was played last.
-/
def JitterEvent.Fits (p : Playback) : JitterEvent → Prop
  | .handleOutput len offsetInSteps _ => ∀ i, ∀ slot ∈ p.buffer.table.slots i,
      (slot.timestamp.toNat : Int) = p.buffer.nextTimestamp + offsetInSteps * p.buffer.config.step →
        (len = 0 ∨ slot.data.length ≤ len) ∧
          (p.buffer.config.step = 0 ∧ offsetInSteps = 0 ∧ slot.data.length ≤ len → p.lastPlayed ≠ some slot.timestamp)
  | _ => True

namespace Playback

/-! ## The observer -/

variable {p p' : Playback}

@[simp] theorem buffer_afterInput (pkt : JitterPacket) (buffer : JitterBuffer) :
    (p.afterInput pkt buffer).buffer = buffer := by
  unfold afterInput
  split_ifs <;> rfl

@[simp] theorem buffer_afterOutput (offset : Int) (output : JitterOutput) (buffer : JitterBuffer) :
    (p.afterOutput offset output buffer).buffer = buffer := by
  unfold afterOutput
  split <;> rfl

theorem buffer_step (p : Playback) (event : JitterEvent) : buffer <$> stepPlayback p event = stepJitter p.buffer event := by
  cases event with
  | handleInput pkt =>
    show buffer <$> (p.afterInput pkt <$> p.buffer.handleInput pkt) = p.buffer.handleInput pkt
    cases p.buffer.handleInput pkt with
    | error fault => rfl
    | ok b => exact congrArg Except.ok (buffer_afterInput pkt b)
  | handleOutput len offset advance =>
    show buffer <$> ((fun r => p.afterOutput offset r.1 r.2) <$> p.buffer.handleOutput len offset advance) =
      (·.2) <$> p.buffer.handleOutput len offset advance
    cases p.buffer.handleOutput len offset advance with
    | error fault => rfl
    | ok r => exact congrArg Except.ok (buffer_afterOutput offset r.1 r.2)
  | reset =>
    show buffer <$> ((fun b => { p with buffer := b }) <$> p.buffer.reset) = p.buffer.reset
    cases p.buffer.reset <;> rfl
  | tick stddevDelay | setMinPacketCount count => rfl

/-! ## What holds between the calls -/

/-- The timestamp is before the next one, or it is the next one and a step takes no time. -/
def Before (b : JitterBuffer) (timestamp : UInt32) : Prop :=
  (timestamp.toNat : Int) < b.nextTimestamp ∨ (timestamp.toNat : Int) = b.nextTimestamp ∧ b.config.step = 0

structure Inv (p : Playback) : Prop where
  stored : ∀ i slot, p.buffer.table.slots i = some slot →
    storedOf (p.puts slot.timestamp) = some slot.toJitterPacket ∧ p.handedOut slot.timestamp = false
  distinct : ∀ i j a b, p.buffer.table.slots i = some a → p.buffer.table.slots j = some b → a.timestamp = b.timestamp →
    i = j
  played : (∀ timestamp ∈ p.lastPlayed, Before p.buffer timestamp) ∨
    (∀ j, p.buffer.table.slots j = none) ∧ p.buffer.wasReset = true

theorem inv_init (config : JitterConfig) (nextTimestamp : Int) (latePacketCount : Nat) :
    (init config nextTimestamp latePacketCount).Inv where
  stored := fun _ _ h => nomatch h
  distinct := fun _ _ _ _ h => nomatch h
  played := .inl fun _ h => nomatch h

variable {pkt : JitterPacket}

theorem storedOf_cons (puts : List JitterPacket) (hec : pkt.isEC = false) : storedOf (pkt :: puts) = some pkt := by
  rw [storedOf, List.find?_cons_of_pos (by simp [hec]), Option.some_or]

theorem storedOf_cons_of_isEC {puts : List JitterPacket} (hec : pkt.isEC = true) (hputs : storedOf puts ≠ none) :
    storedOf (pkt :: puts) = storedOf puts := by
  cases puts with
  | nil => exact absurd rfl hputs
  | cons last puts =>
    rw [storedOf, List.find?_cons_of_neg (by simp [hec]), List.getLast?_cons_cons]
    rfl

theorem storedOf_singleton (pkt : JitterPacket) : storedOf [pkt] = some pkt := by
  cases hec : pkt.isEC with
  | false => exact storedOf_cons [] hec
  | true => rw [storedOf, List.find?_cons_of_neg (by simp [hec])]; rfl

variable {b : JitterBuffer}

theorem before_mono {b' : JitterBuffer} (hcfg : b'.config = b.config) (htime : b.nextTimestamp ≤ b'.nextTimestamp)
    {timestamp : UInt32} (h : Before b timestamp) : Before b' timestamp := by
  unfold Before at h ⊢
  rw [hcfg]
  omega

theorem Inv.withBuffer (h : p.Inv) (hcfg : b.config = p.buffer.config)
    (hkept : b.table.slots = p.buffer.table.slots ∧ p.buffer.nextTimestamp ≤ b.nextTimestamp ∧
        (p.buffer.wasReset = true → b.wasReset = true) ∨ (∀ j, b.table.slots j = none) ∧ b.wasReset = true) :
    Inv { p with buffer := b } := by
  rcases hkept with ⟨hslots, htime, hreset⟩ | ⟨hempty, hreset⟩
  · refine ⟨fun i slot hslot => h.stored i slot (hslots ▸ hslot), fun i j a b ha hb hsame => ?_, ?_⟩
    · exact h.distinct i j a b (hslots ▸ ha) (hslots ▸ hb) hsame
    · rcases h.played with hplayed | ⟨hnone, hwas⟩
      · exact .inl fun timestamp hlast => before_mono hcfg htime (hplayed timestamp hlast)
      · exact .inr ⟨fun j => (congrFun hslots j).trans (hnone j), hreset hwas⟩
  · refine ⟨fun i slot hslot => ?_, fun i j a _ ha => ?_, .inr ⟨hempty, hreset⟩⟩
    · cases (hempty i).symm.trans hslot
    · cases (hempty i).symm.trans ha

variable {len : Nat} {offset : Int} {advance : Bool} {output : JitterOutput}

theorem Inv.afterOutput (h : p.Inv) (hout : p.buffer.handleOutput len offset advance = .ok (output, b)) :
    (p.afterOutput offset output b).Inv := by
  unfold Playback.afterOutput
  rcases JitterBuffer.handleOutput_cases hout with ⟨i, slot, hfound⟩ | hmissed
  · have hslots (j : Fin jitterSlotCount) : b.table.slots j = if j = i then none else p.buffer.table.slots j := by
      rw [hfound.slots, update_apply]
    have hheld {j : Fin jitterSlotCount} {a : JitterSlot} (ha : b.table.slots j = some a) :
        j ≠ i ∧ p.buffer.table.slots j = some a := by
      rw [hslots] at ha
      split at ha
      · cases ha
      · exact ⟨‹_›, ha⟩
    have hnext : p.buffer.nextTimestamp ≤ b.nextTimestamp := by
      rw [hfound.nextTimestamp]
      split <;> omega
    have hplayed : ∀ timestamp ∈ p.lastPlayed, Before b timestamp := by
      rcases h.played with hplayed | ⟨hnone, -⟩
      · exact fun timestamp hlast => before_mono hfound.config_eq hnext (hplayed timestamp hlast)
      · cases (hnone i).symm.trans hfound.slot_eq
    have hdist : ∀ j k a a', b.table.slots j = some a → b.table.slots k = some a' → a.timestamp = a'.timestamp →
        j = k := fun j k a a' ha ha' => h.distinct j k a a' (hheld ha).2 (hheld ha').2
    rw [hfound.data]
    by_cases hlong : len < slot.data.length
    · rw [if_pos hlong]
      exact ⟨fun j a ha => h.stored j a (hheld ha).2, hdist, .inl hplayed⟩
    · rw [if_neg hlong]
      refine ⟨fun j a ha => ?_, hdist, .inl ?_⟩
      · obtain ⟨hji, ha⟩ := hheld ha
        have hother : a.timestamp ≠ slot.timestamp := fun hsame => hji (h.distinct j i a slot ha hfound.slot_eq hsame)
        exact ⟨(h.stored j a ha).1, (update_of_ne hother _ _).trans (h.stored j a ha).2⟩
      · dsimp only
        split
        case isTrue hoff =>
          intro timestamp hlast
          obtain rfl := Option.some.inj hlast
          have hts := hfound.timestamp
          have htime := hfound.nextTimestamp
          subst hoff
          unfold Before
          rw [hfound.config_eq]
          simp only [zero_mul, if_true] at hts htime
          omega
        case isFalse => exact hplayed
  · rw [hmissed.data]
    refine h.withBuffer hmissed.config_eq ?_
    rcases hmissed.kept with ⟨hslots, hreset, htime⟩ | hempty
    · exact .inl ⟨hslots, htime, fun hwas => hreset.trans hwas⟩
    · exact .inr hempty

variable {i : Fin jitterSlotCount}

theorem Inv.putAgain (h : p.Inv) (hfind : p.buffer.table.find pkt.timestamp.toNat = some i)
    (hb : b = if !pkt.isEC then { p.buffer with table := p.buffer.table.overwrite i pkt } else p.buffer) :
    Inv { p with buffer := b, puts := update p.puts pkt.timestamp (pkt :: p.puts pkt.timestamp) } := by
  obtain ⟨slot, hslot, hts⟩ := SlotTable.find_some hfind
  have hsame : slot.timestamp = pkt.timestamp := UInt32.toNat_inj.mp (Int.natCast_inj.mp hts)
  have hplayed : ∀ timestamp ∈ p.lastPlayed, Before p.buffer timestamp := by
    rcases h.played with hplayed | ⟨hnone, -⟩
    · exact hplayed
    · cases (hnone i).symm.trans hslot
  have hother {j : Fin jitterSlotCount} {a : JitterSlot} (hji : j ≠ i) (ha : p.buffer.table.slots j = some a) :
      a.timestamp ≠ pkt.timestamp := fun heq => hji (h.distinct j i a slot ha hslot (heq.trans hsame.symm))
  cases hec : pkt.isEC with
  | true =>
    rw [hec] at hb
    obtain rfl : b = p.buffer := hb
    refine ⟨fun j a ha => ?_, h.distinct, .inl hplayed⟩
    obtain ⟨hstor, hout⟩ := h.stored j a ha
    refine ⟨?_, hout⟩
    show storedOf (update p.puts pkt.timestamp _ a.timestamp) = _
    by_cases heq : a.timestamp = pkt.timestamp
    · rw [← heq, update_self, storedOf_cons_of_isEC hec (by rw [hstor]; exact Option.some_ne_none _), hstor]
    · rw [update_of_ne heq, hstor]
  | false =>
    rw [hec] at hb
    obtain rfl : b = { p.buffer with table := p.buffer.table.overwrite i pkt } := hb
    have hslots (j : Fin jitterSlotCount) : (p.buffer.table.overwrite i pkt).slots j =
        if j = i then some { slot with data := pkt.data, isEC := pkt.isEC } else p.buffer.table.slots j := by
      unfold SlotTable.overwrite
      dsimp only
      rw [update_apply, hslot, Option.map_some]
    have hheld {j : Fin jitterSlotCount} {a : JitterSlot} (ha : (p.buffer.table.overwrite i pkt).slots j = some a) :
        ∃ a', p.buffer.table.slots j = some a' ∧ a'.timestamp = a.timestamp := by
      rw [hslots] at ha
      split at ha
      case isTrue hji => exact ⟨slot, hji ▸ hslot, by rw [← Option.some.inj ha]⟩
      case isFalse => exact ⟨a, ha, rfl⟩
    refine ⟨fun j a ha => ?_, fun j k a a' ha ha' heq => ?_, .inl hplayed⟩
    · by_cases hji : j = i
      · rw [hslots, if_pos hji] at ha
        obtain rfl := Option.some.inj ha
        refine ⟨?_, (h.stored i slot hslot).2⟩
        show storedOf (update p.puts pkt.timestamp _ slot.timestamp) = _
        rw [hsame, update_self, storedOf_cons _ hec]
      · rw [hslots, if_neg hji] at ha
        refine ⟨?_, (h.stored j a ha).2⟩
        show storedOf (update p.puts pkt.timestamp _ a.timestamp) = _
        rw [update_of_ne (hother hji ha), (h.stored j a ha).1]
    · obtain ⟨b, hb, hba⟩ := hheld ha
      obtain ⟨b', hb', hba'⟩ := hheld ha'
      exact h.distinct j k b b' hb hb' (by rw [hba, hba', heq])

theorem tick_cases (b : JitterBuffer) (stddevDelay : Nat) :
    (b.tick stddevDelay).config = b.config ∧ (b.tick stddevDelay).table = b.table ∧
      (b.tick stddevDelay).nextTimestamp = b.nextTimestamp ∧
      (b.wasReset = true → (b.tick stddevDelay).wasReset = true) := by
  have hfollow : ∀ b : JitterBuffer, (b.followDeviation stddevDelay).config = b.config ∧
      (b.followDeviation stddevDelay).table = b.table ∧
      (b.followDeviation stddevDelay).nextTimestamp = b.nextTimestamp ∧
      (b.followDeviation stddevDelay).wasReset = b.wasReset := by
    intro b
    unfold JitterBuffer.followDeviation
    dsimp only
    split_ifs <;> exact ⟨rfl, rfl, rfl, rfl⟩
  obtain ⟨hcfg, htable, htime, hreset⟩ := hfollow b.shiftHistories
  refine ⟨hcfg, htable, htime, fun hwas => hreset.trans ?_⟩
  show (b.wasReset || _) = true
  rw [hwas, Bool.true_or]

theorem putTime_of_not_wasReset (hreset : b.wasReset = false) (pkt : JitterPacket) :
    b.putTime pkt = b.nextTimestamp := by
  unfold JitterBuffer.putTime JitterBuffer.resync
  dsimp only
  rw [if_neg (by simp [hreset])]

theorem Inv.putNew (h : p.Inv) (hnew : p.buffer.table.find pkt.timestamp.toNat = none)
    (hins : p.buffer.Inserted pkt b) : Inv
      { buffer := b
        puts := update p.puts pkt.timestamp [pkt]
        handedOut := update p.handedOut pkt.timestamp false
        lastPlayed := if p.buffer.wasReset then none else p.lastPlayed } := by
  obtain ⟨i, buffer, hslots⟩ := hins.slots
  have hheld {j : Fin jitterSlotCount} {a : JitterSlot} (ha : b.table.slots j = some a) :
      j = i ∧ a = { pkt with buffer := buffer } ∨ j ≠ i ∧ p.buffer.table.slots j = some a := by
    rw [hslots, update_apply] at ha
    split at ha
    case isTrue hji => exact .inl ⟨hji, (Option.some.inj ha).symm⟩
    case isFalse hji => exact .inr ⟨hji, (Option.filter_eq_some_iff.mp ha).1⟩
  have hother {j : Fin jitterSlotCount} {a : JitterSlot} (ha : p.buffer.table.slots j = some a) :
      a.timestamp ≠ pkt.timestamp := SlotTable.find_none hnew ha
  refine ⟨fun j a ha => ?_, fun j k a a' ha ha' hsame => ?_, .inl ?_⟩
  · show storedOf (update p.puts _ _ a.timestamp) = _ ∧ update p.handedOut _ _ a.timestamp = _
    rcases hheld ha with ⟨-, rfl⟩ | ⟨-, ha⟩
    · exact ⟨by rw [update_self, storedOf_singleton], update_self _ _ _⟩
    · rw [update_of_ne (hother ha), update_of_ne (hother ha)]
      exact h.stored j a ha
  · rcases hheld ha with ⟨rfl, rfl⟩ | ⟨-, ha⟩ <;> rcases hheld ha' with ⟨rfl, rfl⟩ | ⟨-, ha'⟩
    · rfl
    · exact absurd hsame.symm (hother ha')
    · exact absurd hsame (hother ha)
    · exact h.distinct j k a a' ha ha' hsame
  · dsimp only
    split
    case isTrue => exact fun _ hlast => nomatch hlast
    case isFalse hnot =>
      have hreset : p.buffer.wasReset = false := by simpa using hnot
      rcases h.played with hplayed | ⟨-, hwas⟩
      · intro timestamp hlast
        refine before_mono hins.config_eq ?_ (hplayed timestamp hlast)
        have hnext := hins.nextTimestamp
        rw [putTime_of_not_wasReset hreset] at hnext
        omega
      · exact absurd hwas hnot

theorem Inv.afterInput (h : p.Inv) (hin : p.buffer.handleInput pkt = .ok b) : (p.afterInput pkt b).Inv := by
  unfold Playback.afterInput
  rcases JitterBuffer.handleInput_cases hin with ⟨hlarge, rfl⟩ | ⟨hfits, i, hfind, hb⟩ | ⟨hfits, hnew, hins⟩
  · rw [if_pos hlarge]
    exact h
  · rw [if_neg (Nat.not_lt.mpr hfits), if_pos (by rw [hfind]; rfl)]
    exact h.putAgain hfind hb
  · rw [if_neg (Nat.not_lt.mpr hfits), if_neg (by rw [hnew]; exact Bool.false_ne_true)]
    exact h.putNew hnew hins

variable {event : JitterEvent}

theorem Inv.step (h : p.Inv) (hstep : stepPlayback p event = .ok p') : p'.Inv := by
  cases event with
  | handleInput pkt =>
    obtain ⟨b, hin, rfl⟩ := map_eq_ok.mp hstep
    exact h.afterInput hin
  | handleOutput len offset advance =>
    obtain ⟨⟨output, b⟩, hout, rfl⟩ := map_eq_ok.mp hstep
    exact h.afterOutput hout
  | reset =>
    obtain ⟨b, hreset, rfl⟩ := map_eq_ok.mp hstep
    obtain ⟨hcfg, hempty⟩ := JitterBuffer.reset_cases hreset
    exact h.withBuffer hcfg (.inr hempty)
  | tick stddevDelay =>
    obtain ⟨b, hb, rfl⟩ := map_eq_ok.mp hstep
    obtain rfl := Except.ok.inj hb
    obtain ⟨hcfg, htable, htime, hreset⟩ := tick_cases p.buffer stddevDelay
    exact h.withBuffer hcfg (.inl ⟨by rw [htable], htime.ge, hreset⟩)
  | setMinPacketCount count =>
    obtain ⟨b, hb, rfl⟩ := map_eq_ok.mp hstep
    obtain rfl := Except.ok.inj hb
    exact h.withBuffer rfl (.inl ⟨rfl, le_rfl, id⟩)

theorem Inv.playsBack_iff_of_found (h : p.Inv) {slot : JitterSlot}
    (hfound : p.buffer.Found len offset output b i slot) :
    VoIP.PlaysBack p offset output ↔ JitterEvent.Fits p (.handleOutput len offset advance) := by
  obtain ⟨hstor, hout⟩ := h.stored i slot hfound.slot_eq
  have hdata {pkt : JitterPacket} (hpkt : output.data = some pkt) :
      slot.data.length ≤ len ∧ pkt = slot.toJitterPacket := by
    rw [hfound.data] at hpkt
    split at hpkt
    · cases hpkt
    · exact ⟨Nat.not_lt.mp ‹_›, (Option.some.inj hpkt).symm⟩
  constructor
  · intro hplays j a ha hsame
    have hts : a.timestamp = slot.timestamp :=
      UInt32.toNat_inj.mp (Int.natCast_inj.mp (hsame.trans hfound.timestamp.symm))
    obtain rfl := h.distinct j i a slot ha hfound.slot_eq hts
    obtain rfl := Option.some.inj (ha.symm.trans hfound.slot_eq)
    refine ⟨?_, fun ⟨_, hoff, hfits⟩ hlast => ?_⟩
    · by_contra hno
      obtain ⟨hlen, hlong⟩ := not_or.mp hno
      have hsize : output.size = len := hfound.size.trans (if_pos (Nat.not_le.mp hlong))
      obtain ⟨pkt, hpkt, -⟩ := hplays.written (by omega)
      exact hlong (hdata hpkt).1
    · have hpkt : output.data = some a.toJitterPacket := hfound.data.trans (if_neg (Nat.not_lt.mpr hfits))
      exact UInt32.lt_irrefl _ (hplays.increasing hoff _ hpkt a.timestamp hlast)
  · intro hfits
    obtain ⟨hroom, hagain⟩ := hfits i slot hfound.slot_eq hfound.timestamp
    refine ⟨fun hsize => ?_, fun pkt hpkt => ?_, fun hoff pkt hpkt timestamp hlast => ?_⟩
    · by_cases hlong : len < slot.data.length
      · rw [hfound.size, if_pos hlong] at hsize
        omega
      · exact ⟨slot.toJitterPacket, hfound.data.trans (if_neg hlong), hfound.size.trans (if_neg hlong),
          hfound.timestamp, hstor⟩
    · obtain ⟨-, rfl⟩ := hdata hpkt
      exact hout
    · obtain ⟨hlen, rfl⟩ := hdata hpkt
      rw [UInt32.lt_iff_toNat_lt]
      have hts := hfound.timestamp
      rw [hoff, zero_mul, add_zero] at hts
      rcases h.played with hplayed | ⟨hnone, -⟩
      · rcases hplayed timestamp hlast with hbefore | ⟨hsame, hzero⟩
        · show timestamp.toNat < slot.timestamp.toNat
          omega
        · have hsame : timestamp = slot.timestamp :=
            UInt32.toNat_inj.mp (Int.natCast_inj.mp (hsame.trans hts.symm))
          exact absurd (hsame ▸ hlast) (hagain ⟨hzero, hoff, hlen⟩)
      · cases (hnone i).symm.trans hfound.slot_eq

/-- **One call.** -/
theorem Inv.playsBack_iff (h : p.Inv) (hstep : stepPlayback p event = .ok p') : event.PlaysBack p ↔ event.Fits p := by
  cases event with
  | handleOutput len offset advance =>
    obtain ⟨⟨output, b⟩, hout, -⟩ := map_eq_ok.mp hstep
    have hcall : JitterEvent.PlaysBack p (.handleOutput len offset advance) ↔ VoIP.PlaysBack p offset output := by
      refine ⟨fun hall => hall output b hout, fun hplays output' b' hout' => ?_⟩
      obtain ⟨rfl, -⟩ := Prod.mk.inj (Except.ok.inj (hout.symm.trans hout'))
      exact hplays
    rw [hcall]
    rcases JitterBuffer.handleOutput_cases hout with ⟨i, slot, hfound⟩ | hmissed
    · exact h.playsBack_iff_of_found hfound
    · refine iff_of_true ⟨fun hsize => ?_, fun pkt hpkt => ?_, fun _ pkt hpkt => ?_⟩ ?_
      · exact absurd hmissed.size hsize.ne'
      · cases hmissed.data.symm.trans hpkt
      · cases hmissed.data.symm.trans hpkt
      · exact fun i slot hslot hsame => absurd hsame (hmissed.missing i slot hslot)
  | handleInput _ | reset | tick _ | setMinPacketCount _ => exact Iff.rfl

end Playback

/-- **Playback is faithful.** In a run of calls everything that is handed out is what was put, once and in order, exactly
if there is room for it, and no time is played twice where a step takes no time. -/
theorem playback_faithful_iff (config : JitterConfig) (nextTimestamp : Int) (latePacketCount : Nat)
    (events : List JitterEvent) :
    AllOk stepPlayback (fun p event _ => event.PlaysBack p) (.init config nextTimestamp latePacketCount) events ↔
      AllOk stepPlayback (fun p event _ => event.Fits p) (.init config nextTimestamp latePacketCount) events :=
  allOk_iff (fun _ _ _ hstep h => h.step hstep) (fun _ _ _ hstep h => h.playsBack_iff hstep)
    (Playback.inv_init config nextTimestamp latePacketCount)

/-- Two bytes wait for the time 0. A caller with room for one byte gets one, and nothing is written. -/
theorem short_buffer_filled :
    ¬AllOk stepPlayback (fun p event _ => event.PlaysBack p) (.init (defaultConfig 60) 0 0)
      [.handleInput ⟨[1, 2], 0, false⟩, .handleOutput 1 6 false] := by
  intro h
  have hrun : (do
      let p ← stepPlayback (.init (defaultConfig 60) 0 0) (.handleInput ⟨[1, 2], 0, false⟩)
      let r ← p.buffer.handleOutput 1 6 false
      return (r.1.size, r.1.data)) = .ok (1, none) := by rfl
  obtain ⟨p, hp, hrun⟩ := bind_eq_ok.mp hrun
  obtain ⟨⟨output, b⟩, hout, hread⟩ := bind_eq_ok.mp hrun
  obtain ⟨hsize, hdata⟩ := Prod.mk.inj (Except.ok.inj hread)
  have hstep : stepPlayback p (.handleOutput 1 6 false) = .ok (p.afterOutput 6 output b) :=
    map_eq_ok.mpr ⟨_, hout, rfl⟩
  have hplays := ((h p hp).2 _ hstep).1 output b hout
  obtain ⟨pkt, hpkt, -⟩ := hplays.written (by rw [hsize]; decide)
  cases hdata.symm.trans hpkt

end TelegramClient.VoIP
