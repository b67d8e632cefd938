import TelegramClient.Lib.FallibleRuns
import TelegramClient.VoIP.JitterInvariant

/-!
# What a call does to the jitter buffer

The effect of each call on the slots and on the time, whatever the state is, as long as the call does not abort.

* `JitterBuffer.Inserted` : what `PutInternal` does with a packet that is new, and `handleInput_cases`: all of its ends;
* `JitterBuffer.Found`, `JitterBuffer.Missed` : the two ends of `GetInternal`, `handleOutput_cases`.
-/

namespace TelegramClient.VoIP
open Function (update)

/-! ## Slots -/

namespace SlotTable

variable {t t' : SlotTable}

variable {i : Fin jitterSlotCount}

theorem slots_release (h : t.release i = .ok t') : t'.slots = update t.slots i none := by
  unfold release at h
  split at h
  · cases h
  · rw [← Except.ok.inj h]

variable {p : JitterSlot → Bool}

theorem slots_releaseIf (h : (if (t.slots i).any p then t.release i else .ok t) = .ok t') :
    t'.slots = update t.slots i ((t.slots i).filter fun a => !p a) := by
  split at h
  case isTrue hany =>
    obtain ⟨a, ha, hp⟩ := (Option.any_eq_true _ _).mp hany
    rw [slots_release h, ha, Option.filter_some_neg (by simp [hp])]
  case isFalse hany =>
    have hkept : (t.slots i).filter (fun a => !p a) = t.slots i := by
      cases ha : t.slots i with
      | none => rfl
      | some a =>
        rw [ha, Option.any_some] at hany
        exact Option.filter_some_pos (by simpa using hany)
    rw [hkept, Function.update_eq_self, ← Except.ok.inj h]

theorem slots_releaseWhere (h : t.releaseWhere p = .ok t') (j : Fin jitterSlotCount) :
    t'.slots j = (t.slots j).filter fun a => !p a := by
  have hpass : ∀ (is : List (Fin jitterSlotCount)) (t : SlotTable),
      is.foldlM (fun t i => if (t.slots i).any p then t.release i else .ok t) t = .ok t' →
        t'.slots j = if j ∈ is then (t.slots j).filter (fun a => !p a) else t.slots j := by
    intro is
    induction is with
    | nil =>
      intro t h
      rw [Except.ok.inj h, if_neg List.not_mem_nil]
    | cons i is ih =>
      intro t h
      obtain ⟨t₁, hfirst, hrest⟩ := bind_eq_ok.mp h
      rw [ih t₁ hrest, slots_releaseIf hfirst]
      by_cases hji : j = i
      · subst hji
        rw [Function.update_self, Option.filter_filter, if_pos List.mem_cons_self]
        simp only [Bool.and_self, ite_self]
      · rw [Function.update_of_ne hji]
        simp only [List.mem_cons, hji, false_or]
  rw [hpass _ t h, if_pos (List.mem_finRange j)]

theorem slots_occupy {pkt : JitterPacket} (h : t.occupy i pkt = .ok t') :
    ∃ buffer, t'.slots = update t.slots i (some { pkt with buffer := buffer }) := by
  unfold occupy at h
  split at h
  case h_1 => cases h
  case h_2 buffer pool hget => exact ⟨buffer, by rw [← Except.ok.inj h]⟩

end SlotTable

/-! ## Calls -/

namespace JitterBuffer

variable {b b' : JitterBuffer}

/-- `nextTimestamp` when `PutInternal` compares the packet with it. -/
def putTime (b : JitterBuffer) (pkt : JitterPacket) : Int := (b.resync pkt.timestamp).nextTimestamp

/-- The packet has come into a slot, and frames whose time was over have left. -/
structure Inserted (b : JitterBuffer) (pkt : JitterPacket) (b' : JitterBuffer) : Prop where
  config_eq : b'.config = b.config
  wasReset : b'.wasReset = false
  nextTimestamp : b'.nextTimestamp = b.putTime pkt ∨ b'.nextTimestamp = b.putTime pkt + b.config.step
  slots : ∃ i buffer, b'.table.slots = Function.update
    (fun j => (b.table.slots j).filter fun a => decide (b.putTime pkt - 1 ≤ a.timestamp.toNat)) i
      (some { pkt with buffer := buffer })

@[simp] theorem config_resync (timestamp : UInt32) : (b.resync timestamp).config = b.config := by
  unfold resync
  dsimp only
  split <;> rfl

@[simp] theorem wasReset_resync (timestamp : UInt32) : (b.resync timestamp).wasReset = false := by
  unfold resync
  dsimp only
  split
  case isTrue => rfl
  case isFalse h => simpa using h

theorem makeRoom_cases {i : Fin jitterSlotCount} (h : b.makeRoom = .ok (i, b')) :
    b'.config = b.config ∧ b'.wasReset = b.wasReset ∧
      (b'.nextTimestamp = b.nextTimestamp ∨ b'.nextTimestamp = b.nextTimestamp + b.config.step) ∧
      ∀ slot, update b'.table.slots i slot = update b.table.slots i slot := by
  unfold makeRoom at h
  split at h
  case h_1 =>
    obtain ⟨rfl, rfl⟩ := Prod.mk.inj (Except.ok.inj h)
    exact ⟨rfl, rfl, .inl rfl, fun _ => rfl⟩
  case h_2 =>
    split at h
    case h_1 => cases h
    case h_2 =>
      obtain ⟨table, hrelease, h⟩ := bind_eq_ok.mp h
      obtain ⟨rfl, rfl⟩ := Prod.mk.inj (Except.ok.inj h)
      refine ⟨rfl, rfl, .inr rfl, fun slot => ?_⟩
      show update table.slots _ slot = _
      rw [SlotTable.slots_release hrelease, Function.update_idem]

variable {pkt : JitterPacket}

theorem insert_cases (h : b.insert pkt = .ok b') : b'.config = b.config ∧ b'.wasReset = b.wasReset ∧
      (b'.nextTimestamp = b.nextTimestamp ∨ b'.nextTimestamp = b.nextTimestamp + b.config.step) ∧
      ∃ i buffer, b'.table.slots = update b.table.slots i (some { pkt with buffer := buffer }) := by
  unfold insert at h
  obtain ⟨⟨i, b₁⟩, hroom, h⟩ := bind_eq_ok.mp h
  obtain ⟨table, hoccupy, h⟩ := bind_eq_ok.mp h
  obtain rfl := Except.ok.inj h
  obtain ⟨hcfg, hreset, htime, hslots⟩ := makeRoom_cases hroom
  obtain ⟨buffer, hoccupied⟩ := SlotTable.slots_occupy hoccupy
  exact ⟨hcfg, hreset, htime, i, buffer, hoccupied.trans (hslots _)⟩

/-- **What `HandleInput` does.** -/
theorem handleInput_cases (h : b.handleInput pkt = .ok b') : jitterSlotSize < pkt.data.length ∧ b' = b ∨
      pkt.data.length ≤ jitterSlotSize ∧ (∃ i, b.table.find pkt.timestamp.toNat = some i ∧
          b' = if !pkt.isEC then { b with table := b.table.overwrite i pkt } else b) ∨
        pkt.data.length ≤ jitterSlotSize ∧ b.table.find pkt.timestamp.toNat = none ∧ b.Inserted pkt b' := by
  unfold handleInput putInternal at h
  split at h
  case isTrue hlarge => exact .inl ⟨hlarge, (Except.ok.inj h).symm⟩
  case isFalse hfits =>
    refine .inr ?_
    split at h
    case h_1 i hfind => exact .inl ⟨Nat.not_lt.mp hfits, i, hfind, (Except.ok.inj h).symm⟩
    case h_2 hfind =>
      refine .inr ⟨Nat.not_lt.mp hfits, hfind, ?_⟩
      obtain ⟨b₁, hpurge, h⟩ := bind_eq_ok.mp h
      obtain ⟨table, hrelease, hb₁⟩ := bind_eq_ok.mp hpurge
      obtain rfl := Except.ok.inj hb₁
      have htable : table.slots = fun j => (b.table.slots j).filter fun a =>
          decide (b.putTime pkt - 1 ≤ a.timestamp.toNat) := by
        funext j
        rw [SlotTable.slots_releaseWhere hrelease, table_resync]
        congr 1
        funext a
        rw [← decide_not, decide_eq_decide, not_lt]
        rfl
      have hins {b₂ : JitterBuffer} (h : b₂.insert pkt = .ok b') (hcfg : b₂.config = b.config)
          (hreset : b₂.wasReset = false) (htime : b₂.nextTimestamp = b.putTime pkt) (hslots : b₂.table = table) :
          b.Inserted pkt b' := by
        obtain ⟨hconfig', hreset', htime', i, buffer, hslots'⟩ := insert_cases h
        refine ⟨hconfig'.trans hcfg, hreset'.trans hreset, ?_, i, buffer, ?_⟩
        · rwa [htime, hcfg] at htime'
        · rw [hslots', hslots, htable]
      have hcfg : (b.resync pkt.timestamp).config = b.config := config_resync _
      have hreset : (b.resync pkt.timestamp).wasReset = false := wasReset_resync _
      dsimp only at h
      split at h
      case isTrue => exact hins h hcfg hreset rfl rfl
      case isFalse hnot =>
        -- The packet is not late, so that it is not too late.
        rw [if_neg (by omega)] at h
        exact hins h hcfg hreset rfl rfl

/-- A packet was found, and its slot is empty now. -/
structure Found (b : JitterBuffer) (len : Nat) (offset : Int) (output : JitterOutput) (b' : JitterBuffer)
    (i : Fin jitterSlotCount) (slot : JitterSlot) : Prop where
  slot_eq : b.table.slots i = some slot
  timestamp : (slot.timestamp.toNat : Int) = b.nextTimestamp + offset * b.config.step
  size : output.size = if len < slot.data.length then len else slot.data.length
  data : output.data = if len < slot.data.length then none else some slot.toJitterPacket
  config_eq : b'.config = b.config
  wasReset : b'.wasReset = b.wasReset
  nextTimestamp : b'.nextTimestamp = if offset = 0 then b.nextTimestamp + b.config.step else b.nextTimestamp
  slots : b'.table.slots = Function.update b.table.slots i none

/-- No packet was found. After too many losses the buffer is empty. -/
structure Missed (b : JitterBuffer) (offset : Int) (output : JitterOutput) (b' : JitterBuffer) : Prop where
  missing : ∀ i slot, b.table.slots i = some slot →
    (slot.timestamp.toNat : Int) ≠ b.nextTimestamp + offset * b.config.step
  size : output.size = 0
  data : output.data = none
  config_eq : b'.config = b.config
  kept : b'.table.slots = b.table.slots ∧ b'.wasReset = b.wasReset ∧ b.nextTimestamp ≤ b'.nextTimestamp ∨
    (∀ j, b'.table.slots j = none) ∧ b'.wasReset = true

theorem reset_cases (h : b.reset = .ok b') :
    b'.config = b.config ∧ (∀ j, b'.table.slots j = none) ∧ b'.wasReset = true := by
  obtain ⟨table, hrelease, h⟩ := bind_eq_ok.mp h
  obtain rfl := Except.ok.inj h
  refine ⟨rfl, fun j => ?_, rfl⟩
  show table.slots j = none
  rw [SlotTable.slots_releaseWhere hrelease, Option.filter_eq_none_iff]
  simp

variable {offset : Int}

theorem miss_cases (h : b.miss offset = .ok b') : b'.config = b.config ∧
      (b'.table.slots = b.table.slots ∧ b'.wasReset = b.wasReset ∧ b'.nextTimestamp = b.nextTimestamp ∨
        (∀ j, b'.table.slots j = none) ∧ b'.wasReset = true) := by
  unfold miss at h
  split at h
  · obtain ⟨hcfg, hslots, hreset⟩ := reset_cases h
    exact ⟨hcfg, .inr ⟨hslots, hreset⟩⟩
  · obtain rfl := Except.ok.inj h
    exact ⟨rfl, .inl ⟨rfl, rfl, rfl⟩⟩

variable {advance : Bool}

theorem getInternal_cases {result : JitterResult} (h : b.getInternal offset advance = .ok (result, b')) :
    b'.config = b.config ∧ ((∃ i slot, b.table.slots i = some slot ∧
          (slot.timestamp.toNat : Int) = b.nextTimestamp + offset * b.config.step ∧ result = .ok slot.toJitterPacket ∧
          b'.wasReset = b.wasReset ∧
          b'.nextTimestamp = (if offset = 0 then b.nextTimestamp + b.config.step else b.nextTimestamp) ∧
          b'.table.slots = update b.table.slots i none) ∨ (∀ pkt, result ≠ .ok pkt) ∧
          (∀ i slot, b.table.slots i = some slot →
            (slot.timestamp.toNat : Int) ≠ b.nextTimestamp + offset * b.config.step) ∧
          (b'.table.slots = b.table.slots ∧ b'.wasReset = b.wasReset ∧ b.nextTimestamp ≤ b'.nextTimestamp ∨
            (∀ j, b'.table.slots j = none) ∧ b'.wasReset = true)) := by
  unfold getInternal at h
  split at h
  case h_1 i hfind =>
    obtain ⟨slot, hslot, hts⟩ := SlotTable.find_some hfind
    obtain ⟨table, hrelease, h⟩ := bind_eq_ok.mp h
    rw [hslot] at h
    obtain ⟨rfl, rfl⟩ := Prod.mk.inj (Except.ok.inj h)
    have hslots := SlotTable.slots_release hrelease
    refine ⟨?_, .inl ⟨i, slot, hslot, hts, rfl, ?_, ?_, ?_⟩⟩
    · split <;> rfl
    · split <;> rfl
    · split <;> rfl
    · split <;> exact hslots
  case h_2 hfind =>
    have hmissing : ∀ i slot, b.table.slots i = some slot →
        (slot.timestamp.toNat : Int) ≠ b.nextTimestamp + offset * b.config.step := by
      intro i slot hslot hsame
      have hnone := List.find?_eq_none.mp hfind i (List.mem_finRange i)
      rw [hslot] at hnone
      simp [hsame] at hnone
    have hadvanced : (if advance = true then b.advance else b).config = b.config ∧
        (if advance = true then b.advance else b).table = b.table ∧
        (if advance = true then b.advance else b).wasReset = b.wasReset ∧
        b.nextTimestamp ≤ (if advance = true then b.advance else b).nextTimestamp := by
      split
      · exact ⟨rfl, rfl, rfl, le_add_of_nonneg_right (Int.natCast_nonneg _)⟩
      · exact ⟨rfl, rfl, rfl, le_rfl⟩
    dsimp only at h
    generalize (if advance = true then b.advance else b) = b₁ at h hadvanced
    obtain ⟨hcfg, htable, hreset, htime⟩ := hadvanced
    split at h
    · obtain ⟨rfl, rfl⟩ := Prod.mk.inj (Except.ok.inj h)
      exact ⟨hcfg, .inr ⟨fun pkt => nofun, hmissing, .inl ⟨by rw [htable], hreset, htime⟩⟩⟩
    · obtain ⟨b₂, hmiss, h⟩ := bind_eq_ok.mp h
      obtain ⟨rfl, rfl⟩ := Prod.mk.inj (Except.ok.inj h)
      obtain ⟨hconfig', hkept⟩ := miss_cases hmiss
      refine ⟨hconfig'.trans hcfg, .inr ⟨fun pkt => nofun, hmissing, ?_⟩⟩
      rcases hkept with ⟨hslots, hreset', htime'⟩ | hempty
      · exact .inl ⟨hslots.trans (by rw [htable]), hreset'.trans hreset, htime.trans htime'.ge⟩
      · exact .inr hempty

variable {len : Nat} {output : JitterOutput}

theorem handleOutput_eq_ok (h : b.handleOutput len offset advance = .ok (output, b')) :
    ∃ result b₁, b.getInternal offset advance = .ok (result, b₁) ∧ b'.config = b₁.config ∧ b'.table = b₁.table ∧
      b'.wasReset = b₁.wasReset ∧ b'.nextTimestamp = b₁.nextTimestamp ∧
      (∀ pkt, result = .ok pkt → output.size = (if len < pkt.data.length then len else pkt.data.length) ∧
        output.data = if len < pkt.data.length then none else some pkt) ∧
      ((∀ pkt, result ≠ .ok pkt) → output.size = 0 ∧ output.data = none) := by
  unfold handleOutput at h
  obtain ⟨⟨result, b₁⟩, hget, h⟩ := bind_eq_ok.mp h
  refine ⟨result, b₁, hget, ?_⟩
  cases result with
  | ok pkt =>
    dsimp only at h
    split at h
    case isTrue hlong =>
      obtain ⟨rfl, rfl⟩ := Prod.mk.inj (Except.ok.inj h)
      refine ⟨rfl, rfl, rfl, rfl, fun pkt' hpkt => ?_, fun hnot => absurd rfl (hnot pkt)⟩
      obtain rfl := JitterResult.ok.inj hpkt
      rw [if_pos hlong, if_pos hlong]
      exact ⟨rfl, rfl⟩
    case isFalse hfits =>
      obtain ⟨rfl, rfl⟩ := Prod.mk.inj (Except.ok.inj h)
      refine ⟨rfl, rfl, rfl, rfl, fun pkt' hpkt => ?_, fun hnot => absurd rfl (hnot pkt)⟩
      obtain rfl := JitterResult.ok.inj hpkt
      rw [if_neg hfits, if_neg hfits]
      exact ⟨rfl, rfl⟩
  | missing | buffering =>
    obtain ⟨rfl, rfl⟩ := Prod.mk.inj (Except.ok.inj h)
    exact ⟨rfl, rfl, rfl, rfl, (fun _ hpkt => nomatch hpkt), fun _ => ⟨rfl, rfl⟩⟩

/-- **What `HandleOutput` does.** -/
theorem handleOutput_cases (h : b.handleOutput len offset advance = .ok (output, b')) :
    (∃ i slot, b.Found len offset output b' i slot) ∨ b.Missed offset output b' := by
  obtain ⟨result, b₁, hget, hcfg, htable, hreset, htime, hfound, hmissed⟩ := handleOutput_eq_ok h
  obtain ⟨hconfig', ⟨i, slot, hslot, hts, hres, hreset', htime', hslots⟩ | ⟨hnone, hmissing, hkept⟩⟩ :=
    getInternal_cases hget
  · obtain ⟨hsize, hdata⟩ := hfound _ hres
    exact .inl ⟨i, slot, hslot, hts, hsize, hdata, hcfg.trans hconfig', hreset.trans hreset',
      htime.trans htime', htable ▸ hslots⟩
  · obtain ⟨hsize, hdata⟩ := hmissed hnone
    refine .inr ⟨hmissing, hsize, hdata, hcfg.trans hconfig', ?_⟩
    rw [htable, hreset, htime]
    exact hkept

end JitterBuffer

end TelegramClient.VoIP
