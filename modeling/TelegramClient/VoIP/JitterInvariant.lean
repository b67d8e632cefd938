import Mathlib.Data.Fintype.EquivFin
import TelegramClient.VoIP.JitterBuffer

/-!
# Slots and buffers of the jitter buffer stay paired

* `BufferPool.Used`, `get_spec`, `reuse_spec` : the used set of a pool;
* **`jitter_paired`** : after any calls, and none of them has aborted.
-/

namespace TelegramClient.VoIP
open List
open Function (update update_of_ne update_self)

/-! ## The used set of a pool -/

namespace BufferPool

variable {i : Nat}

theorem getLsbD_set (hi : i < 64) (used : BitVec 64) (j : Nat) :
    (used ||| 1#64 <<< i).getLsbD j = (used.getLsbD j || decide (j = i)) := by
  rw [BitVec.getLsbD_or, BitVec.getLsbD_shiftLeft, BitVec.getLsbD_one]
  congr 1
  by_cases hj : j = i
  · subst hj
    simp [hi]
  · have : ¬(j < 64 ∧ i ≤ j ∧ j - i = 0) := by omega
    simp only [hj, decide_false, Bool.and_eq_false_iff]
    simp
    omega

theorem getLsbD_clear (used : BitVec 64) {j : Nat} (hj : j < 64) :
    (used &&& ~~~(1#64 <<< i)).getLsbD j = (used.getLsbD j && !decide (j = i)) := by
  rw [BitVec.getLsbD_and, BitVec.getLsbD_not, BitVec.getLsbD_shiftLeft, BitVec.getLsbD_one]
  congr 1
  by_cases hji : j = i
  · subst hji
    simp [hj]
  · simp only [hj, hji, decide_true, decide_false, Bool.true_and, Bool.not_false]
    simp
    omega

variable {size bufferCount : Nat}

/-- A buffer of the pool that has been handed out. -/
def Used (pool : BufferPool size bufferCount) (buffer : Nat) : Prop :=
  ∃ i < bufferCount, i * size = buffer ∧ pool.usedBuffers.getLsbD i = true

section
variable (hsize : 0 < size) (hcount : bufferCount ≤ 64) {pool pool' : BufferPool size bufferCount} {buffer : Nat}
include hsize hcount

theorem get_spec (h : pool.get = some (buffer, pool')) :
    ¬pool.Used buffer ∧ ∀ b, pool'.Used b ↔ pool.Used b ∨ b = buffer := by
  obtain ⟨i, hfind, heq⟩ := Option.map_eq_some_iff.mp h
  have hfree : pool.usedBuffers.getLsbD i = false := by simpa using find?_some hfind
  have hi : i < bufferCount := mem_range.mp (mem_of_find?_eq_some hfind)
  cases heq
  constructor
  · rintro ⟨j, -, hj, hused⟩
    obtain rfl := Nat.eq_of_mul_eq_mul_right hsize hj
    rw [hfree] at hused
    cases hused
  · intro b
    constructor
    · rintro ⟨j, hj, rfl, hused⟩
      rw [getLsbD_set (by omega)] at hused
      by_cases hji : j = i
      · exact .inr (by rw [hji])
      · exact .inl ⟨j, hj, rfl, by simpa [hji] using hused⟩
    · rintro (⟨j, hj, rfl, hused⟩ | rfl)
      · exact ⟨j, hj, rfl, by rw [getLsbD_set (by omega), hused, Bool.true_or]⟩
      · exact ⟨i, hi, rfl, by rw [getLsbD_set (by omega), decide_eq_true rfl, Bool.or_true]⟩

theorem reuse_spec (h : pool.Used buffer) :
    ∃ pool', pool.reuse buffer = some pool' ∧ ∀ b, pool'.Used b ↔ pool.Used b ∧ b ≠ buffer := by
  obtain ⟨i, hi, rfl, -⟩ := h
  have hfind : (List.range bufferCount).find? (fun j => decide (j * size = i * size)) = some i := by
    cases hlist : (List.range bufferCount).find? (fun j => decide (j * size = i * size)) with
    | none => exact absurd (find?_eq_none.mp hlist i (mem_range.mpr hi)) (by simp)
    | some j =>
      have hj : j * size = i * size := by simpa using find?_some hlist
      rw [Nat.eq_of_mul_eq_mul_right hsize hj]
  refine ⟨⟨pool.usedBuffers &&& ~~~(1#64 <<< i)⟩, by rw [reuse, hfind, Option.map_some], fun b => ?_⟩
  constructor
  · rintro ⟨j, hj, rfl, hused⟩
    rw [getLsbD_clear _ (by omega), Bool.and_eq_true] at hused
    refine ⟨⟨j, hj, rfl, hused.1⟩, fun hsame => ?_⟩
    simp [Nat.eq_of_mul_eq_mul_right hsize hsame] at hused
  · rintro ⟨⟨j, hj, rfl, hused⟩, hne⟩
    have hji : j ≠ i := fun hji => hne (by rw [hji])
    exact ⟨j, hj, rfl, by rw [getLsbD_clear _ (by omega), hused, Bool.true_and]; simpa using hji⟩

end

theorem used_of_get_eq_none {pool : BufferPool size bufferCount} (h : pool.get = none) (hi : i < bufferCount) :
    pool.Used (i * size) := by
  have hnone := find?_eq_none.mp (Option.map_eq_none_iff.mp h) i (mem_range.mpr hi)
  exact ⟨i, hi, rfl, by simpa using hnone⟩

theorem not_used_zero (b : Nat) : ¬(⟨0⟩ : BufferPool size bufferCount).Used b := by
  rintro ⟨i, -, -, hused⟩
  exact Bool.false_ne_true (BitVec.getLsbD_zero.symm.trans hused)

end BufferPool

/-! ## The slots -/

namespace SlotTable

/-- Every occupied slot has a timestamp and a buffer of its own, and the used buffers are those of the slots. -/
structure Paired (t : SlotTable) : Prop where
  timestamp_inj : ∀ {i j a b}, t.slots i = some a → t.slots j = some b → a.timestamp = b.timestamp → i = j
  buffer_inj : ∀ {i j a b}, t.slots i = some a → t.slots j = some b → a.buffer = b.buffer → i = j
  used_iff : ∀ buffer, t.bufferPool.Used buffer ↔ ∃ i a, t.slots i = some a ∧ a.buffer = buffer
  size_le : ∀ {i a}, t.slots i = some a → a.data.length ≤ jitterSlotSize
  timestamp_lt : ∀ {i a}, t.slots i = some a → a.timestamp < 0xFFFFFFFF

theorem paired_empty : empty.Paired where
  timestamp_inj h := nomatch h
  buffer_inj h := nomatch h
  used_iff buffer := ⟨fun h => absurd h (BufferPool.not_used_zero buffer), fun ⟨_, _, h, _⟩ => nomatch h⟩
  size_le h := nomatch h
  timestamp_lt h := nomatch h

variable {t : SlotTable} {i : Fin jitterSlotCount} {a : JitterSlot}

theorem slots_of_update_none {j : Fin jitterSlotCount} (h : update t.slots i none j = some a) :
    j ≠ i ∧ t.slots j = some a := by
  by_cases hji : j = i
  · subst hji
    rw [update_self] at h
    cases h
  · rw [update_of_ne hji] at h
    exact ⟨hji, h⟩

namespace Paired

variable {t : SlotTable}

variable {i : Fin jitterSlotCount}

theorem release (h : t.Paired) {slot : JitterSlot} (hslot : t.slots i = some slot) :
    ∃ t', t.release i = .ok t' ∧ t'.Paired ∧ t'.slots = update t.slots i none := by
  have hused : t.bufferPool.Used slot.buffer := (h.used_iff _).mpr ⟨i, slot, hslot, rfl⟩
  obtain ⟨pool, hreuse, hiff⟩ := BufferPool.reuse_spec (by decide) (by decide) hused
  refine ⟨⟨pool, update t.slots i none⟩, ?_, ?_, rfl⟩
  · unfold SlotTable.release
    rw [hslot, Option.bind_some, hreuse]
  · constructor
    case timestamp_inj =>
      intro j k a b ha hb
      exact h.timestamp_inj (slots_of_update_none ha).2 (slots_of_update_none hb).2
    case buffer_inj =>
      intro j k a b ha hb
      exact h.buffer_inj (slots_of_update_none ha).2 (slots_of_update_none hb).2
    case used_iff =>
      intro buffer
      rw [hiff, h.used_iff]
      constructor
      · rintro ⟨⟨j, a, ha, rfl⟩, hne⟩
        have hji : j ≠ i := fun hji => hne (by rw [hji, hslot] at ha; rw [Option.some.inj ha])
        exact ⟨j, a, (update_of_ne hji _ _).trans ha, rfl⟩
      · rintro ⟨j, a, ha, rfl⟩
        obtain ⟨hji, ha⟩ := slots_of_update_none ha
        exact ⟨⟨j, a, ha, rfl⟩, fun hsame => hji (h.buffer_inj ha hslot hsame)⟩
    case size_le => exact fun ha => h.size_le (slots_of_update_none ha).2
    case timestamp_lt => exact fun ha => h.timestamp_lt (slots_of_update_none ha).2

theorem get_ne_none (h : t.Paired) (hfree : t.slots i = none) : t.bufferPool.get ≠ none := by
  intro hget
  have hslot : ∀ k : Fin jitterSlotCount, ∃ j a, t.slots j = some a ∧ a.buffer = k.val * jitterSlotSize := fun k =>
    (h.used_iff _).mp (BufferPool.used_of_get_eq_none hget k.isLt)
  choose owner slot howner hbuf using hslot
  have hinj : Function.Injective owner := by
    intro k l hkl
    have hsame : slot k = slot l := Option.some.inj (by rw [← howner k, ← howner l, hkl])
    have hmul : k.val * jitterSlotSize = l.val * jitterSlotSize := by rw [← hbuf k, ← hbuf l, hsame]
    exact Fin.ext (Nat.eq_of_mul_eq_mul_right (by decide) hmul)
  obtain ⟨k, hk⟩ := Finite.surjective_of_injective hinj i
  rw [← hk, howner] at hfree
  cases hfree

variable {pkt : JitterPacket}

theorem occupy (h : t.Paired) (hfree : t.slots i = none)
    (hnew : ∀ j a, t.slots j = some a → a.timestamp ≠ pkt.timestamp) (hsize : pkt.data.length ≤ jitterSlotSize)
    (hts : pkt.timestamp < 0xFFFFFFFF) : ∃ t', t.occupy i pkt = .ok t' ∧ t'.Paired ∧
      ∃ buffer, t'.slots = update t.slots i (some { pkt with buffer := buffer }) := by
  obtain ⟨⟨buffer, pool⟩, hget⟩ := Option.ne_none_iff_exists'.mp (h.get_ne_none hfree)
  obtain ⟨hunused, hiff⟩ := BufferPool.get_spec (by decide) (by decide) hget
  have hslots : ∀ {j a}, update t.slots i (some { pkt with buffer := buffer }) j = some a →
      (j = i ∧ a = { pkt with buffer := buffer }) ∨ (j ≠ i ∧ t.slots j = some a) := by
    intro j a ha
    by_cases hji : j = i
    · subst hji
      rw [update_self] at ha
      exact .inl ⟨rfl, (Option.some.inj ha).symm⟩
    · rw [update_of_ne hji] at ha
      exact .inr ⟨hji, ha⟩
  have hother : ∀ {j a}, t.slots j = some a → a.buffer ≠ buffer := fun ha hsame =>
    hunused ((h.used_iff _).mpr ⟨_, _, ha, hsame⟩)
  refine ⟨⟨pool, update t.slots i (some { pkt with buffer := buffer })⟩, ?_, ?_, buffer, rfl⟩
  · unfold SlotTable.occupy
    rw [hget]
  · constructor
    case timestamp_inj =>
      intro j k a b ha hb hsame
      rcases hslots ha with ⟨rfl, rfl⟩ | ⟨-, ha'⟩ <;> rcases hslots hb with ⟨rfl, rfl⟩ | ⟨-, hb'⟩
      · rfl
      · exact absurd hsame.symm (hnew _ _ hb')
      · exact absurd hsame (hnew _ _ ha')
      · exact h.timestamp_inj ha' hb' hsame
    case buffer_inj =>
      intro j k a b ha hb hsame
      rcases hslots ha with ⟨rfl, rfl⟩ | ⟨-, ha'⟩ <;> rcases hslots hb with ⟨rfl, rfl⟩ | ⟨-, hb'⟩
      · rfl
      · exact absurd hsame.symm (hother hb')
      · exact absurd hsame (hother ha')
      · exact h.buffer_inj ha' hb' hsame
    case used_iff =>
      intro b
      rw [hiff, h.used_iff]
      constructor
      · rintro (⟨j, a, ha, rfl⟩ | rfl)
        · have hji : j ≠ i := fun hji => by rw [hji, hfree] at ha; cases ha
          exact ⟨j, a, (update_of_ne hji _ _).trans ha, rfl⟩
        · exact ⟨i, _, update_self _ _ _, rfl⟩
      · rintro ⟨j, a, ha, rfl⟩
        rcases hslots ha with ⟨rfl, rfl⟩ | ⟨-, ha⟩
        · exact .inr rfl
        · exact .inl ⟨j, a, ha, rfl⟩
    case size_le =>
      intro j a ha
      rcases hslots ha with ⟨-, rfl⟩ | ⟨-, ha⟩
      · exact hsize
      · exact h.size_le ha
    case timestamp_lt =>
      intro j a ha
      rcases hslots ha with ⟨-, rfl⟩ | ⟨-, ha⟩
      · exact hts
      · exact h.timestamp_lt ha

theorem overwrite (h : t.Paired) (i : Fin jitterSlotCount) (hsize : pkt.data.length ≤ jitterSlotSize) :
    (t.overwrite i pkt).Paired := by
  -- A slot of the new table comes from one with the same timestamp and buffer, and the other way round.
  have hold : ∀ {j a}, (t.overwrite i pkt).slots j = some a → ∃ b, t.slots j = some b ∧ b.timestamp = a.timestamp ∧
      b.buffer = a.buffer ∧ (a.data = b.data ∨ a.data = pkt.data) := by
    intro j a ha
    unfold SlotTable.overwrite at ha
    dsimp only at ha
    by_cases hji : j = i
    · subst hji
      rw [update_self] at ha
      obtain ⟨b, hb, rfl⟩ := Option.map_eq_some_iff.mp ha
      exact ⟨b, hb, rfl, rfl, .inr rfl⟩
    · rw [update_of_ne hji] at ha
      exact ⟨a, ha, rfl, rfl, .inl rfl⟩
  have hnew : ∀ {j b}, t.slots j = some b → ∃ a, (t.overwrite i pkt).slots j = some a ∧ a.buffer = b.buffer := by
    intro j b hb
    unfold SlotTable.overwrite
    by_cases hji : j = i
    · subst hji
      exact ⟨{ b with data := pkt.data, isEC := pkt.isEC }, (update_self _ _ _).trans (by rw [hb, Option.map_some]), rfl⟩
    · exact ⟨b, (update_of_ne hji _ _).trans hb, rfl⟩
  constructor
  case timestamp_inj =>
    intro j k a b ha hb hsame
    obtain ⟨a', ha', hta, -⟩ := hold ha
    obtain ⟨b', hb', htb, -⟩ := hold hb
    exact h.timestamp_inj ha' hb' (by rw [hta, htb, hsame])
  case buffer_inj =>
    intro j k a b ha hb hsame
    obtain ⟨a', ha', -, hba, -⟩ := hold ha
    obtain ⟨b', hb', -, hbb, -⟩ := hold hb
    exact h.buffer_inj ha' hb' (by rw [hba, hbb, hsame])
  case used_iff =>
    intro buffer
    refine (h.used_iff buffer).trans ⟨?_, ?_⟩
    · rintro ⟨j, b, hb, rfl⟩
      obtain ⟨a, ha, hbuf⟩ := hnew hb
      exact ⟨j, a, ha, hbuf⟩
    · rintro ⟨j, a, ha, rfl⟩
      obtain ⟨b, hb, -, hbuf, -⟩ := hold ha
      exact ⟨j, b, hb, hbuf⟩
  case size_le =>
    intro j a ha
    obtain ⟨b, hb, -, -, hdata | hdata⟩ := hold ha
    · rw [hdata]
      exact h.size_le hb
    · rw [hdata]
      exact hsize
  case timestamp_lt =>
    intro j a ha
    obtain ⟨b, hb, hta, -⟩ := hold ha
    rw [← hta]
    exact h.timestamp_lt hb

theorem releaseWhere (h : t.Paired) (p : JitterSlot → Bool) :
    ∃ t', t.releaseWhere p = .ok t' ∧ t'.Paired ∧ ∀ {j a}, t'.slots j = some a → t.slots j = some a := by
  unfold SlotTable.releaseWhere
  induction SlotTable.indices generalizing t with
  | nil => exact ⟨t, rfl, h, id⟩
  | cons i is ih =>
    rw [foldlM_cons]
    by_cases hleave : (t.slots i).any p = true
    · obtain ⟨slot, hslot, -⟩ := (Option.any_eq_true _ _).mp hleave
      obtain ⟨t₁, hrelease, hpaired, hslots⟩ := h.release hslot
      obtain ⟨t', hrest, hpaired', hkeep⟩ := ih hpaired
      refine ⟨t', ?_, hpaired', fun ha => ?_⟩
      · rw [if_pos hleave, hrelease]
        exact hrest
      · have hkept := hkeep ha
        rw [hslots] at hkept
        exact (slots_of_update_none hkept).2
    · obtain ⟨t', hrest, hpaired', hkeep⟩ := ih h
      refine ⟨t', ?_, hpaired', hkeep⟩
      rw [if_neg hleave]
      exact hrest

end Paired

/-! ## The slot to remove -/

theorem foldl_older_ne_none (t : SlotTable) (is : List (Fin jitterSlotCount))
    {best : Option (Fin jitterSlotCount) × UInt32} (h : best.1 ≠ none) : (is.foldl t.older best).1 ≠ none := by
  induction is generalizing best with
  | nil => exact h
  | cons i is ih =>
    refine ih ?_
    unfold older
    split
    · split
      · exact Option.some_ne_none i
      · exact h
    · exact h

theorem foldl_older_eq_none (t : SlotTable) (is : List (Fin jitterSlotCount)) (timestamp : UInt32)
    (h : (is.foldl t.older (none, timestamp)).1 = none) :
    ∀ i ∈ is, ∀ a, t.slots i = some a → ¬a.timestamp < timestamp := by
  induction is with
  | nil => exact fun i hi => nomatch hi
  | cons k is ih =>
    have hfirst : ∀ a, t.slots k = some a → ¬a.timestamp < timestamp := by
      intro a ha hlt
      have hfound : (t.older (none, timestamp) k).1 ≠ none := by
        unfold older
        rw [ha]
        dsimp only
        rw [if_pos hlt]
        exact Option.some_ne_none k
      exact foldl_older_ne_none t is hfound h
    have hsame : t.older (none, timestamp) k = (none, timestamp) := by
      unfold older
      split
      case h_1 slot hslot => exact if_neg (hfirst slot hslot)
      case h_2 => rfl
    rw [foldl_cons, hsame] at h
    exact forall_mem_cons.mpr ⟨hfirst, ih h⟩

theorem foldl_older_of_some (t : SlotTable) (is : List (Fin jitterSlotCount))
    (best : Option (Fin jitterSlotCount) × UInt32) (h : (is.foldl t.older best).1 = some i) :
    best.1 = some i ∨ ∃ a, t.slots i = some a := by
  induction is generalizing best with
  | nil => exact .inl h
  | cons k is ih =>
    rw [foldl_cons] at h
    rcases ih _ h with hbest | hslot
    · unfold older at hbest
      split at hbest
      case h_1 slot hslot =>
        split at hbest
        · exact .inr ⟨slot, Option.some.inj hbest ▸ hslot⟩
        · exact .inl hbest
      case h_2 => exact .inl hbest
    · exact .inr hslot

theorem Paired.toRemove (h : t.Paired) (ha : t.slots i = some a) :
    ∃ j slot, t.toRemove = some j ∧ t.slots j = some slot := by
  unfold SlotTable.toRemove
  cases hfold : (SlotTable.indices.foldl t.older (none, 0xFFFFFFFF)).1 with
  | none =>
    exact absurd (h.timestamp_lt ha) (foldl_older_eq_none t _ _ hfold i (mem_finRange i) a ha)
  | some j =>
    rcases foldl_older_of_some t _ _ hfold with hnone | ⟨slot, hslot⟩
    · cases hnone
    · exact ⟨j, slot, rfl, hslot⟩

/-! ## Searching -/

theorem find_some {timestamp : Int} (h : t.find timestamp = some i) :
    ∃ slot, t.slots i = some slot ∧ (slot.timestamp.toNat : Int) = timestamp := by
  have hany : ((t.slots i).any fun slot => decide ((slot.timestamp.toNat : Int) = timestamp)) = true := by
    simpa using find?_some h
  obtain ⟨slot, hslot, hsame⟩ := (Option.any_eq_true _ _).mp hany
  exact ⟨slot, hslot, of_decide_eq_true hsame⟩

theorem find_none {timestamp : UInt32} (h : t.find timestamp.toNat = none) (ha : t.slots i = some a) :
    a.timestamp ≠ timestamp := by
  intro hsame
  have hnone := find?_eq_none.mp h i (mem_finRange i)
  rw [ha] at hnone
  simp [hsame] at hnone

theorem findFree_some (h : t.findFree = some i) : t.slots i = none := by
  simpa using find?_some h

theorem exists_occupied {maxUsedSlots : Nat} (hmax : 1 ≤ maxUsedSlots)
    (h : ∀ i, t.findFree = some i → maxUsedSlots ≤ t.currentDelay) : ∃ i a, t.slots i = some a := by
  cases hfree : t.findFree with
  | some i =>
    have hpos : 0 < t.currentDelay := lt_of_lt_of_le hmax (h i hfree)
    obtain ⟨j, -, hj⟩ := countP_pos_iff.mp hpos
    exact ⟨j, Option.isSome_iff_exists.mp hj⟩
  | none =>
    have hfull := find?_eq_none.mp hfree 0 (mem_finRange _)
    cases hslot : t.slots 0 with
    | none => simp [hslot] at hfull
    | some a => exact ⟨0, a, hslot⟩

end SlotTable

/-! ## The calls -/

namespace JitterBuffer

/-- The configuration is fixed, and slots and buffers are paired. -/
structure Sound (config : JitterConfig) (b : JitterBuffer) : Prop where
  config_eq : b.config = config
  paired : b.table.Paired

variable {config : JitterConfig} {b : JitterBuffer}

theorem Sound.withTable (h : b.Sound config) {table : SlotTable} (htable : table.Paired) :
    { b with table := table }.Sound config := ⟨h.config_eq, htable⟩

theorem Sound.ite {c : Prop} [Decidable c] {b₁ b₂ : JitterBuffer} (h₁ : b₁.Sound config) (h₂ : b₂.Sound config) :
    (if c then b₁ else b₂).Sound config := by
  split
  · exact h₁
  · exact h₂

theorem Sound.reset (h : b.Sound config) : ∃ b', b.reset = .ok b' ∧ b'.Sound config := by
  obtain ⟨table, hrelease, hpaired, -⟩ := h.paired.releaseWhere fun _ => true
  unfold JitterBuffer.reset
  rw [hrelease]
  exact ⟨_, rfl, h.config_eq, hpaired⟩

theorem Sound.resync (h : b.Sound config) (timestamp : UInt32) : (b.resync timestamp).Sound config := by
  unfold JitterBuffer.resync
  dsimp only
  split <;> exact ⟨h.config_eq, h.paired⟩

@[simp] theorem table_resync (b : JitterBuffer) (timestamp : UInt32) : (b.resync timestamp).table = b.table := by
  unfold resync
  dsimp only
  split <;> rfl

theorem Sound.purge (h : b.Sound config) : ∃ b', b.purge = .ok b' ∧ b'.Sound config ∧
      ∀ {j a}, b'.table.slots j = some a → b.table.slots j = some a := by
  obtain ⟨table, hrelease, hpaired, hkeep⟩ := h.paired.releaseWhere fun slot =>
    decide ((slot.timestamp.toNat : Int) < b.nextTimestamp - 1)
  unfold JitterBuffer.purge
  rw [hrelease]
  exact ⟨_, rfl, h.withTable hpaired, hkeep⟩

theorem Sound.makeRoom (h : b.Sound config) (hmax : 1 ≤ config.maxUsedSlots) :
    ∃ i b', b.makeRoom = .ok (i, b') ∧ b'.Sound config ∧ b'.table.slots i = none ∧
      ∀ {j a}, b'.table.slots j = some a → b.table.slots j = some a := by
  have hevict : (∃ i a, b.table.slots i = some a) → ∃ i table, b.table.toRemove = some i ∧
      b.table.release i = .ok table ∧ Sound config { b.advance with table := table } ∧ table.slots i = none ∧
      ∀ {j a}, table.slots j = some a → b.table.slots j = some a := by
    rintro ⟨i, a, ha⟩
    obtain ⟨j, slot, hremove, hslot⟩ := h.paired.toRemove ha
    obtain ⟨table, hrelease, hpaired, hslots⟩ := h.paired.release hslot
    refine ⟨j, table, hremove, hrelease, ⟨h.config_eq, hpaired⟩, ?_, fun hkept => ?_⟩
    · rw [hslots, update_self]
    · rw [hslots] at hkept
      exact (SlotTable.slots_of_update_none hkept).2
  unfold JitterBuffer.makeRoom
  split
  case h_1 i hfree hdelay => exact ⟨i, b, rfl, h, SlotTable.findFree_some hfree, id⟩
  case h_2 hnot =>
    have hoccupied := SlotTable.exists_occupied (h.config_eq ▸ hmax) fun i hfree => by
      by_contra hdelay
      exact hnot i hfree (decide_eq_false hdelay)
    obtain ⟨i, table, hremove, hrelease, hsound, hfree, hkeep⟩ := hevict hoccupied
    rw [hremove]
    dsimp only
    rw [hrelease]
    exact ⟨i, _, rfl, hsound, hfree, hkeep⟩

variable {pkt : JitterPacket}

section
variable (h : b.Sound config)
include h

theorem Sound.insert (hmax : 1 ≤ config.maxUsedSlots)
    (hnew : ∀ j a, b.table.slots j = some a → a.timestamp ≠ pkt.timestamp) (hsize : pkt.data.length ≤ jitterSlotSize)
    (hts : pkt.timestamp < 0xFFFFFFFF) : ∃ b', b.insert pkt = .ok b' ∧ b'.Sound config := by
  have h₁ : Sound config { b with
      lastPutTimestamp := if b.lastPutTimestamp < pkt.timestamp then pkt.timestamp else b.lastPutTimestamp } :=
    ⟨h.config_eq, h.paired⟩
  obtain ⟨i, b₂, hroom, h₂, hfree, hkeep⟩ := h₁.makeRoom hmax
  obtain ⟨table, hoccupy, hpaired, -⟩ :=
    h₂.paired.occupy hfree (fun j a ha => hnew j a (hkeep ha)) hsize hts
  unfold JitterBuffer.insert
  dsimp only
  rw [hroom]
  dsimp only [bind, Except.bind]
  rw [hoccupy]
  exact ⟨_, rfl, h₂.withTable hpaired⟩

theorem Sound.putInternal (hmax : 1 ≤ config.maxUsedSlots) (hts : pkt.timestamp < 0xFFFFFFFF)
    (overwriteExisting : Bool) : ∃ b', b.putInternal pkt overwriteExisting = .ok b' ∧ b'.Sound config := by
  unfold JitterBuffer.putInternal
  split
  case isTrue => exact ⟨b, rfl, h⟩
  case isFalse hfits =>
    have hsize := Nat.not_lt.mp hfits
    split
    case h_1 i hfind =>
      refine ⟨_, rfl, ?_⟩
      cases overwriteExisting with
      | true => exact h.withTable (h.paired.overwrite i hsize)
      | false => exact h
    case h_2 hfind =>
      obtain ⟨b₁, hpurge, h₁, hkeep⟩ := (h.resync pkt.timestamp).purge
      have hnew : ∀ j a, b₁.table.slots j = some a → a.timestamp ≠ pkt.timestamp := fun j a ha =>
        SlotTable.find_none hfind (by simpa using hkeep ha)
      rw [hpurge]
      dsimp only [bind, Except.bind]
      split
      · have hlate : Sound config
            { b₁ with latePacketCount := b₁.latePacketCount + 1, lostPackets := b₁.lostPackets - 1 } :=
          ⟨h₁.config_eq, h₁.paired⟩
        exact hlate.insert hmax hnew hsize hts
      split
      · exact ⟨_, rfl, h₁.config_eq, h₁.paired⟩
      · exact h₁.insert hmax hnew hsize hts

theorem Sound.miss (offset : Int) : ∃ b', b.miss offset = .ok b' ∧ b'.Sound config := by
  have hcounted : (b.countLoss offset).Sound config := ⟨h.config_eq, h.paired⟩
  unfold JitterBuffer.miss
  split
  · exact Sound.reset ⟨hcounted.config_eq, hcounted.paired⟩
  · exact ⟨_, rfl, hcounted⟩

theorem Sound.getInternal (offset : Int) (advance : Bool) :
    ∃ result b', b.getInternal offset advance = .ok (result, b') ∧ b'.Sound config := by
  unfold JitterBuffer.getInternal
  split
  case h_1 i hfind =>
    obtain ⟨slot, hslot, -⟩ := SlotTable.find_some hfind
    obtain ⟨table, hrelease, hpaired, -⟩ := h.paired.release hslot
    rw [hrelease, hslot]
    refine ⟨_, _, rfl, ?_⟩
    split <;> exact ⟨h.config_eq, hpaired⟩
  case h_2 hfind =>
    have hadvanced : Sound config (if advance = true then b.advance else b) := by
      split
      · exact ⟨h.config_eq, h.paired⟩
      · exact h
    dsimp only
    generalize (if advance = true then b.advance else b) = b₁ at hadvanced
    split
    · exact ⟨_, _, rfl, hadvanced⟩
    · obtain ⟨b', hmiss, hsound⟩ := hadvanced.miss offset
      rw [hmiss]
      exact ⟨_, _, rfl, hsound⟩

theorem Sound.handleOutput (len : Nat) (offsetInSteps : Int) (advance : Bool) :
    ∃ output b', b.handleOutput len offsetInSteps advance = .ok (output, b') ∧ b'.Sound config := by
  obtain ⟨result, b₁, hget, h₁⟩ := h.getInternal offsetInSteps advance
  unfold JitterBuffer.handleOutput
  rw [hget]
  dsimp only [bind, Except.bind]
  cases result with
  | ok pkt =>
    dsimp only
    split <;> exact ⟨_, _, rfl, h₁.config_eq, h₁.paired⟩
  | missing | buffering => exact ⟨_, _, rfl, h₁.config_eq, h₁.paired⟩

theorem Sound.followDeviation (stddevDelay : Nat) : (b.followDeviation stddevDelay).Sound config := by
  exact Sound.ite ⟨h.config_eq, h.paired⟩ ⟨h.config_eq, h.paired⟩

theorem Sound.tick (stddevDelay : Nat) : (b.tick stddevDelay).Sound config := by
  have hshifted : b.shiftHistories.Sound config := ⟨h.config_eq, h.paired⟩
  have hdeviation := hshifted.followDeviation stddevDelay
  exact ⟨hdeviation.config_eq, hdeviation.paired⟩

end

theorem sound_init (config : JitterConfig) (nextTimestamp : Int) (latePacketCount : Nat) :
    (init config nextTimestamp latePacketCount).Sound config := ⟨rfl, SlotTable.paired_empty⟩

end JitterBuffer

/-- Timestamps are below `0xFFFFFFFF`. -/
def JitterEvent.Valid : JitterEvent → Prop
  | .handleInput pkt => pkt.timestamp < 0xFFFFFFFF
  | _ => True

instance : (event : JitterEvent) → Decidable event.Valid
  | .handleInput pkt => inferInstanceAs (Decidable (pkt.timestamp < 0xFFFFFFFF))
  | .handleOutput _ _ _ | .reset | .tick _ | .setMinPacketCount _ => isTrue trivial

variable {config : JitterConfig} {b : JitterBuffer}

/-- No call aborts, and every call keeps slots and buffers paired. -/
theorem JitterBuffer.Sound.step (h : b.Sound config) (hmax : 1 ≤ config.maxUsedSlots) {event : JitterEvent}
    (hvalid : event.Valid) : ∃ b', stepJitter b event = .ok b' ∧ b'.Sound config := by
  cases event with
  | handleInput pkt => exact h.putInternal hmax hvalid _
  | handleOutput len offsetInSteps advance =>
    obtain ⟨output, b', houtput, hsound⟩ := h.handleOutput len offsetInSteps advance
    exact ⟨b', by rw [stepJitter, houtput]; rfl, hsound⟩
  | reset => exact h.reset
  | tick stddevDelay => exact ⟨_, rfl, h.tick stddevDelay⟩
  | setMinPacketCount count => exact ⟨_, rfl, h.config_eq, h.paired⟩

theorem JitterBuffer.Sound.run (h : b.Sound config) (hmax : 1 ≤ config.maxUsedSlots) {events : List JitterEvent}
    (hvalid : ∀ event ∈ events, event.Valid) : ∃ b', events.foldlM stepJitter b = .ok b' ∧ b'.Sound config := by
  induction events generalizing b with
  | nil => exact ⟨b, rfl, h⟩
  | cons event events ih =>
    obtain ⟨hev, hrest⟩ := forall_mem_cons.mp hvalid
    obtain ⟨b₁, hstep, h₁⟩ := h.step hmax hev
    obtain ⟨b', hrun, hsound⟩ := ih h₁ hrest
    exact ⟨b', by rw [foldlM_cons, hstep]; exact hrun, hsound⟩

/-- After any calls the occupied slots have timestamps and buffers of their own, the used buffers of the pool are those of
the slots, and no size is above that of a slot. No call has given back a buffer that is not of the pool, looked for a slot
to remove in vain or been refused a buffer. -/
theorem jitter_paired (config : JitterConfig) (hmax : 1 ≤ config.maxUsedSlots) (nextTimestamp : Int)
    (latePacketCount : Nat) (events : List JitterEvent) (hvalid : ∀ event ∈ events, event.Valid) :
    ∃ b, events.foldlM stepJitter (JitterBuffer.init config nextTimestamp latePacketCount) = .ok b ∧ b.table.Paired := by
  obtain ⟨b, hrun, hsound⟩ := (JitterBuffer.sound_init config nextTimestamp latePacketCount).run hmax hvalid
  exact ⟨b, hrun, hsound.paired⟩

def defaultConfig (step : Nat) : JitterConfig := .ofServer (fun _ value => value) (fun _ value => value) step

theorem one_le_maxUsedSlots_defaultConfig (step : Nat) : 1 ≤ (defaultConfig step).maxUsedSlots := by
  unfold defaultConfig JitterConfig.ofServer
  dsimp only
  split
  · decide
  · split <;> decide

/-- Frames in two orders, a frame that is replaced, one that is played, and a reset. -/
theorem jitter_paired_calls :
    ∃ b, [.handleInput ⟨[1], 60, false⟩, .handleInput ⟨[2], 0, true⟩, .handleInput ⟨[3], 60, false⟩, .tick 3,
        .handleOutput 960 0 true, .reset].foldlM stepJitter (JitterBuffer.init (defaultConfig 60) 0 0) = .ok b ∧
      b.table.Paired :=
  jitter_paired (defaultConfig 60) (one_le_maxUsedSlots_defaultConfig 60) 0 0 _ (by decide +kernel)

end TelegramClient.VoIP
