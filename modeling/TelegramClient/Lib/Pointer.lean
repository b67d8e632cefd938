import TelegramClient.Lib.Bytes

/-!
# Reading memory through pointers

A block of memory is a byte string, a pointer an offset into it, and reads outside the block have no result.

* `bytesAt`, `strlen` : reads;
* `HoldsAt data ptr x` : the bytes `x` stand at `ptr` (`holdsAt_append`: what stands there piece by piece).
-/

namespace TelegramClient
open List

/-- The `n` bytes at `ptr`. -/
def bytesAt (data : Bytes) (ptr n : Nat) : Option Bytes :=
  if ptr + n ≤ data.length then some (slice data ptr n) else none

/-- The length of the string at `ptr`, which ends before a zero byte. -/
def strlen (data : Bytes) (ptr : Nat) : Option Nat := (data.drop ptr).findIdx? (· == 0)

/-- The bytes `x` stand at `ptr`. -/
def HoldsAt (data : Bytes) (ptr : Nat) (x : Bytes) : Prop :=
  ∃ before after, data = before ++ (x ++ after) ∧ before.length = ptr

theorem holdsAt_zero (data : Bytes) : HoldsAt data 0 data := ⟨[], [], by simp, rfl⟩

variable {data : Bytes} {ptr : Nat} {x : Bytes}

/-- **What stands at a pointer, piece by piece.** -/
theorem holdsAt_append {y : Bytes} :
    HoldsAt data ptr (x ++ y) ↔ HoldsAt data ptr x ∧ HoldsAt data (ptr + x.length) y := by
  constructor
  · rintro ⟨before, after, rfl, rfl⟩
    refine ⟨⟨before, y ++ after, by simp, rfl⟩, ⟨before ++ x, after, by simp, by simp⟩⟩
  · rintro ⟨⟨before, after, rfl, rfl⟩, ⟨before', after', hdata, hlen⟩⟩
    have hbefore : before ++ x = before' := by
      have hsplit : before ++ x ++ after = before' ++ (y ++ after') := by rw [append_assoc, hdata]
      exact append_inj_left hsplit (by simp [hlen])
    subst hbefore
    rw [append_assoc, append_cancel_left_eq, append_cancel_left_eq] at hdata
    exact ⟨before, after', by rw [hdata, append_assoc], rfl⟩

theorem HoldsAt.le (h : HoldsAt data ptr x) : ptr + x.length ≤ data.length := by
  obtain ⟨before, after, rfl, rfl⟩ := h
  simp

theorem HoldsAt.bytesAt (h : HoldsAt data ptr x) : bytesAt data ptr x.length = some x := by
  rw [TelegramClient.bytesAt, if_pos h.le]
  obtain ⟨before, after, rfl, rfl⟩ := h
  rw [← append_assoc, slice_append_middle]

theorem HoldsAt.getElem {b : UInt8} (h : HoldsAt data ptr (b :: x)) : data[ptr]? = some b := by
  obtain ⟨before, after, rfl, rfl⟩ := h
  simp

theorem HoldsAt.tail {b : UInt8} (h : HoldsAt data ptr (b :: x)) : HoldsAt data (ptr + 1) x :=
  (holdsAt_append (x := [b]).mp h).2

theorem HoldsAt.strlen (h : HoldsAt data ptr (x ++ [0])) (hx : (0 : UInt8) ∉ x) : strlen data ptr = some x.length := by
  obtain ⟨before, after, rfl, rfl⟩ := h
  rw [TelegramClient.strlen, drop_left, findIdx?_eq_some_iff_getElem]
  refine ⟨by simp, by simp, ?_⟩
  intro j hj
  have hm : x[j] ∈ x := getElem_mem hj
  simp only [append_assoc, getElem_append_left hj, beq_iff_eq]
  intro hzero
  exact hx (hzero ▸ hm)

end TelegramClient
