import TelegramClient.Lib.Bytes

/-!
# Writers into a buffer of a fixed size

A writer (`WriteM`) adds bytes to what is in the buffer, or ends in a `WriteFault`.

* `Writes size p x` : as long as there is room for it, `p` adds exactly `x` (`Writes.bind`, `Writes.forM`).
-/

namespace TelegramClient
open List

inductive WriteFault where
  /-- The buffer is full. -/
  | outOfRange
  | assertion
deriving DecidableEq

abbrev WriteM := StateT Bytes (Except WriteFault)

def write (size : Nat) (bytes : Bytes) : WriteM Unit := fun buffer =>
  if size < buffer.length + bytes.length then .error .outOfRange else .ok ((), buffer ++ bytes)

def WriteM.assert (condition : Bool) : WriteM Unit := fun buffer =>
  if condition then .ok ((), buffer) else .error .assertion

/-- `p` adds exactly `x`. -/
def Writes (size : Nat) (p : WriteM Unit) (x : Bytes) : Prop :=
  ∀ buffer : Bytes, buffer.length + x.length ≤ size → p.run buffer = .ok ((), buffer ++ x)

theorem writes_write (size : Nat) (x : Bytes) : Writes size (write size x) x := fun _ hroom =>
  if_neg (Nat.not_lt.mpr hroom)

theorem Writes.pure (size : Nat) : Writes size (pure ()) [] := fun buffer _ =>
  congrArg (fun bytes => Except.ok ((), bytes)) (append_nil buffer).symm

theorem writes_assert {size : Nat} {condition : Bool} (h : condition = true) :
    Writes size (WriteM.assert condition) [] := by
  intro buffer _
  rw [h, append_nil]
  rfl

theorem Writes.bind {size : Nat} {p q : WriteM Unit} {x y : Bytes} (hp : Writes size p x) (hq : Writes size q y) :
    Writes size (p >>= fun _ => q) (x ++ y) := by
  intro buffer hroom
  rw [length_append] at hroom
  have hq' := hq (buffer ++ x) (by rw [length_append]; omega)
  rw [StateT.run_bind, hp buffer (by omega)]
  rw [append_assoc] at hq'
  exact hq'

theorem Writes.forM {α : Type} {size : Nat} {p : α → WriteM Unit} {e : α → Bytes} (as : List α)
    (h : ∀ a ∈ as, Writes size (p a) (e a)) : Writes size (as.forM p) (as.flatMap e) := by
  induction as with
  | nil => exact Writes.pure size
  | cons a as ih =>
    have ha := h a mem_cons_self
    have has := ih fun b hb => h b (mem_cons_of_mem a hb)
    exact ha.bind has

end TelegramClient
