import TelegramClient.Lib.Bytes

/-!
# Machines that read by exact lengths

A machine asks its socket for a number of bytes, gets exactly these in one piece, and asks again.

* `serve` : answer the reads for which the buffered bytes suffice, and keep the rest;
* `serve_append` : what is served does not depend on when the bytes came;
* `foldl_receive` : **a stream may be cut into pieces anywhere**.
-/

namespace TelegramClient
open List

/-- A machine over states `σ`: the length of the read that is pending, and what its answer does. -/
structure ExactReader (σ : Type) where
  pending : σ → Option Nat
  deliver : σ → Bytes → σ

namespace ExactReader
variable {σ : Type} (m : ExactReader σ)

/-- Answer the pending reads from the buffer. A read of length zero is never answered. -/
def serve (s : σ) (buffer : Bytes) : σ × Bytes :=
  match m.pending s with
  | none => (s, buffer)
  | some n =>
    if 0 < n ∧ n ≤ buffer.length then serve (m.deliver s (buffer.take n)) (buffer.drop n) else (s, buffer)
termination_by buffer.length
decreasing_by
  rw [length_drop]
  omega

variable {m}

variable {s : σ} {n : Nat} {buffer : Bytes}

theorem serve_of_le (hpend : m.pending s = some n) (hn : 0 < n) (hlen : n ≤ buffer.length) :
    m.serve s buffer = m.serve (m.deliver s (buffer.take n)) (buffer.drop n) := by
  rw [serve, hpend]
  exact if_pos ⟨hn, hlen⟩

theorem serve_of_lt (hpend : m.pending s = some n) (hlen : buffer.length < n) : m.serve s buffer = (s, buffer) := by
  rw [serve, hpend]
  exact if_neg (by omega)

theorem serve_front {front : Bytes} (rest : Bytes) (hpend : m.pending s = some n) (hn : 0 < n)
    (hlen : front.length = n) : m.serve s (front ++ rest) = m.serve (m.deliver s front) rest := by
  rw [serve_of_le hpend hn (by rw [length_append]; omega), ← hlen, take_left, drop_left]

theorem serve_append (s : σ) (a b : Bytes) : m.serve s (a ++ b) = m.serve (m.serve s a).1 ((m.serve s a).2 ++ b) := by
  fun_induction serve m s a with
  | case1 s a hpend => rfl
  | case2 s a n hpend h ih =>
    rw [serve_of_le hpend h.1 (by rw [length_append]; omega), take_append_of_le_length h.2,
      drop_append_of_le_length h.2]
    exact ih
  | case3 s a n hpend h => rfl

variable (m)

def receive (socket : σ × Bytes) (chunk : Bytes) : σ × Bytes := m.serve socket.1 (socket.2 ++ chunk)

variable {m}

theorem foldl_receive (s : σ) (buffer : Bytes) (chunks : List Bytes) :
    chunks.foldl m.receive (m.serve s buffer) = m.serve s (buffer ++ chunks.flatten) := by
  induction chunks generalizing buffer with
  | nil => rw [foldl_nil, flatten_nil, append_nil]
  | cons chunk chunks ih =>
    rw [foldl_cons, flatten_cons, ← append_assoc, ← ih, receive, ← serve_append]

end ExactReader

end TelegramClient
