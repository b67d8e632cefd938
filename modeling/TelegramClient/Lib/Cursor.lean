import TelegramClient.Lib.Bytes

/-!
# Parsers over a byte string with an offset

A parser (`ReadM`) moves an offset over a fixed byte string. It ends in a value, in `Fault.failed` (the
caller is told that there is nothing to read) or in `Fault.raised` (an exception or a memory fault: the
caller is not told anything). Three relations say what a parser does, and each is proved for a compound
parser from its parts:

* `Reads p x a` : wherever `x` stands in a byte string, `p` consumes exactly `x` and returns `a`
  (`Reads.bind`, `Reads.repeatM`);
* `Yields p Q` : what `p` returns satisfies `Q` (`Yields.bind`, `Yields.pure`);
* `Stable p` : when `p` succeeds it does so from the bytes it consumed, so that bytes added at the end
  change nothing (`Stable.bind`, `Stable.repeatM`).
-/

namespace TelegramClient
open List

/-- A byte string and the offset up to which it is read. -/
structure Cursor where
  data : Bytes
  offset : Nat
deriving DecidableEq

inductive Fault where
  | failed
  | raised
deriving DecidableEq

abbrev ReadM := StateT Cursor (Except Fault)

def addressSpace : Nat := 2 ^ 64

variable {α β : Type}

def ReadM.fail : ReadM α := fun _ => .error .failed

def ReadM.raise : ReadM α := fun _ => .error .raised

/-- Run `p` for `n` rounds and collect what it returns. -/
def repeatM : Nat → ReadM α → ReadM (List α)
  | 0, _ => pure []
  | n + 1, p => do
    let a ← p
    let as ← repeatM n p
    return a :: as

/-! ## Running a compound parser -/

variable {p : ReadM α} {c : Cursor} {a : α}

theorem run_bind_of_ok {c' : Cursor} (q : α → ReadM β) (h : p.run c = .ok (a, c')) :
    (p >>= q).run c = (q a).run c' := by
  rw [StateT.run_bind, h]
  rfl

theorem run_bind_of_error {e : Fault} (q : α → ReadM β) (h : p.run c = .error e) : (p >>= q).run c = .error e := by
  rw [StateT.run_bind, h]
  rfl

variable {q : α → ReadM β}

theorem run_bind_ok {r : β × Cursor} (h : (p >>= q).run c = .ok r) :
    ∃ a c', p.run c = .ok (a, c') ∧ (q a).run c' = .ok r := by
  cases hp : p.run c with
  | error e =>
    rw [run_bind_of_error q hp] at h
    cases h
  | ok ac =>
    rw [run_bind_of_ok q hp] at h
    exact ⟨ac.1, ac.2, rfl, h⟩

/-! ## Reading a given string -/

/-- Wherever `x` stands, `p` consumes exactly `x` and returns `a`. -/
def Reads (p : ReadM α) (x : Bytes) (a : α) : Prop :=
  ∀ pre rest : Bytes, pre.length + x.length < addressSpace →
    p.run ⟨pre ++ (x ++ rest), pre.length⟩ = .ok (a, ⟨pre ++ (x ++ rest), pre.length + x.length⟩)

theorem Reads.pure (a : α) : Reads (pure a) [] a := fun _ _ _ => rfl

variable {x : Bytes}

theorem Reads.bind {y : Bytes} {b : β} (hp : Reads p x a) (hq : Reads (q a) y b) : Reads (p >>= q) (x ++ y) b := by
  intro pre rest hlen
  rw [length_append] at hlen ⊢
  have h1 := hp pre (y ++ rest) (by omega)
  have h2 := hq (pre ++ x) rest (by rw [length_append]; omega)
  rw [length_append, append_assoc] at h2
  rw [append_assoc, run_bind_of_ok q h1, h2, Nat.add_assoc]

theorem Reads.bind_pure (hp : Reads p x a) (f : α → β) : Reads (p >>= fun v => Pure.pure (f v)) x (f a) := by
  have h := hp.bind (q := fun v => Pure.pure (f v)) (Reads.pure (f a))
  rwa [append_nil] at h

theorem Reads.repeatM {e : α → Bytes} : ∀ as : List α, (∀ a ∈ as, Reads p (e a) a) →
      Reads (TelegramClient.repeatM as.length p) (as.flatMap e) as
  | [], _ => Reads.pure []
  | a :: as, h => by
      have ha : Reads p (e a) a := h a mem_cons_self
      have has := Reads.repeatM as fun b hb => h b (mem_cons_of_mem a hb)
      rw [flatMap_cons, length_cons]
      exact ha.bind (has.bind_pure fun bs => a :: bs)

theorem Reads.run (h : Reads p x a) (rest : Bytes) (hlen : x.length < addressSpace) :
    p.run ⟨x ++ rest, 0⟩ = .ok (a, ⟨x ++ rest, x.length⟩) := by
  have h0 := h [] rest (by simpa using hlen)
  simpa using h0

/-! ## What is returned -/

/-- Every value that `p` returns satisfies `Q`. -/
def Yields (p : ReadM α) (Q : α → Prop) : Prop := ∀ (c : Cursor) (a : α) (c' : Cursor), p.run c = .ok (a, c') → Q a

variable {Q : α → Prop}

theorem Yields.pure (h : Q a) : Yields (Pure.pure a) Q := by
  intro c b c' hrun
  cases hrun
  exact h

theorem Yields.fail : Yields ReadM.fail Q := fun _ _ _ h => nomatch h

theorem Yields.bind_of {P : α → Prop} {Q : β → Prop} (hp : Yields p P) (hq : ∀ a, P a → Yields (q a) Q) :
    Yields (p >>= q) Q := by
  intro c b c' h
  obtain ⟨a, c1, h1, h2⟩ := run_bind_ok h
  exact hq a (hp c a c1 h1) c1 b c' h2

theorem Yields.bind {Q : β → Prop} (hq : ∀ a, Yields (q a) Q) : Yields (p >>= q) Q :=
  Yields.bind_of (P := fun _ => True) (fun _ _ _ _ => trivial) fun a _ => hq a

theorem Yields.ite {q : ReadM α} {P : Prop} [Decidable P] (hp : Yields p Q) (hq : Yields q Q) :
    Yields (if P then p else q) Q := by
  split
  · exact hp
  · exact hq

/-! ## Success that does not depend on what follows -/

/-- A success of `p` leaves the string alone and stays the same when bytes are added at its end. -/
def Stable (p : ReadM α) : Prop :=
  ∀ (c : Cursor) (a : α) (c' : Cursor), p.run c = .ok (a, c') →
    c'.data = c.data ∧
      ∀ pad : Bytes, p.run ⟨c.data ++ pad, c.offset⟩ = .ok (a, ⟨c.data ++ pad, c'.offset⟩)

theorem Stable.pure (a : α) : Stable (pure a : ReadM α) := by
  intro c b c' h
  cases h
  exact ⟨rfl, fun _ => rfl⟩

theorem Stable.fail : Stable (ReadM.fail : ReadM α) := fun _ _ _ h => nomatch h

theorem Stable.raise : Stable (ReadM.raise : ReadM α) := fun _ _ _ h => nomatch h

theorem Stable.bind (hp : Stable p) (hq : ∀ a, Stable (q a)) : Stable (p >>= q) := by
  intro c b c' h
  obtain ⟨a, c1, h1, h2⟩ := run_bind_ok h
  obtain ⟨hd1, hs1⟩ := hp c a c1 h1
  obtain ⟨hd2, hs2⟩ := hq a c1 b c' h2
  refine ⟨hd2.trans hd1, fun pad => ?_⟩
  have hs2' := hs2 pad
  rw [hd1] at hs2'
  rw [run_bind_of_ok q (hs1 pad), hs2']

theorem Stable.ite {q : ReadM α} {P : Prop} [Decidable P] (hp : Stable p) (hq : Stable q) :
    Stable (if P then p else q) := by
  split
  · exact hp
  · exact hq

theorem Stable.repeatM (hp : Stable p) : ∀ n, Stable (TelegramClient.repeatM n p)
  | 0 => Stable.pure []
  | n + 1 => hp.bind fun _ => (Stable.repeatM hp n).bind fun _ => Stable.pure _

end TelegramClient
