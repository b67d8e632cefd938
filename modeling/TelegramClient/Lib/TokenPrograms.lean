import Mathlib.Data.List.Basic

/-!
# Programs that hand tokens on

Threads take tokens from a pool and put messages that may carry a token into a queue. A program is the part of a thread
that is still to come. It reads views of what the threads share, and nothing is known about the views of different reads.

* `TokenProgram`, `TokenThread` : programs, and what a thread has taken and not put;
* `Balanced carries held program` : a thread that holds `held` puts every token in a message, and never has two;
* `exists_split` : one thread of many takes a step.
-/

namespace TelegramClient

/-- `ν` are views, `τ` are tokens, and `μ` are messages. -/
inductive TokenProgram (ν τ μ : Type) where
  | done
  /-- An exception. -/
  | raise
  | read (next : ν → TokenProgram ν τ μ)
  /-- There may be no token. -/
  | get (next : Option τ → TokenProgram ν τ μ)
  | put (message : μ) (next : TokenProgram ν τ μ)

structure TokenThread (ν τ μ : Type) where
  program : TokenProgram ν τ μ
  held : List τ

namespace TokenProgram

variable {ν τ μ : Type} (carries : μ → Option τ)

/-- A thread with this program loses no token, whatever it reads and gets. -/
def Balanced : List τ → TokenProgram ν τ μ → Prop
  | held, .done => held = []
  | held, .raise => held = []
  | held, .read next => ∀ view, Balanced held (next view)
  | held, .get next => held = [] ∧ Balanced [] (next none) ∧ ∀ token, Balanced [token] (next (some token))
  | held, .put message next => (∃ token, held = [token] ∧ carries message = some token) ∧ Balanced [] next

variable {carries} {held : List τ}

theorem balanced_readIf {c : ν → Prop} [∀ v, Decidable (c v)] {a b : TokenProgram ν τ μ}
    (ha : Balanced carries held a) (hb : Balanced carries held b) :
    Balanced carries held (.read fun v => if c v then a else b) := by
  intro v
  dsimp only
  split
  · exact ha
  · exact hb

theorem balanced_foldr {α : Type} {body : α → TokenProgram ν τ μ → TokenProgram ν τ μ} {l : List α}
    (hbody : ∀ a ∈ l, ∀ next, Balanced carries [] next → Balanced carries [] (body a next))
    {next : TokenProgram ν τ μ} (hnext : Balanced carries [] next) : Balanced carries [] (l.foldr body next) := by
  induction l with
  | nil => exact hnext
  | cons a l ih =>
    have hl := ih fun b hb => hbody b (List.mem_cons_of_mem a hb)
    exact hbody a List.mem_cons_self _ hl

end TokenProgram

theorem exists_split {α : Type} {l : List α} {i : Nat} {a : α} (h : l[i]? = some a) :
    ∃ before after, l = before ++ a :: after ∧ (∀ b, l.set i b = before ++ b :: after) ∧
      l.eraseIdx i = before ++ after := by
  obtain ⟨hi, rfl⟩ := List.getElem?_eq_some_iff.mp h
  refine ⟨l.take i, l.drop (i + 1), ?_, fun b => List.set_eq_take_append_cons_drop.trans (if_pos hi), ?_⟩
  · exact (List.take_append_drop i l).symm.trans (congrArg _ (List.drop_eq_getElem_cons hi))
  · exact List.eraseIdx_eq_take_drop_succ l i

end TelegramClient
