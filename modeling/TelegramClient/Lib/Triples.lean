/-!
# Triples for programs with exceptions that keep the state

A program of `ExceptT ε (StateM σ)` ends in a value or in an exception, and in a state in both cases.

* `Triple P m Q E` : from a state with `P` the program ends in a value with `Q` or in an exception with `E`;
* `Keeps I F m` : `I` is kept, and every exception satisfies `F`;
* `Triple.bind`, `Keeps.bind` and the others : a compound program from its parts.
-/

namespace TelegramClient

variable {ε σ α β : Type}

theorem except_bind_ok {x : Except ε α} {f : α → Except ε β} {b : β} (h : x >>= f = .ok b) :
    ∃ a, x = .ok a ∧ f a = .ok b := by
  cases x with
  | error e => cases h
  | ok a => exact ⟨a, rfl, h⟩

def runIn (m : ExceptT ε (StateM σ) α) (s : σ) : Except ε α × σ := StateT.run (ExceptT.run m) s

theorem runIn_bind (m : ExceptT ε (StateM σ) α) (f : α → ExceptT ε (StateM σ) β) (s : σ) :
    runIn (m >>= f) s =
      match runIn m s with
      | (.ok a, s') => runIn (f a) s'
      | (.error e, s') => (.error e, s') := by
  have hrun : runIn (m >>= f) s =
      match runIn m s with
      | (r, s') => StateT.run (ExceptT.bindCont f r) s' := rfl
  rw [hrun]
  rcases runIn m s with ⟨r, s'⟩
  cases r with
  | ok a | error e => rfl

/-- From a state with `P` the program ends in a value with `Q`, or in an exception with `E`. -/
def Triple (P : σ → Prop) (m : ExceptT ε (StateM σ) α) (Q : α → σ → Prop) (E : ε → σ → Prop) : Prop :=
  ∀ s, P s →
    match runIn m s with
    | (.ok a, s') => Q a s'
    | (.error e, s') => E e s'

namespace Triple

variable {P P' : σ → Prop} {Q Q' R : α → σ → Prop} {E E' : ε → σ → Prop}

theorem pure {a : α} (h : ∀ s, P s → Q a s) : Triple P (Pure.pure a : ExceptT ε (StateM σ) α) Q E :=
  fun s hs => h s hs

theorem bind {m : ExceptT ε (StateM σ) α} {f : α → ExceptT ε (StateM σ) β} {Q : β → σ → Prop} (hm : Triple P m R E)
    (hf : ∀ a, Triple (R a) (f a) Q E) : Triple P (m >>= f) Q E := by
  intro s hs
  have hfirst := hm s hs
  rw [runIn_bind]
  rcases hrun : runIn m s with ⟨a | a, s'⟩
  · rw [hrun] at hfirst
    exact hfirst
  · rw [hrun] at hfirst
    exact hf a s' hfirst

theorem throw {e : ε} (h : ∀ s, P s → E e s) : Triple P (throw e : ExceptT ε (StateM σ) α) Q E := fun s hs => h s hs

theorem conseq {m : ExceptT ε (StateM σ) α} (h : Triple P m Q E) (hP : ∀ s, P' s → P s) (hQ : ∀ a s, Q a s → Q' a s)
    (hE : ∀ e s, E e s → E' e s) : Triple P' m Q' E' := by
  intro s hs
  have hm := h s (hP s hs)
  rcases hrun : runIn m s with ⟨a | a, s'⟩
  · rw [hrun] at hm
    exact hE a s' hm
  · rw [hrun] at hm
    exact hQ a s' hm

end Triple

/-- The program keeps `I`, and its exceptions satisfy `F`. -/
def Keeps (I : σ → Prop) (F : ε → Prop) (m : ExceptT ε (StateM σ) α) : Prop :=
  Triple I m (fun _ => I) fun e s => F e ∧ I s

namespace Keeps

variable {I : σ → Prop} {F : ε → Prop}

theorem pure (a : α) : Keeps I F (Pure.pure a : ExceptT ε (StateM σ) α) := Triple.pure fun _ hs => hs

theorem bind {m : ExceptT ε (StateM σ) α} {f : α → ExceptT ε (StateM σ) β} (hm : Keeps I F m)
    (hf : ∀ a, Keeps I F (f a)) : Keeps I F (m >>= f) := Triple.bind hm hf

theorem throw {e : ε} (h : F e) : Keeps I F (throw e : ExceptT ε (StateM σ) α) := Triple.throw fun _ hs => ⟨h, hs⟩

theorem get : Keeps I F (MonadState.get : ExceptT ε (StateM σ) σ) := fun _ hs => hs

theorem modify {f : σ → σ} (h : ∀ s, I s → I (f s)) : Keeps I F (modify f : ExceptT ε (StateM σ) PUnit) :=
  fun s hs => h s hs

theorem ite {c : Prop} [Decidable c] {m m' : ExceptT ε (StateM σ) α} (hm : Keeps I F m) (hm' : Keeps I F m') :
    Keeps I F (if c then m else m') := by
  split
  · exact hm
  · exact hm'

end Keeps

end TelegramClient
