import Mathlib.Data.List.Basic

/-!
# What a stateful program does to its state

A program (`EStateM`) ends in a value or in an exception, and in both cases in a state, `finalState`.
`Relates R x` says that every run of `x` ends in a state that is `R`-related to the one it began in, whether it ended
in a value or not. For a reflexive and transitive `R` it is proved for a compound program from its parts:

* `Relates.bind`, `Relates.ite`, `Relates.forM` : the rules for compound programs;
* `finalState_bind` : the general case, where what comes later depends on what came before;
* `Preserves` : an invariant is such a relation, so that the same rules carry it through a run.
-/

namespace TelegramClient

variable {ε σ α β : Type}

def finalState (x : EStateM ε σ α) (s : σ) : σ :=
  match x s with
  | .ok _ s' => s'
  | .error _ s' => s'

theorem get_bind_apply (f : σ → EStateM ε σ α) (s : σ) : (get >>= f) s = f s s := rfl

theorem finalState_get_bind (f : σ → EStateM ε σ α) (s : σ) : finalState (get >>= f) s = finalState (f s) s := rfl

theorem bind_apply (x : EStateM ε σ α) (f : α → EStateM ε σ β) (s : σ) :
    (x >>= f) s = match x s with
      | .ok a s' => f a s'
      | .error e s' => .error e s' := rfl

theorem finalState_bind (x : EStateM ε σ α) (f : α → EStateM ε σ β) (s : σ) :
    (∃ e, x s = .error e (finalState x s) ∧ finalState (x >>= f) s = finalState x s) ∨
      ∃ a, x s = .ok a (finalState x s) ∧ finalState (x >>= f) s = finalState (f a) (finalState x s) := by
  unfold finalState
  rw [bind_apply]
  cases h : x s with
  | ok a s' => exact .inr ⟨a, rfl, rfl⟩
  | error e s' => exact .inl ⟨e, rfl, rfl⟩

variable {x : EStateM ε σ α} {f : α → EStateM ε σ β} {s s' : σ} {a : α}

theorem bind_of_ok (h : x s = .ok a s') : (x >>= f) s = f a s' := by
  rw [bind_apply, h]

theorem finalState_of_ok (h : x s = .ok a s') : finalState x s = s' := by
  unfold finalState
  rw [h]

theorem finalState_bind_of_ok (h : x s = .ok a s') : finalState (x >>= f) s = finalState (f a) s' := by
  unfold finalState
  rw [bind_of_ok h]

theorem finalState_discard (x : EStateM ε σ α) (s : σ) : finalState (discard x) s = finalState x s := by
  have hmap : (discard x) s = match x s with
      | .ok _ s' => .ok () s'
      | .error e s' => .error e s' := rfl
  unfold finalState
  rw [hmap]
  cases x s with
  | ok a s' | error e s' => rfl

/-! ## Relations between the first state and the last -/

section
variable (R : σ → σ → Prop)

def Relates (x : EStateM ε σ α) : Prop := ∀ s, R s (finalState x s)

variable {R}

variable {x : EStateM ε σ α}

theorem Relates.mono {R' : σ → σ → Prop} (h : Relates R x) (hR : ∀ s s', R s s' → R' s s') : Relates R' x :=
  fun s => hR _ _ (h s)

theorem Relates.modify {f : σ → σ} (h : ∀ s, R s (f s)) : Relates R (modify f : EStateM ε σ PUnit) := h

theorem Relates.ite {c : Prop} [Decidable c] {y : EStateM ε σ α} (hx : Relates R x) (hy : Relates R y) :
    Relates R (if c then x else y) := by
  split
  · exact hx
  · exact hy

theorem Relates.pure [Std.Refl R] (a : α) : Relates R (pure a : EStateM ε σ α) := fun s => Std.Refl.refl s

theorem Relates.throw [Std.Refl R] (e : ε) : Relates R (throw e : EStateM ε σ α) := fun s => Std.Refl.refl s

theorem Relates.discard (h : Relates R x) : Relates R (discard x) := by
  intro s
  rw [finalState_discard]
  exact h s

theorem Relates.get_bind {f : σ → EStateM ε σ α} (h : ∀ s, Relates R (f s)) : Relates R (get >>= f) := fun s => h s s

theorem Relates.bind [IsTrans σ R] (hx : Relates R x) (hf : ∀ a, Relates R (f a)) : Relates R (x >>= f) := by
  intro s
  rcases finalState_bind x f s with ⟨e, -, h⟩ | ⟨a, -, h⟩
  · rw [h]
    exact hx s
  · rw [h]
    exact IsTrans.trans _ _ _ (hx s) (hf a _)

theorem Relates.forM [Std.Refl R] [IsTrans σ R] {step : α → EStateM ε σ PUnit} (hstep : ∀ a, Relates R (step a))
    (as : List α) : Relates R (forM as step) := by
  induction as with
  | nil => exact Relates.pure _
  | cons a as ih =>
    rw [List.forM_cons]
    exact Relates.bind (hstep a) fun _ => ih

end

/-! ## Invariants -/

def Preserves (Inv : σ → Prop) (s s' : σ) : Prop := Inv s → Inv s'

instance Preserves.instRefl (Inv : σ → Prop) : Std.Refl (Preserves Inv) := ⟨fun _ h => h⟩

instance Preserves.instTrans (Inv : σ → Prop) : IsTrans σ (Preserves Inv) := ⟨fun _ _ _ h h' hs => h' (h hs)⟩

end TelegramClient
