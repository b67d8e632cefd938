import Mathlib.Data.List.Basic

/-!
# Runs of a machine whose steps may fail

* `bind_eq_ok` : where a computation that may fail ends;
* `AllOk step P s events` : `P` holds of every step that succeeds in the run of `events` from `s`, which ends at the first
  step that fails;
* `allOk_iff`, `allOk_congr` : properties that agree in the states of an invariant, or in all states.
-/

namespace TelegramClient

universe u v

variable {φ : Type u} {α β : Type v} {x : Except φ α} {b : β}

theorem bind_eq_ok {f : α → Except φ β} : x >>= f = .ok b ↔ ∃ a, x = .ok a ∧ f a = .ok b := by
  cases x with
  | error e => exact ⟨(nomatch ·), fun ⟨_, h, _⟩ => nomatch h⟩
  | ok a => exact ⟨fun h => ⟨a, rfl, h⟩, fun ⟨_, ha, h⟩ => Except.ok.inj ha ▸ h⟩

theorem map_eq_ok {f : α → β} : f <$> x = .ok b ↔ ∃ a, x = .ok a ∧ f a = b := by
  cases x with
  | error e => exact ⟨(nomatch ·), fun ⟨_, h, _⟩ => nomatch h⟩
  | ok a => exact ⟨fun h => ⟨a, rfl, Except.ok.inj h⟩, fun ⟨_, ha, h⟩ => by rw [← h, ← Except.ok.inj ha]; rfl⟩

section
variable {φ σ ε : Type*} (step : σ → ε → Except φ σ)

/-- `P` holds of the state before, the event and the state after every step that succeeds. -/
def AllOk (P : σ → ε → σ → Prop) : σ → List ε → Prop
  | _, [] => True
  | s, event :: events => ∀ s', step s event = .ok s' → P s event s' ∧ AllOk P s' events

variable {step}

variable {P Q : σ → ε → σ → Prop} {s : σ} {events : List ε}

/-- Two properties of a step that agree in the states of an invariant agree on the runs from such states. -/
theorem allOk_iff {Inv : σ → Prop} (hstep : ∀ s event s', step s event = .ok s' → Inv s → Inv s')
    (hPQ : ∀ s event s', step s event = .ok s' → Inv s → (P s event s' ↔ Q s event s')) (hs : Inv s) :
    AllOk step P s events ↔ AllOk step Q s events := by
  induction events generalizing s with
  | nil => exact Iff.rfl
  | cons event events ih =>
    exact forall₂_congr fun s' hs' => and_congr (hPQ s event s' hs' hs) (ih (hstep s event s' hs' hs))

theorem allOk_congr (h : ∀ s event s', step s event = .ok s' → (P s event s' ↔ Q s event s')) :
    AllOk step P s events ↔ AllOk step Q s events :=
  allOk_iff (fun _ _ _ _ _ => trivial) (fun s event s' hs' _ => h s event s' hs') trivial

end

end TelegramClient
