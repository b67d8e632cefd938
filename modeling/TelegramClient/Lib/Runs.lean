import Mathlib.Data.List.Basic

/-!
# Runs of a state machine

A machine is a function `step` that takes a state and an event to the next state, and a run is a list of events.

* `AllSteps step P s events` : `P` holds of every step of the run of `events` from `s`, that is, of the state before the
  step and its event;
* `AllSteps.invariant` : an invariant that is kept by the steps that satisfy `P` holds along such a run;
* `AllSteps.of_invariant` : so does what follows from it;
* `foldl_rel` : what a preorder says of every step it says of a run;
* `allSteps_iff_forall` : a property of all steps, wherever the run is cut;
* `allSteps_iff` : where two properties of a step agree in the states of an invariant that the second one keeps, they
  agree on whole runs.
-/

namespace TelegramClient
open List

section
variable {σ ε : Type*} (step : σ → ε → σ)

/-- `P` holds of every step of the run of `events` from `s`. -/
def AllSteps (P : σ → ε → Prop) : σ → List ε → Prop
  | _, [] => True
  | s, event :: events => P s event ∧ AllSteps P (step s event) events

variable {step}

instance AllSteps.decidable {P : σ → ε → Prop} [∀ s event, Decidable (P s event)] :
    (s : σ) → (events : List ε) → Decidable (AllSteps step P s events)
  | _, [] => isTrue trivial
  | s, event :: events =>
    have : Decidable (AllSteps step P (step s event) events) := AllSteps.decidable (step s event) events
    inferInstanceAs (Decidable (P s event ∧ AllSteps step P (step s event) events))

@[simp] theorem allSteps_cons (P : σ → ε → Prop) (s : σ) (event : ε) (events : List ε) :
    AllSteps step P s (event :: events) ↔ P s event ∧ AllSteps step P (step s event) events := Iff.rfl

variable {P : σ → ε → Prop} {Inv : σ → Prop} {s : σ} {events : List ε}

/-- An invariant that the steps keep holds at the end of a run. -/
theorem AllSteps.invariant (hstep : ∀ s event, Inv s → P s event → Inv (step s event)) (hs : Inv s)
    (h : AllSteps step P s events) : Inv (events.foldl step s) := by
  induction events generalizing s with
  | nil => exact hs
  | cons event events ih => exact ih (hstep s event hs h.1) h.2

variable {Q : σ → ε → Prop}

/-- What holds of every step in a state of an invariant that the steps keep holds along a run. -/
theorem AllSteps.of_invariant (hstep : ∀ s event, Inv s → P s event → Inv (step s event))
    (hQ : ∀ s event, Inv s → P s event → Q s event) (hs : Inv s) (h : AllSteps step P s events) :
    AllSteps step Q s events := by
  induction events generalizing s with
  | nil => trivial
  | cons event events ih => exact ⟨hQ s event hs h.1, ih (hstep s event hs h.1) h.2⟩

/-- A reflexive and transitive relation that holds of every step holds of the ends of a run. -/
theorem foldl_rel {R : σ → σ → Prop} (hrefl : ∀ s, R s s) (htrans : ∀ {s s' s''}, R s s' → R s' s'' → R s s'')
    (hstep : ∀ s, ∀ event ∈ events, R s (step s event)) (s : σ) : R s (events.foldl step s) := by
  induction events generalizing s with
  | nil => exact hrefl s
  | cons event events ih =>
    have hfirst := hstep s event mem_cons_self
    exact htrans hfirst (ih (fun s event h => hstep s event (mem_cons_of_mem _ h)) (step s event))

theorem allSteps_of_forall {E : ε → Prop} (h : ∀ event ∈ events, E event) (s : σ) :
    AllSteps step (fun _ => E) s events := by
  induction events generalizing s with
  | nil => trivial
  | cons event events ih =>
    obtain ⟨hev, hrest⟩ := forall_mem_cons.mp h
    exact ⟨hev, ih hrest (step s event)⟩

theorem AllSteps.and (h : AllSteps step P s events) (h' : AllSteps step Q s events) :
    AllSteps step (fun s event => P s event ∧ Q s event) s events := by
  induction events generalizing s with
  | nil => trivial
  | cons event events ih => exact ⟨⟨h.1, h'.1⟩, ih h.2 h'.2⟩

theorem allSteps_iff_forall : AllSteps step P s events ↔
      ∀ before event after, events = before ++ event :: after → P (before.foldl step s) event := by
  induction events generalizing s with
  | nil => simp [AllSteps]
  | cons e events ih =>
    rw [allSteps_cons, ih]
    constructor
    · rintro ⟨he, hrest⟩ before event after h
      cases before with
      | nil =>
        obtain ⟨rfl, rfl⟩ : e = event ∧ events = after := by simpa using h
        exact he
      | cons e' before =>
        obtain ⟨rfl, rfl⟩ : e = e' ∧ events = before ++ event :: after := by simpa using h
        exact hrest before event after rfl
    · intro h
      refine ⟨h [] e events rfl, fun before event after hevents => ?_⟩
      exact h (e :: before) event after (by rw [hevents, cons_append])

theorem allSteps_view {τ : Type*} {step' : τ → ε → τ} {view : τ → σ}
    (hview : ∀ t event, view (step' t event) = step (view t) event) {t : τ} :
    AllSteps step' (fun t event => P (view t) event) t events ↔ AllSteps step P (view t) events := by
  induction events generalizing t with
  | nil => exact Iff.rfl
  | cons event events ih =>
    rw [allSteps_cons, allSteps_cons, ih, hview]

/-- In a run of different events, of which only one changes a view of the state, the view is changed once or not at all.
`Inv` is kept by all steps. -/
theorem foldl_view {β : Type*} [DecidableEq ε] (Inv : σ → Prop) (view : σ → β) {change : β → β} {own : ε}
    (hnd : events.Nodup) (hinv : ∀ s, ∀ event ∈ events, Inv s → Inv (step s event))
    (hother : ∀ s, ∀ event ∈ events, event ≠ own → Inv s → view (step s event) = view s)
    (hown : ∀ s, own ∈ events → Inv s → view (step s own) = change (view s)) (hs : Inv s) :
    view (events.foldl step s) = if own ∈ events then change (view s) else view s := by
  induction events generalizing s with
  | nil => rfl
  | cons event events ih =>
    obtain ⟨hnot, hrest⟩ := nodup_cons.mp hnd
    have hnext : Inv (step s event) := hinv s event mem_cons_self hs
    have htail := ih hrest (fun s e he => hinv s e (mem_cons_of_mem event he))
      (fun s e he => hother s e (mem_cons_of_mem event he))
      (fun s he => hown s (mem_cons_of_mem event he)) hnext
    rw [foldl_cons, htail]
    by_cases hev : event = own
    · subst hev
      rw [if_neg hnot, if_pos mem_cons_self, hown s mem_cons_self hs]
    · rw [hother s event mem_cons_self hev hs]
      simp [Ne.symm hev]

/-- Two properties of a step that agree in the states of an invariant agree on the runs of it. `E` is what is assumed of
all steps. -/
theorem allSteps_iff {E : σ → ε → Prop} (hstep : ∀ s event, E s event → Inv s → Q s event → Inv (step s event))
    (hPQ : ∀ s event, E s event → Inv s → (P s event ↔ Q s event)) (hs : Inv s) (hE : AllSteps step E s events) :
    AllSteps step P s events ↔ AllSteps step Q s events := by
  induction events generalizing s with
  | nil => exact Iff.rfl
  | cons event events ih =>
    rw [allSteps_cons, allSteps_cons, hPQ s event hE.1 hs]
    exact and_congr_right fun hQ => ih (hstep s event hE.1 hs hQ) hE.2

end

end TelegramClient
