import TelegramClient.Actions.Tables
import TelegramClient.Lib.SerialQueues

/-!
# Actors in queues

* `Calm` : the runs in which no actor of a queue is finished while it is prepared, and a cancellation removes its own entry;
* `QueueInv` : the queues are serial, where actors whose removal is pending may still be in them;
* **`actorQueues_serial`** : the queues when the stage has nothing left to do.
-/

namespace TelegramClient.Actions
open List

open Function (update)

def Instruction.enqueued : Instruction → Option Nat
  | .enqueue actor _ => some actor
  | _ => none

/-- The instructions that do not bear on the queues. -/
def Instruction.isPlain : Instruction → Bool
  | .enqueue _ _ => false
  | .removeRequestFromQueueAndProceedIfFirst _ => false
  | _ => true

namespace ActionStage

/-- The actors whose `prepare:` has not returned, and those that come into their queues next. -/
def preparing (s : ActionStage) : List Nat := s.pending.filterMap Instruction.enqueued

def Finished (s : ActionStage) (actor : Nat) : Prop := actor ∈ s.completed ∨ actor ∈ s.cancelled

instance (s : ActionStage) (actor : Nat) : Decidable (s.Finished actor) := inferInstanceAs (Decidable (_ ∨ _))

/-- The last line of `performCancelRequest:` finds no entry of another actor than the one that was cancelled. -/
def RemovesCancelled (s : ActionStage) : StageMove → List Instruction → Prop
  | .next, .removeCancelTimer path :: _ => ∀ info ∈ s.cancelRequestTimers path, s.Finished info.requestBuilder
  | _, _ => True

def Calm (s : ActionStage) (move : StageMove) : Prop :=
  (∀ actor ∈ s.preparing, s.requestQueueName actor ≠ none → ¬(s.step move).Finished actor) ∧
    s.RemovesCancelled move s.pending

instance (s : ActionStage) : (move : StageMove) → (pending : List Instruction) →
    Decidable (s.RemovesCancelled move pending)
  | .next, .removeCancelTimer path :: _ => inferInstanceAs (Decidable (∀ info ∈ s.cancelRequestTimers path, _))
  | .next, [] | .next, .callback _ :: _ | .next, .enqueue .. :: _ | .next, .changeActorPriority _ :: _
  | .next, .notify .. :: _ | .next, .removeRequestFromQueueAndProceedIfFirst _ :: _
  | .next, .removeWatcher .. :: _ | .call _, _ => inferInstanceAs (Decidable True)

instance decidableCalm (s : ActionStage) (move : StageMove) : Decidable (s.Calm move) :=
  inferInstanceAs (Decidable (_ ∧ _))

/-- The actor of a request that is active or waits for cancellation. -/
def servedAt (s : ActionStage) (path : String) : Option Nat :=
  ((s.activeRequests path).or (s.cancelRequestTimers path)).map (·.requestBuilder)

def Live (s : ActionStage) (actor : Nat) : Prop :=
  (∃ path, s.servedAt path = some actor) ∧ ¬s.Finished actor ∧ actor ∉ s.preparing

def Leaving (s : ActionStage) (actor : Nat) : Prop := .removeRequestFromQueueAndProceedIfFirst actor ∈ s.pending

structure QueueInv (s : ActionStage) : Prop where
  tables : TableInv s
  queues : SerialQueues s.requestQueueName s.Live s.Leaving s.requestQueues s.executed
  executed_lt : ∀ actor ∈ s.executed, actor < s.actors.length
  finished_lt : ∀ actor, s.Finished actor → actor < s.actors.length
  leaving : ∀ actor, s.Leaving actor → s.Finished actor
  prepared_once : s.preparing.Nodup
  unexecuted : ∀ actor ∈ s.preparing, actor < s.actors.length ∧ actor ∉ s.executed
  /-- Where `prepare:` returns, the actor is still wanted. -/
  prepared : ∀ actor ∈ s.preparing, s.requestQueueName actor ≠ none →
    (∃ path, s.servedAt path = some actor) ∧ ¬s.Finished actor

/-! ## The actor of a path -/

section
variable {s : ActionStage} {path : String} {info : RequestInfo}

theorem servedAt_active (h : s.activeRequests path = some info) : s.servedAt path = some info.requestBuilder := by
  simp [servedAt, h]

theorem servedAt_waiting (h : TableInv s) (hwait : s.cancelRequestTimers path = some info) :
    s.servedAt path = some info.requestBuilder := by
  simp [servedAt, h.inactive hwait, hwait]

variable {actor : Nat}

theorem pathOf_servedAt (h : TableInv s) (hserved : s.servedAt path = some actor) : s.pathOf actor = some path := by
  unfold servedAt at hserved
  cases hact : s.activeRequests path with
  | some info =>
    rw [hact] at hserved
    obtain rfl : info.requestBuilder = actor := by simpa using hserved
    exact h.active_path path info hact
  | none =>
    rw [hact, Option.none_or, Option.map_eq_some_iff] at hserved
    obtain ⟨info, hwait, rfl⟩ := hserved
    exact h.waiting_path path info hwait

theorem servedAt_setActive_none (h : s.cancelRequestTimers path = none) :
    (s.setActive path none).servedAt = update s.servedAt path none := by
  ext path' : 1
  by_cases hne : path' = path
  · subst hne
    simp [servedAt, setActive, h]
  · simp [servedAt, setActive, hne]

theorem servedAt_setActive_some (h : s.cancelRequestTimers path = none) :
    (s.setActive path (some info)).servedAt = update s.servedAt path (some info.requestBuilder) := by
  ext path' : 1
  by_cases hne : path' = path
  · subst hne
    simp [servedAt, setActive]
  · simp [servedAt, setActive, hne]

section
variable (h : s.activeRequests path = some info)
include h

variable (watchers : List ASHandle)

theorem servedAt_watchers : (s.setActive path (some ⟨info.requestBuilder, watchers⟩)).servedAt = s.servedAt := by
  ext path' : 1
  by_cases hne : path' = path
  · subst hne
    simp [servedAt, setActive, h]
  · simp [servedAt, setActive, hne]

theorem servedAt_setWaiting_some :
    ((s.setWaiting path (some ⟨info.requestBuilder, watchers⟩)).setActive path none).servedAt = s.servedAt := by
  ext path' : 1
  by_cases hne : path' = path
  · subst hne
    simp [servedAt, setActive, setWaiting, h]
  · simp [servedAt, setActive, setWaiting, hne]

theorem servedAt_joined (watcher : ASHandle) : (s.joined path watcher info).servedAt = s.servedAt := by
  unfold joined
  split
  · rfl
  · exact servedAt_watchers h _

end

theorem servedAt_resumed (h : TableInv s) (hwait : s.cancelRequestTimers path = some info) (watcher : ASHandle) :
    (((s.setActive path (some info)).setWaiting path none).joined path watcher info).servedAt = s.servedAt := by
  rw [servedAt_joined (by simp [setActive, setWaiting])]
  ext path' : 1
  by_cases hne : path' = path
  · subst hne
    simp [servedAt, setActive, setWaiting, h.inactive hwait, hwait]
  · simp [servedAt, setActive, setWaiting, hne]

theorem servedAt_lt (h : TableInv s) (hserved : s.servedAt path = some actor) :
    actor < s.actors.length := pathOf_lt (pathOf_servedAt h hserved)

theorem QueueInv.initial : QueueInv initial where
  tables := TableInv.initial
  queues := ⟨fun _ _ _ h => by simp [Live, servedAt, ActionStage.initial] at h, fun _ _ h => (nomatch h),
    fun _ => nodup_nil, fun _ _ _ h => (nomatch h), fun _ _ _ h => (nomatch h), nodup_nil⟩
  executed_lt _ h := (nomatch h)
  finished_lt _ h := by simp [Finished, ActionStage.initial] at h
  leaving _ h := (nomatch h)
  prepared_once := nodup_nil
  unexecuted _ h := (nomatch h)
  prepared _ h := (nomatch h)

/-! ## Instructions that come and go -/

variable {l : List Instruction}

section
variable (hl : ∀ i ∈ l, i.isPlain = true)
include hl

theorem filterMap_enqueued : l.filterMap Instruction.enqueued = [] := by
  rw [filterMap_eq_nil_iff]
  intro i hi
  have hplain := hl i hi
  cases i <;> first | rfl | cases hplain

theorem preparing_push : (s.push l).preparing = s.preparing := by
  simp only [preparing, push, filterMap_append, filterMap_enqueued hl, nil_append]

theorem leaving_push : (s.push l).Leaving actor ↔ s.Leaving actor := by
  simp only [Leaving, push, mem_append]
  constructor
  · rintro (hm | hm)
    · have hplain := hl _ hm
      cases hplain
    · exact hm
  · exact Or.inr

end

variable {pending : List Instruction}

theorem QueueInv.of_pending (h : QueueInv s)
    (hprep : ({ s with pending := pending } : ActionStage).preparing = s.preparing)
    (hleave : ∀ a, .removeRequestFromQueueAndProceedIfFirst a ∈ pending ↔ s.Leaving a) :
    QueueInv { s with pending := pending } where
  tables := { h.tables with }
  queues := h.queues.retire (fun _ ⟨hserved, hfin, hx⟩ => ⟨hserved, hfin, hprep ▸ hx⟩)
    (fun _ _ _ ⟨hserved, hfin, hx⟩ => .inl ⟨hserved, hfin, hprep.symm ▸ hx⟩) fun _ _ _ hx => (hleave _).mpr hx
  executed_lt := h.executed_lt
  finished_lt := h.finished_lt
  leaving actor hm := h.leaving actor ((hleave actor).mp hm)
  prepared_once := (congrArg List.Nodup hprep).mpr h.prepared_once
  unexecuted actor hm := h.unexecuted actor (hprep ▸ hm)
  prepared actor hm := h.prepared actor (hprep ▸ hm)

theorem QueueInv.push (h : QueueInv s) (hl : ∀ i ∈ l, i.isPlain = true) : QueueInv (s.push l) :=
  h.of_pending (preparing_push hl) fun _ => leaving_push hl

theorem QueueInv.pop (h : QueueInv s) {instruction : Instruction} (hpend : s.pending = instruction :: pending)
    (hplain : instruction.isPlain = true) : QueueInv { s with pending := pending } := by
  refine h.of_pending ?_ fun a => ?_
  · have hnone := filterMap_enqueued (l := [instruction]) (by simpa using hplain)
    unfold preparing
    dsimp only
    rw [hpend, ← singleton_append, filterMap_append, hnone, nil_append]
  · unfold Leaving
    rw [hpend, mem_cons]
    refine ⟨Or.inr, Or.rec (fun heq => ?_) id⟩
    rw [← heq] at hplain
    cases hplain

/-! ## Changes of the tables -/

variable {s' : ActionStage}

theorem QueueInv.of_served (h : QueueInv s) (htables : TableInv s') (hserved : s'.servedAt = s.servedAt)
    (hactors : s'.actors = s.actors) (hqueues : s'.requestQueues = s.requestQueues)
    (hpend : s'.pending = s.pending) (hexec : s'.executed = s.executed)
    (hcompl : s'.completed = s.completed) (hcanc : s'.cancelled = s.cancelled) : QueueInv s' := by
  have hfin : s'.Finished = s.Finished := by
    unfold Finished
    rw [hcompl, hcanc]
  have hprep : s'.preparing = s.preparing := by
    unfold preparing
    rw [hpend]
  have hlive : s'.Live = s.Live := by
    unfold Live
    rw [hserved, hfin, hprep]
  have hleaving : s'.Leaving = s.Leaving := by
    unfold Leaving
    rw [hpend]
  have hname : s'.requestQueueName = s.requestQueueName := by
    unfold requestQueueName
    rw [hactors]
  refine ⟨htables, ?_, ?_, ?_, ?_, ?_, ?_, ?_⟩
  · rw [hname, hlive, hleaving, hqueues, hexec]
    exact h.queues
  · rw [hexec, hactors]
    exact h.executed_lt
  · rw [hfin, hactors]
    exact h.finished_lt
  · rw [hleaving, hfin]
    exact h.leaving
  · rw [hprep]
    exact h.prepared_once
  · rw [hprep, hactors, hexec]
    exact h.unexecuted
  · rw [hprep, hname, hserved, hfin]
    exact h.prepared

theorem QueueInv.finish (h : QueueInv s) (hactor : actor < s.actors.length) (htables : TableInv s')
    (hactors : s'.actors = s.actors) (hqueues : s'.requestQueues = s.requestQueues)
    (hexec : s'.executed = s.executed) (hserved : ∀ p a, s'.servedAt p = some a → s.servedAt p = some a)
    (hkeep : ∀ p a, s.servedAt p = some a → a ≠ actor → s'.servedAt p = some a)
    (hfin : ∀ a, s'.Finished a ↔ a = actor ∨ s.Finished a) (hprep : s'.preparing = s.preparing)
    (hleaving : ∀ a, s'.Leaving a ↔ a = actor ∨ s.Leaving a)
    (hcalm : actor ∈ s.preparing → s.requestQueueName actor = none) : QueueInv s' := by
  have hname : s'.requestQueueName = s.requestQueueName := by
    unfold requestQueueName
    rw [hactors]
  refine ⟨htables, ?_, ?_, fun a ha => ?_, fun a ha => ?_, ?_, ?_, fun a ha hqueue => ?_⟩
  · rw [hname, hqueues, hexec]
    refine h.queues.retire ?_ ?_ fun _ x _ hx => (hleaving x).mpr (.inr hx)
    · rintro x ⟨⟨p, hp⟩, hx, hxprep⟩
      exact ⟨⟨p, hserved p x hp⟩, fun hf => hx ((hfin x).mpr (.inr hf)), hprep ▸ hxprep⟩
    · rintro _ x - ⟨⟨p, hp⟩, hx, hxprep⟩
      by_cases hxa : x = actor
      · exact .inr ((hleaving x).mpr (.inl hxa))
      · refine .inl ⟨⟨p, hkeep p x hp hxa⟩, fun hf => ?_, hprep.symm ▸ hxprep⟩
        exact ((hfin x).mp hf).elim hxa hx
  · rw [hexec, hactors]
    exact h.executed_lt
  · rw [hactors]
    rcases (hfin a).mp ha with rfl | ha
    · exact hactor
    · exact h.finished_lt a ha
  · exact (hfin a).mpr (((hleaving a).mp ha).imp_right (h.leaving a))
  · rw [hprep]
    exact h.prepared_once
  · rw [hprep, hactors, hexec]
    exact h.unexecuted
  · rw [hprep] at ha
    rw [hname] at hqueue
    have hne : a ≠ actor := by
      rintro rfl
      exact hqueue (hcalm ha)
    obtain ⟨⟨p, hp⟩, hx⟩ := h.prepared a ha hqueue
    exact ⟨⟨p, hkeep p a hp hne⟩, fun hf => ((hfin a).mp hf).elim hne hx⟩

theorem QueueInv.finish_active (h : QueueInv s) (hact : s.activeRequests path = some info)
    (hl : ∀ i ∈ l, i.isPlain = true) (hactors : s'.actors = s.actors)
    (hactive' : s'.activeRequests = update s.activeRequests path none)
    (hwaiting' : s'.cancelRequestTimers = s.cancelRequestTimers) (hqueues : s'.requestQueues = s.requestQueues)
    (hexec : s'.executed = s.executed)
    (hpend : s'.pending = l ++ .removeRequestFromQueueAndProceedIfFirst info.requestBuilder :: s.pending)
    (hfin : ∀ a, s'.Finished a ↔ a = info.requestBuilder ∨ s.Finished a)
    (hcalm : ∀ a ∈ s.preparing, s.requestQueueName a ≠ none → ¬s'.Finished a) : QueueInv s' := by
  have hwait := h.tables.disjoint path info hact
  have htables : TableInv s' := by
    have hold := h.tables.setActive_none path
    exact ⟨by rw [hactive', hwaiting']; exact hold.disjoint, by unfold pathOf; rw [hactive', hactors]; exact hold.active_path,
      by unfold pathOf; rw [hwaiting', hactors]; exact hold.waiting_path, by rw [hactive']; exact hold.watchers,
      by rw [hwaiting']; exact hold.idle⟩
  have hserved : s'.servedAt = update s.servedAt path none := by
    rw [← servedAt_setActive_none hwait]
    unfold servedAt
    rw [hactive', hwaiting']
    rfl
  refine h.finish (servedAt_lt h.tables (servedAt_active hact)) htables hactors hqueues hexec
    (fun p a ha => ?_) (fun p a ha hne => ?_) hfin ?_ (fun a => ?_) fun hm => ?_
  · rw [hserved] at ha
    by_cases hpath : p = path
    · subst hpath
      simp at ha
    · simpa [hpath] using ha
  · rw [hserved]
    have hpath : p ≠ path := by
      rintro rfl
      exact hne (Option.some.inj (ha.symm.trans (servedAt_active hact)))
    simpa [hpath] using ha
  · unfold preparing
    rw [hpend, filterMap_append, filterMap_enqueued hl]
    rfl
  · unfold Leaving
    rw [hpend, mem_append, mem_cons]
    constructor
    · rintro (hm | heq | hm)
      · have hplain := hl _ hm
        cases hplain
      · exact .inl (Instruction.removeRequestFromQueueAndProceedIfFirst.inj heq)
      · exact .inr hm
    · rintro (rfl | hm)
      · exact .inr (.inl rfl)
      · exact .inr (.inr hm)
  · by_contra hqueue
    exact hcalm _ hm hqueue ((hfin _).mpr (.inl rfl))

/-! ## Methods -/

section
variable (h : QueueInv s)
include h

theorem QueueInv.keepWatchers (hact : s.activeRequests path = some info) (keep : ASHandle → Bool)
    (hcalm : ∀ a ∈ s.preparing, s.requestQueueName a ≠ none → ¬(s.keepWatchers path info (info.watchers.filter keep)).Finished a) :
    QueueInv (s.keepWatchers path info (info.watchers.filter keep)) := by
  have htables := h.tables.keepWatchers hact keep
  rcases keepWatchers_cases h.tables hact (info.watchers.filter keep) with ⟨-, heq⟩ | ⟨-, heq⟩ | ⟨-, heq⟩ <;>
    rw [heq] at htables hcalm ⊢
  · exact h.of_served htables (servedAt_watchers hact _) rfl rfl rfl rfl rfl rfl
  · exact h.of_served htables (servedAt_setWaiting_some hact []) rfl rfl rfl rfl rfl rfl
  · refine h.finish_active hact (l := [.callback (.cancel info.requestBuilder)]) (by simp [Instruction.isPlain])
      rfl rfl rfl rfl rfl rfl (fun a => ?_) hcalm
    simp only [Finished, ActionStage.cancel, ActionStage.push, setActive, mem_cons]
    tauto

theorem QueueInv.removeWatcherByHandle (watcher : ASHandle) (path : String)
    (hcalm : ∀ a ∈ s.preparing, s.requestQueueName a ≠ none → ¬(s.removeWatcherByHandle watcher path).Finished a) :
    QueueInv (s.removeWatcherByHandle watcher path) := by
  unfold ActionStage.removeWatcherByHandle at hcalm ⊢
  have hnoted : QueueInv (s.noteRemoval (· == watcher) path) := { h with tables := { h.tables with } }
  dsimp only at hcalm ⊢
  split
  · exact hnoted
  · rename_i info hact
    rw [hact] at hcalm
    exact hnoted.keepWatchers hact _ hcalm

theorem QueueInv.removeAllWatchersFromPath (path : String)
    (hcalm : ∀ a ∈ s.preparing, s.requestQueueName a ≠ none → ¬(s.removeAllWatchersFromPath path).Finished a) :
    QueueInv (s.removeAllWatchersFromPath path) := by
  unfold ActionStage.removeAllWatchersFromPath at hcalm ⊢
  have hnoted : QueueInv (s.noteRemoval (fun _ => true) path) := { h with tables := { h.tables with } }
  dsimp only at hcalm ⊢
  split
  · exact hnoted
  · rename_i info hact
    rw [hact] at hcalm
    have hkeep := hnoted.keepWatchers hact fun _ => false
    rw [filter_false] at hkeep
    exact hkeep hcalm

theorem QueueInv.actionCompleted (action : String)
    (hcalm : ∀ a ∈ s.preparing, s.requestQueueName a ≠ none → ¬(s.actionCompleted action).Finished a) :
    QueueInv (s.actionCompleted action) := by
  unfold ActionStage.actionCompleted at hcalm ⊢
  split
  · exact h
  · rename_i info hact
    rw [hact] at hcalm
    refine h.finish_active hact
      (l := info.watchers.map fun watcher => .notify watcher info.requestBuilder action) ?_ rfl rfl rfl rfl rfl ?_
      (fun a => ?_) hcalm
    · simp [Instruction.isPlain]
    · simp [ActionStage.push, setActive]
    · simp only [Finished, ActionStage.push, setActive, mem_cons]
      tauto

theorem QueueInv.performCancelRequest (path : String)
    (hcalm : ∀ a ∈ s.preparing, s.requestQueueName a ≠ none → ¬(s.performCancelRequest path).Finished a) :
    QueueInv (s.performCancelRequest path) := by
  unfold ActionStage.performCancelRequest at hcalm ⊢
  split
  · exact h
  · rename_i info hwait
    rw [hwait] at hcalm
    have hfin : ∀ a, (s.cancel info.requestBuilder [.removeCancelTimer path]).Finished a ↔
        a = info.requestBuilder ∨ s.Finished a := by
      intro a
      simp only [Finished, ActionStage.cancel, ActionStage.push, mem_cons]
      tauto
    refine h.finish (servedAt_lt h.tables (servedAt_waiting h.tables hwait)) { h.tables with } rfl rfl rfl
      (fun _ _ ha => ha) (fun _ _ ha _ => ha) hfin rfl (fun a => ?_) fun hm => ?_
    · simp [Leaving, ActionStage.cancel, ActionStage.push]
    · by_contra hqueue
      exact hcalm _ hm hqueue ((hfin _).mpr (.inl rfl))

end

end

end ActionStage

end TelegramClient.Actions
