import TelegramClient.Actions.ActionStage

/-!
# The tables of the action stage

* `TableInv` : no path is in both tables, and the watchers are those of active requests;
* `keepWatchers_cases`, `requestGeneric_cases` : what the removal of watchers and a request can do;
* `TableInv.step` : every step keeps it, whatever the code around the stage does.
-/

namespace TelegramClient.Actions

open Function (update)

namespace ActionStage

structure TableInv (s : ActionStage) : Prop where
  disjoint : ∀ path info, s.activeRequests path = some info → s.cancelRequestTimers path = none
  active_path : ∀ path info, s.activeRequests path = some info → s.pathOf info.requestBuilder = some path
  waiting_path : ∀ path info, s.cancelRequestTimers path = some info → s.pathOf info.requestBuilder = some path
  watchers : ∀ path info, s.activeRequests path = some info → info.watchers ≠ [] ∧ info.watchers.Nodup
  idle : ∀ path info, s.cancelRequestTimers path = some info → info.watchers = []

variable {s : ActionStage} {path : String} {info : RequestInfo}

theorem TableInv.inactive (h : TableInv s) (hwait : s.cancelRequestTimers path = some info) :
    s.activeRequests path = none := by
  cases hact : s.activeRequests path with
  | none => rfl
  | some info' =>
    have hnone := h.disjoint path info' hact
    rw [hwait] at hnone
    cases hnone

theorem pathOf_lt {actor : Nat} (h : s.pathOf actor = some path) : actor < s.actors.length := by
  rw [pathOf, Option.map_eq_some_iff] at h
  obtain ⟨builder, hbuilder, -⟩ := h
  exact (List.getElem?_eq_some_iff.mp hbuilder).1

theorem TableInv.initial : TableInv initial :=
  ⟨fun _ _ h => (nomatch h), fun _ _ h => (nomatch h), fun _ _ h => (nomatch h), fun _ _ h => (nomatch h),
    fun _ _ h => (nomatch h)⟩

/-! ## What the methods can do -/

theorem keepWatchers_cases (h : TableInv s) (hact : s.activeRequests path = some info) (watchers : List ASHandle) :
    (watchers ≠ [] ∧ s.keepWatchers path info watchers = s.setActive path (some ⟨info.requestBuilder, watchers⟩)) ∨
    (watchers = [] ∧ s.keepWatchers path info watchers =
      (s.setWaiting path (some ⟨info.requestBuilder, []⟩)).setActive path none) ∨
    (watchers = [] ∧ s.keepWatchers path info watchers = (s.setActive path none).cancel info.requestBuilder []) := by
  cases watchers with
  | cons watcher watchers => exact .inl ⟨by simp, rfl⟩
  | nil =>
    have hwait := h.disjoint path info hact
    have heq : s.keepWatchers path info [] = if s.delaysCancel info.requestBuilder then
          (s.setWaiting path (some ⟨info.requestBuilder, []⟩)).setActive path none
        else (s.setActive path none).cancel info.requestBuilder [] := by
      simp [keepWatchers, scheduleCancelRequest, setActive, setWaiting, hwait, delaysCancel]
      rfl
    right
    rw [heq]
    split
    · exact .inl ⟨rfl, rfl⟩
    · exact .inr ⟨rfl, rfl⟩

def joined (s : ActionStage) (path : String) (watcher : ASHandle) (info : RequestInfo) : ActionStage :=
  if watcher ∈ info.watchers then s else
    (s.setActive path (some { info with watchers := info.watchers ++ [watcher] })).noteJoin watcher info.requestBuilder

theorem joinRequest_cases (s : ActionStage) (path : String) (watcher : ASHandle) (info : RequestInfo)
    (changePriority : Bool) : ∃ waitingInActorQueue, ∃ rest,
    (rest = [] ∨ rest = [.changeActorPriority path]) ∧ s.joinRequest path watcher info changePriority =
      (s.joined path watcher info).push
        (.callback (.watcherJoined info.requestBuilder watcher waitingInActorQueue) :: rest) := by
  unfold joinRequest joined
  dsimp only
  split
  · exact ⟨false, [], .inl rfl, rfl⟩
  · exact ⟨false, [], .inl rfl, rfl⟩
  · rename_i first rest _
    exact ⟨first != info.requestBuilder, _, by cases changePriority <;> simp, rfl⟩

theorem requestGeneric_cases (s : ActionStage) (joinOnly : Bool) (path : String)
    (changePriority : Bool) (watcher : ASHandle) (builder : Option ASActor) :
    s.requestGeneric joinOnly path changePriority watcher builder = s ∨
    (∃ info, s.cancelRequestTimers path = some info ∧ s.requestGeneric joinOnly path changePriority watcher builder =
        ((s.setActive path (some info)).setWaiting path none).joinRequest path watcher info changePriority) ∨
    (∃ info, s.activeRequests path = some info ∧ s.requestGeneric joinOnly path changePriority watcher builder =
        s.joinRequest path watcher info changePriority) ∨
    (∃ builder', s.activeRequests path = none ∧ s.cancelRequestTimers path = none ∧
      s.requestGeneric joinOnly path changePriority watcher builder =
        s.startRequest path watcher builder' changePriority) := by
  unfold requestGeneric resumeRequest
  split
  · exact .inl rfl
  cases hwait : s.cancelRequestTimers path with
  | some info =>
    right; left
    refine ⟨info, rfl, ?_⟩
    simp [setWaiting, setActive]
  | none =>
    dsimp only
    cases hact : s.activeRequests path with
    | some info => exact .inr (.inr (.inl ⟨info, rfl, rfl⟩))
    | none =>
      cases joinOnly <;> cases builder
      · exact .inl rfl
      · exact .inr (.inr (.inr ⟨_, rfl, rfl, rfl⟩))
      · exact .inl rfl
      · exact .inl rfl

/-! ## Changes of the tables -/

section
variable {s : ActionStage} {path : String} {info : RequestInfo}

section
variable (h : TableInv s)
include h

theorem TableInv.setActive_none (path : String) : TableInv (s.setActive path none) := by
  have hact : ∀ path' info', (s.setActive path none).activeRequests path' = some info' →
      s.activeRequests path' = some info' := by
    intro path' info' hinfo
    by_cases hne : path' = path
    · subst hne
      simp [setActive] at hinfo
    · simpa [setActive, hne] using hinfo
  exact ⟨fun p i hi => h.disjoint p i (hact p i hi), fun p i hi => h.active_path p i (hact p i hi),
    h.waiting_path, fun p i hi => h.watchers p i (hact p i hi), h.idle⟩

theorem TableInv.setWaiting_none (path : String) : TableInv (s.setWaiting path none) := by
  have hwait : ∀ path' info', (s.setWaiting path none).cancelRequestTimers path' = some info' →
      s.cancelRequestTimers path' = some info' := by
    intro path' info' hinfo
    by_cases hne : path' = path
    · subst hne
      simp [setWaiting] at hinfo
    · simpa [setWaiting, hne] using hinfo
  refine ⟨fun p i hi => ?_, h.active_path, fun p i hi => h.waiting_path p i (hwait p i hi), h.watchers,
    fun p i hi => h.idle p i (hwait p i hi)⟩
  have hnone := h.disjoint p i hi
  by_cases hne : p = path
  · subst hne
    simp [setWaiting]
  · simpa [setWaiting, hne] using hnone

theorem TableInv.setActive_some (info : RequestInfo) (hwait : s.cancelRequestTimers path = none)
    (hpath : s.pathOf info.requestBuilder = some path) (hwatchers : info.watchers ≠ [] ∧ info.watchers.Nodup) :
    TableInv (s.setActive path (some info)) := by
  have hact : ∀ path' info', (s.setActive path (some info)).activeRequests path' = some info' →
      s.activeRequests path' = some info' ∨ path' = path ∧ info' = info := by
    intro path' info' hinfo
    by_cases hne : path' = path
    · subst hne
      right
      simpa [setActive, eq_comm] using hinfo
    · left
      simpa [setActive, hne] using hinfo
  refine ⟨fun p i hi => ?_, fun p i hi => ?_, h.waiting_path, fun p i hi => ?_, h.idle⟩
  · rcases hact p i hi with hi | ⟨rfl, rfl⟩
    · exact h.disjoint p i hi
    · exact hwait
  · rcases hact p i hi with hi | ⟨rfl, rfl⟩
    · exact h.active_path p i hi
    · exact hpath
  · rcases hact p i hi with hi | ⟨rfl, rfl⟩
    · exact h.watchers p i hi
    · exact hwatchers

theorem TableInv.setWaiting_some (hact : s.activeRequests path = some info) :
    TableInv ((s.setWaiting path (some ⟨info.requestBuilder, []⟩)).setActive path none) := by
  have hold := h.setActive_none path
  have hwait : ∀ path' info',
      ((s.setWaiting path (some ⟨info.requestBuilder, []⟩)).setActive path none).cancelRequestTimers path' =
        some info' → s.cancelRequestTimers path' = some info' ∨ path' = path ∧ info' = ⟨info.requestBuilder, []⟩ := by
    intro path' info' hinfo
    by_cases hne : path' = path
    · subst hne
      right
      simpa [setActive, setWaiting, eq_comm] using hinfo
    · left
      simpa [setActive, setWaiting, hne] using hinfo
  refine ⟨fun p i hi => ?_, hold.active_path, fun p i hi => ?_, hold.watchers, fun p i hi => ?_⟩
  · have hne : p ≠ path := by
      rintro rfl
      simp [setActive] at hi
    have hnone := hold.disjoint p i hi
    simpa [setActive, setWaiting, hne] using hnone
  · rcases hwait p i hi with hi | ⟨rfl, rfl⟩
    · exact h.waiting_path p i hi
    · exact h.active_path p info hact
  · rcases hwait p i hi with hi | ⟨rfl, rfl⟩
    · exact h.idle p i hi
    · rfl

theorem TableInv.joined (hact : s.activeRequests path = some info) (watcher : ASHandle) :
    TableInv (s.joined path watcher info) := by
  unfold ActionStage.joined
  split
  · exact h
  · rename_i hwatcher
    have hnd : (info.watchers ++ [watcher]).Nodup :=
      List.nodup_append.mpr ⟨(h.watchers path info hact).2, by simp, by
        rintro a ha b hb rfl
        rw [List.mem_singleton] at hb
        exact hwatcher (hb ▸ ha)⟩
    have hset := h.setActive_some { info with watchers := info.watchers ++ [watcher] }
      (h.disjoint path info hact) (h.active_path path info hact) ⟨by simp, hnd⟩
    exact { hset with }

theorem TableInv.resumed (hwait : s.cancelRequestTimers path = some info) (watcher : ASHandle) :
    TableInv (((s.setActive path (some info)).setWaiting path none).joined path watcher info) := by
  have hidle := h.idle path info hwait
  have hset := (h.setWaiting_none path).setActive_some ⟨info.requestBuilder, [watcher]⟩
    (show (s.setWaiting path none).cancelRequestTimers path = none by simp [setWaiting]) (h.waiting_path path info hwait) ⟨by simp, by simp⟩
  have heq : ((s.setActive path (some info)).setWaiting path none).joined path watcher info =
      ((s.setWaiting path none).setActive path (some ⟨info.requestBuilder, [watcher]⟩)).noteJoin watcher
        info.requestBuilder := by
    simp [ActionStage.joined, hidle, setActive, setWaiting]
  rw [heq]
  exact { hset with }

theorem TableInv.addActor (builder : ASActor) : TableInv { s with actors := s.actors ++ [builder] } := by
  have hpath : ∀ actor path, s.pathOf actor = some path →
      (s.actors ++ [builder])[actor]?.map (·.path) = some path := by
    intro actor path hactor
    rw [List.getElem?_append_left (pathOf_lt hactor)]
    exact hactor
  exact { h with
    active_path := fun p i hi => hpath _ _ (h.active_path p i hi)
    waiting_path := fun p i hi => hpath _ _ (h.waiting_path p i hi) }

theorem TableInv.startRequest (hwait : s.cancelRequestTimers path = none) (watcher : ASHandle) (builder : ASActor)
    (changePriority : Bool) : TableInv (s.startRequest path watcher builder changePriority) := by
  have hset := (h.addActor { builder with path := path }).setActive_some
    ⟨s.actors.length, [watcher]⟩ hwait (by simp [pathOf]) ⟨by simp, by simp⟩
  exact { hset with }

end

/-! ## Steps -/

theorem TableInv.keepWatchers (h : TableInv s) (hact : s.activeRequests path = some info) (keep : ASHandle → Bool) :
    TableInv (s.keepWatchers path info (info.watchers.filter keep)) := by
  rcases keepWatchers_cases h hact (info.watchers.filter keep) with ⟨hne, heq⟩ | ⟨-, heq⟩ | ⟨-, heq⟩ <;> rw [heq]
  · exact h.setActive_some _ (h.disjoint path info hact) (h.active_path path info hact)
      ⟨hne, (h.watchers path info hact).2.filter keep⟩
  · exact h.setWaiting_some hact
  · exact { h.setActive_none path with }

theorem TableInv.removeWatcherByHandle (h : TableInv s) (watcher : ASHandle) (path : String) :
    TableInv (s.removeWatcherByHandle watcher path) := by
  unfold ActionStage.removeWatcherByHandle
  have hnoted : TableInv (s.noteRemoval (· == watcher) path) := { h with }
  dsimp only
  split
  · exact hnoted
  · rename_i info hact
    exact hnoted.keepWatchers hact _

theorem TableInv.removeAllWatchersFromPath (h : TableInv s) (path : String) :
    TableInv (s.removeAllWatchersFromPath path) := by
  unfold ActionStage.removeAllWatchersFromPath
  have hnoted : TableInv (s.noteRemoval (fun _ => true) path) := { h with }
  dsimp only
  split
  · exact hnoted
  · rename_i info hact
    have hkeep := hnoted.keepWatchers hact fun _ => false
    rwa [List.filter_false] at hkeep

theorem TableInv.requestGeneric (h : TableInv s) (joinOnly : Bool) (path : String) (changePriority : Bool)
    (watcher : ASHandle) (builder : Option ASActor) :
    TableInv (s.requestGeneric joinOnly path changePriority watcher builder) := by
  rcases requestGeneric_cases s joinOnly path changePriority watcher builder with
    heq | ⟨info, hwait, heq⟩ | ⟨info, hact, heq⟩ | ⟨builder', -, hwait, heq⟩ <;> rw [heq]
  · exact h
  · obtain ⟨_, rest, -, hjoin⟩ := joinRequest_cases ((s.setActive path (some info)).setWaiting path none) path watcher
      info changePriority
    rw [hjoin]
    exact { h.resumed hwait watcher with }
  · obtain ⟨_, rest, -, hjoin⟩ := joinRequest_cases s path watcher info changePriority
    rw [hjoin]
    exact { h.joined hact watcher with }
  · exact h.startRequest hwait watcher builder' changePriority

theorem changeActorPriority_eq (s : ActionStage) (path : String) :
    ∃ queues, s.changeActorPriority path = { s with requestQueues := queues } := by
  unfold ActionStage.changeActorPriority
  split
  · exact ⟨s.requestQueues, rfl⟩
  · split
    · exact ⟨s.requestQueues, rfl⟩
    · dsimp only
      split
      · exact ⟨_, rfl⟩
      · exact ⟨s.requestQueues, rfl⟩

theorem enqueue_eq (s : ActionStage) (actor : Nat) (changePriority : Bool) : ∃ queues rest executed,
    s.enqueue actor changePriority =
      { s with requestQueues := queues, pending := rest ++ s.pending, executed := executed ++ s.executed } ∧
    (∀ i ∈ rest, ∃ code, i = .callback code) := by
  unfold enqueue
  split
  · exact ⟨s.requestQueues, [.callback (.execute actor)], [actor], rfl, by simp⟩
  · split
    · exact ⟨_, [.callback (.execute actor)], [actor], rfl, by simp⟩
    · exact ⟨_, [], [], rfl, by simp⟩

theorem proceed_eq (s : ActionStage) (actor : Nat) : ∃ queues rest executed,
    s.removeRequestFromQueueAndProceedIfFirst actor =
      { s with requestQueues := queues, pending := rest ++ s.pending, executed := executed ++ s.executed } ∧
    (∀ i ∈ rest, ∃ code, i = .callback code) := by
  unfold removeRequestFromQueueAndProceedIfFirst
  split
  · exact ⟨s.requestQueues, [], [], rfl, by simp⟩
  · split
    · exact ⟨s.requestQueues, [], [], rfl, by simp⟩
    · split
      · split
        · exact ⟨_, [], [], rfl, by simp⟩
        · rename_i next _ _
          split
          · exact ⟨_, [], [], rfl, by simp⟩
          · exact ⟨_, [.callback (.execute next)], [next], rfl, by simp⟩
      · exact ⟨_, [], [], rfl, by simp⟩

theorem TableInv.call (h : TableInv s) (method : StageCall) : TableInv (s.call method) := by
  cases method with
  | request joinOnly path changePriority watcher builder =>
    exact h.requestGeneric joinOnly path changePriority watcher builder
  | changeActorPriority path =>
    obtain ⟨queues, heq⟩ := changeActorPriority_eq s path
    simp only [ActionStage.call]
    rw [heq]
    exact { h with }
  | removeWatcher watcher allKeys => exact { h with }
  | removeWatcherFromPath watcher path => exact h.removeWatcherByHandle watcher path
  | removeAllWatchersFromPath path => exact h.removeAllWatchersFromPath path
  | actionCompleted action reporter =>
    simp only [ActionStage.call, ActionStage.actionCompleted]
    split
    · exact { h with }
    · exact { h.setActive_none action with }
  | performCancelRequest path =>
    simp only [ActionStage.call, ActionStage.performCancelRequest]
    split
    · exact h
    · exact { h with }
  | reset watcher => exact { h with }

theorem TableInv.exec (h : TableInv s) (instruction : Instruction) : TableInv (s.exec instruction) := by
  cases instruction with
  | callback code => exact h
  | enqueue actor changePriority =>
    obtain ⟨queues, rest, executed, heq, -⟩ := enqueue_eq s actor changePriority
    simp only [ActionStage.exec]
    rw [heq]
    exact { h with }
  | changeActorPriority path =>
    obtain ⟨queues, heq⟩ := changeActorPriority_eq s path
    simp only [ActionStage.exec]
    rw [heq]
    exact { h with }
  | notify watcher actor path =>
    simp only [ActionStage.exec, ActionStage.notify]
    split
    · exact h
    · exact { h with }
  | removeRequestFromQueueAndProceedIfFirst actor =>
    obtain ⟨queues, rest, executed, heq, -⟩ := proceed_eq s actor
    simp only [ActionStage.exec]
    rw [heq]
    exact { h with }
  | removeCancelTimer path => exact h.setWaiting_none path
  | removeWatcher watcher path => exact h.removeWatcherByHandle watcher path

theorem TableInv.step (h : TableInv s) (move : StageMove) : TableInv (s.step move) := by
  cases move with
  | call method =>
    simp only [ActionStage.step]
    split
    · exact h.call method
    · exact h
  | next =>
    simp only [ActionStage.step]
    split
    · exact h
    · rename_i instruction pending _
      have hpopped : TableInv { s with pending := pending } := { h with }
      exact hpopped.exec instruction

theorem TableInv.run (h : TableInv s) (moves : List StageMove) : TableInv (moves.foldl ActionStage.step s) := by
  induction moves generalizing s with
  | nil => exact h
  | cons move moves ih => exact ih (h.step move)

end

end ActionStage

end TelegramClient.Actions
