import TelegramClient.Actions.QueueOrder

/-!
# Queues in a run of the action stage

* `QueueInv.step` : every calm step keeps the invariant;
* **`actorQueues_serial`** : the queues are serial after every calm run.
-/

namespace TelegramClient.Actions
open List
open Instruction (isPlain)

open Function (update)

namespace ActionStage

section
variable {s : ActionStage} {path : String} {info : RequestInfo}

/-! ## A change of the priority -/

theorem changeActorPriority_cases (s : ActionStage) (path : String) : s.changeActorPriority path = s ∨
    ∃ name first rest rest', s.requestQueues name = first :: rest ∧ rest'.Perm rest ∧
      s.changeActorPriority path = s.setQueue name (first :: rest') := by
  unfold changeActorPriority
  split
  · exact .inl rfl
  · rename_i info _
    split
    · exact .inl rfl
    · rename_i name _
      dsimp only
      split
      · rename_i hm
        cases hq : s.requestQueues name with
        | nil => simp [hq] at hm
        | cons first rest =>
          rw [hq] at hm
          have hne : first ≠ info.requestBuilder := by
            rintro rfl
            simp at hm
          have hrest : info.requestBuilder ∈ rest := mem_of_mem_tail (by simpa using hm.1)
          refine .inr ⟨name, first, rest, info.requestBuilder :: rest.erase info.requestBuilder, hq,
            (perm_cons_erase hrest).symm, ?_⟩
          rw [erase_cons_tail (by simpa using hne)]
          rfl
      · exact .inl rfl

theorem QueueInv.changeActorPriority (h : QueueInv s) (path : String) : QueueInv (s.changeActorPriority path) := by
  rcases changeActorPriority_cases s path with heq | ⟨name, first, rest, rest', hq, hperm, heq⟩ <;> rw [heq]
  · exact h
  · exact { h with tables := { h.tables with }, queues := h.queues.reorder hq hperm }

/-! ## An actor leaves -/

variable {pending : List Instruction}

variable {actor : Nat}

theorem QueueInv.popped (h : QueueInv s)
    (hpend : s.pending = .removeRequestFromQueueAndProceedIfFirst actor :: pending) {queues : String → List Nat}
    {executed : List Nat} {l : List Instruction} (hl : ∀ i ∈ l, i.isPlain = true)
    (hlt : ∀ a ∈ executed, a < s.actors.length ∧ a ∉ s.preparing) (hqueues : SerialQueues s.requestQueueName s.Live
      (fun a => .removeRequestFromQueueAndProceedIfFirst a ∈ pending) queues executed) :
    QueueInv { s with pending := l ++ pending, requestQueues := queues, executed := executed } := by
  have hprep : ({ s with pending := l ++ pending, requestQueues := queues, executed := executed } :
      ActionStage).preparing = s.preparing := by
    unfold preparing
    dsimp only
    rw [hpend, filterMap_append, filterMap_enqueued hl]
    rfl
  have hold : ∀ a, .removeRequestFromQueueAndProceedIfFirst a ∈ l ++ pending →
      .removeRequestFromQueueAndProceedIfFirst a ∈ pending := by
    intro a ha
    rcases mem_append.mp ha with ha | ha
    · have hplain := hl _ ha
      cases hplain
    · exact ha
  refine ⟨{ h.tables with }, ?_, fun a ha => (hlt a ha).1, h.finished_lt, fun a ha => ?_, ?_, ?_, ?_⟩
  · exact hqueues.retire (fun _ ⟨hserved, hfin, hx⟩ => ⟨hserved, hfin, hprep ▸ hx⟩)
      (fun _ _ _ ⟨hserved, hfin, hx⟩ => .inl ⟨hserved, hfin, hprep.symm ▸ hx⟩)
      fun _ _ _ hx => mem_append_right l hx
  · refine h.leaving a ?_
    unfold Leaving
    rw [hpend]
    exact mem_cons_of_mem _ (hold a ha)
  · rw [hprep]
    exact h.prepared_once
  · rw [hprep]
    exact fun a ha => ⟨(h.unexecuted a ha).1, fun hm => (hlt a hm).2 ha⟩
  · rw [hprep]
    exact h.prepared

theorem QueueInv.proceed (h : QueueInv s)
    (hpend : s.pending = .removeRequestFromQueueAndProceedIfFirst actor :: pending) :
    QueueInv ({ s with pending := pending }.removeRequestFromQueueAndProceedIfFirst actor) := by
  have hleaving : s.Leaving actor := by
    unfold Leaving
    rw [hpend]
    exact mem_cons_self
  have hnotlive : ¬s.Live actor := fun hlive => hlive.2.1 (h.leaving actor hleaving)
  have hother : ∀ x, x ≠ actor → s.Leaving x → .removeRequestFromQueueAndProceedIfFirst x ∈ pending := by
    intro x hx hm
    unfold Leaving at hm
    rw [hpend] at hm
    simpa [hx] using hm
  have hexecuted : ∀ a ∈ s.executed, a < s.actors.length ∧ a ∉ s.preparing := fun a ha =>
    ⟨h.executed_lt a ha, fun hm => (h.unexecuted a hm).2 ha⟩
  -- the actor is in no queue
  have habsent : (∀ name, actor ∉ s.requestQueues name) → QueueInv { s with pending := pending } := by
    intro hm
    refine h.popped hpend (l := []) (by simp) hexecuted (h.queues.retire (fun _ hx => hx)
      (fun _ _ _ hx => .inl hx) fun name x hx hx' => hother x ?_ hx')
    rintro rfl
    exact hm name hx
  have hnext : ∀ name next more, s.requestQueues name = actor :: next :: more → next ∈ s.cancelled →
      s.Leaving next := by
    intro name next more hq hcanc
    rcases (h.queues.only name next (by rw [hq]; simp)).2 with hlive | hleave
    · exact absurd (.inr hcanc) hlive.2.1
    · exact hleave
  unfold ActionStage.removeRequestFromQueueAndProceedIfFirst
  split
  · rename_i hname
    refine habsent fun name hm => ?_
    have hname' := (h.queues.only name actor hm).1
    rw [show s.requestQueueName actor = none from hname] at hname'
    cases hname'
  · rename_i name hname
    split
    · rename_i hq
      refine habsent fun name' hm => ?_
      have hname' := (h.queues.only name' actor hm).1
      obtain rfl : name = name' := Option.some.inj ((show s.requestQueueName actor = some name from hname).symm.trans hname')
      rw [show s.requestQueues name = [] from hq] at hm
      cases hm
    · rename_i first rest hq
      have hq : s.requestQueues name = first :: rest := hq
      split
      · rename_i hfirst
        subst hfirst
        split
        · refine h.popped hpend (l := []) (by simp) hexecuted ?_
          exact h.queues.pop hq hnotlive hother (fun _ _ hx => nomatch hx) (fun _ hx => hx)
            (fun _ hx hx' => absurd hx hx') h.queues.once
        · rename_i next more _
          split
          · rename_i hcanc
            refine h.popped hpend (l := []) (by simp) hexecuted ?_
            refine h.queues.pop hq hnotlive hother (fun next' more' hx => ?_) (fun _ hx => hx)
              (fun _ hx hx' => absurd hx hx') h.queues.once
            obtain ⟨rfl, -⟩ := List.cons.inj hx
            exact .inr (hnext name next more hq hcanc)
          · refine h.popped hpend (l := [.callback (.execute next)]) (by simp [isPlain])
              (fun a ha => ?_) (h.queues.pop_start hq hnotlive hother)
            rcases mem_cons.mp ha with rfl | ha
            · obtain ⟨hqueue, hlive | hleave⟩ := h.queues.only name a (by rw [hq]; simp)
              · obtain ⟨p, hp⟩ := hlive.1
                exact ⟨servedAt_lt h.tables hp, hlive.2.2⟩
              · have hfin := h.leaving a hleave
                exact ⟨h.finished_lt a hfin, fun hm => (h.prepared a hm (by simp [hqueue])).2 hfin⟩
            · exact hexecuted a ha
      · rename_i hfirst
        exact h.popped hpend (l := []) (by simp) hexecuted
          (h.queues.remove hq hfirst hname hnotlive hother)

theorem QueueInv.setWaiting_none (h : QueueInv s) (path : String)
    (hdone : ∀ info ∈ s.cancelRequestTimers path, s.Finished info.requestBuilder) :
    QueueInv (s.setWaiting path none) := by
  -- only finished actors are served no more
  have hserved : ∀ p a, (s.setWaiting path none).servedAt p = some a → s.servedAt p = some a := by
    intro p a ha
    by_cases hne : p = path
    · subst hne
      cases hact : s.activeRequests p with
      | none => simp [servedAt, setWaiting, hact] at ha
      | some info => simpa [servedAt, setWaiting, hact] using ha
    · simpa [servedAt, setWaiting, hne] using ha
  have hkeep : ∀ p a, s.servedAt p = some a → ¬s.Finished a → (s.setWaiting path none).servedAt p = some a := by
    intro p a ha hx
    by_cases hne : p = path
    · subst hne
      cases hact : s.activeRequests p with
      | some info => simpa [servedAt, setWaiting, hact] using ha
      | none =>
        rw [servedAt, hact, Option.none_or, Option.map_eq_some_iff] at ha
        obtain ⟨info, hwait, rfl⟩ := ha
        exact absurd (hdone info hwait) hx
    · simpa [servedAt, setWaiting, hne] using ha
  refine { h with tables := h.tables.setWaiting_none path, queues := ?_, prepared := fun a ha hqueue => ?_ }
  · refine h.queues.retire ?_ ?_ fun _ _ _ hx => hx
    · rintro x ⟨⟨p, hp⟩, hx⟩
      exact ⟨⟨p, hserved p x hp⟩, hx⟩
    · rintro _ x - ⟨⟨p, hp⟩, hx⟩
      exact .inl ⟨⟨p, hkeep p x hp hx.1⟩, hx⟩
  · obtain ⟨⟨p, hp⟩, hx⟩ := h.prepared a ha hqueue
    exact ⟨⟨p, hkeep p a hp hx⟩, hx⟩

/-! ## A new actor -/

/-- A new actor is served, and is not in its queue before it is prepared. -/
theorem QueueInv.startRequest (h : QueueInv s) (hact : s.activeRequests path = none)
    (hwait : s.cancelRequestTimers path = none) (watcher : ASHandle) (builder : ASActor) (changePriority : Bool) :
    QueueInv (s.startRequest path watcher builder changePriority) := by
  have htables := h.tables.startRequest hwait watcher builder changePriority
  have hserved : (s.startRequest path watcher builder changePriority).servedAt =
      update s.servedAt path (some s.actors.length) :=
    servedAt_setActive_some (s := { s with actors := s.actors ++ [{ builder with path := path }] }) hwait
  have hnone : s.servedAt path = none := by simp [servedAt, hact, hwait]
  have hprep : (s.startRequest path watcher builder changePriority).preparing = s.actors.length :: s.preparing := rfl
  have hlen : (s.startRequest path watcher builder changePriority).actors.length = s.actors.length + 1 := by
    simp [ActionStage.startRequest, ActionStage.push, noteJoin, setActive]
  have hname : ∀ x < s.actors.length,
      (s.startRequest path watcher builder changePriority).requestQueueName x = s.requestQueueName x := by
    intro x hx
    show ((s.actors ++ [{ builder with path := path }])[x]?).bind (·.requestQueueName) = _
    rw [getElem?_append_left hx]
    rfl
  have hleaving : ∀ a, (s.startRequest path watcher builder changePriority).Leaving a ↔ s.Leaving a := by
    intro a
    simp [Leaving, ActionStage.startRequest, ActionStage.push, noteJoin, setActive]
  have hkept : ∀ p a, s.servedAt p = some a →
      (s.startRequest path watcher builder changePriority).servedAt p = some a := by
    intro p a ha
    have hne : p ≠ path := by
      rintro rfl
      rw [hnone] at ha
      cases ha
    rw [hserved]
    simpa [hne] using ha
  have hlive : ∀ x, (s.startRequest path watcher builder changePriority).Live x ↔ s.Live x := by
    intro x
    constructor
    · rintro ⟨⟨p, hp⟩, hx, hxprep⟩
      rw [hprep, mem_cons, not_or] at hxprep
      refine ⟨⟨p, ?_⟩, hx, hxprep.2⟩
      have hne : p ≠ path := by
        rintro rfl
        rw [hserved] at hp
        exact hxprep.1 (by simpa [eq_comm] using hp)
      rw [hserved] at hp
      simpa [hne] using hp
    · rintro ⟨⟨p, hp⟩, hx, hxprep⟩
      refine ⟨⟨p, hkept p x hp⟩, hx, ?_⟩
      rw [hprep, mem_cons, not_or]
      exact ⟨Nat.ne_of_lt (servedAt_lt h.tables hp), hxprep⟩
  have hunfinished : ¬s.Finished s.actors.length := fun hf => absurd (h.finished_lt _ hf) (Nat.lt_irrefl _)
  refine ⟨htables, ?_, fun a ha => ?_, fun a ha => ?_, fun a ha => h.leaving a ((hleaving a).mp ha), ?_, fun a ha => ?_,
    fun a ha hqueue => ?_⟩
  · have hrenamed : SerialQueues (s.startRequest path watcher builder changePriority).requestQueueName s.Live s.Leaving
        s.requestQueues s.executed := by
      refine h.queues.rename fun x hx => hname x ?_
      rcases hx with ⟨⟨p, hp⟩, -⟩ | hx
      · exact servedAt_lt h.tables hp
      · exact h.finished_lt x (h.leaving x hx)
    exact hrenamed.retire (fun x hx => (hlive x).mp hx) (fun _ x _ hx => .inl ((hlive x).mpr hx))
      fun _ x _ hx => (hleaving x).mpr hx
  · have hlt := h.executed_lt a ha
    omega
  · have hlt := h.finished_lt a ha
    omega
  · rw [hprep, nodup_cons]
    exact ⟨fun hm => absurd (h.unexecuted _ hm).1 (Nat.lt_irrefl _), h.prepared_once⟩
  · rw [hprep, mem_cons] at ha
    rcases ha with rfl | ha
    · exact ⟨by omega, fun hm => absurd (h.executed_lt _ hm) (Nat.lt_irrefl _)⟩
    · have hold := h.unexecuted a ha
      exact ⟨by omega, hold.2⟩
  · rw [hprep, mem_cons] at ha
    rcases ha with rfl | ha
    · exact ⟨⟨path, by rw [hserved]; simp⟩, hunfinished⟩
    · rw [hname a (h.unexecuted a ha).1] at hqueue
      obtain ⟨⟨p, hp⟩, hx⟩ := h.prepared a ha hqueue
      exact ⟨⟨p, hkept p a hp⟩, hx⟩

theorem QueueInv.enqueue (h : QueueInv s) {changePriority : Bool}
    (hpend : s.pending = .enqueue actor changePriority :: pending) :
    QueueInv ({ s with pending := pending }.enqueue actor changePriority) := by
  have hprep : s.preparing = actor :: pending.filterMap Instruction.enqueued := by
    unfold preparing
    rw [hpend]
    rfl
  have honce := h.prepared_once
  rw [hprep, nodup_cons] at honce
  have hm : actor ∈ s.preparing := by
    rw [hprep]
    exact mem_cons_self
  obtain ⟨hactor, hunexecuted⟩ := h.unexecuted actor hm
  have hrest : ∀ a ∈ pending.filterMap Instruction.enqueued, a ∈ s.preparing ∧ a ≠ actor := by
    intro a ha
    refine ⟨by rw [hprep]; exact mem_cons_of_mem actor ha, ?_⟩
    rintro rfl
    exact honce.1 ha
  have hlive : ∀ x, ({ s with pending := pending } : ActionStage).Live x → s.Live x ∨ x = actor := by
    rintro x ⟨hserved, hx, hxprep⟩
    by_cases hxa : x = actor
    · exact .inr hxa
    · refine .inl ⟨hserved, hx, ?_⟩
      rw [hprep, mem_cons, not_or]
      exact ⟨hxa, hxprep⟩
  have hkeep : ∀ x, s.Live x → ({ s with pending := pending } : ActionStage).Live x := by
    rintro x ⟨hserved, hx, hxprep⟩
    exact ⟨hserved, hx, fun hin => hxprep (hrest x hin).1⟩
  have hnew : s.requestQueueName actor ≠ none → ({ s with pending := pending } : ActionStage).Live actor :=
    fun hqueue => ⟨(h.prepared actor hm hqueue).1, (h.prepared actor hm hqueue).2, honce.1⟩
  have habsent : s.requestQueueName actor ≠ none → ∀ name, actor ∉ s.requestQueues name := fun hqueue =>
    h.queues.not_mem (fun hin => hin.2.2 hm) fun hin => (h.prepared actor hm hqueue).2 (h.leaving actor hin)
  have hiff : s.requestQueueName actor ≠ none →
      ∀ x, ({ s with pending := pending } : ActionStage).Live x ↔ s.Live x ∨ x = actor := by
    refine fun hqueue x => ⟨hlive x, ?_⟩
    rintro (hx | rfl)
    · exact hkeep x hx
    · exact hnew hqueue
  -- the rest of the invariant, whatever the queues become
  have hadd : ∀ (queues : String → List Nat) (l : List Instruction) (executed : List Nat),
      (∀ i ∈ l, i.isPlain = true) → (∀ a ∈ executed, a = actor) →
      SerialQueues s.requestQueueName ({ s with pending := pending } : ActionStage).Live s.Leaving queues
        (executed ++ s.executed) →
      QueueInv { s with requestQueues := queues, pending := l ++ pending, executed := executed ++ s.executed } := by
    intro queues l executed hl hexec hqueues
    have hleave : ∀ a, .removeRequestFromQueueAndProceedIfFirst a ∈ pending ↔ s.Leaving a := by
      intro a
      unfold Leaving
      rw [hpend]
      simp
    have hold : QueueInv { s with requestQueues := queues, pending := pending, executed := executed ++ s.executed } := by
      refine ⟨{ h.tables with }, hqueues.retire (fun _ hx => hx) (fun _ _ _ hx => .inl hx) fun _ x _ hx => (hleave x).mpr hx,
        fun a ha => ?_, h.finished_lt, fun a ha => h.leaving a ((hleave a).mp ha), honce.2,
        fun a ha => ⟨(h.unexecuted a (hrest a ha).1).1, fun hin => ?_⟩, fun a ha => h.prepared a (hrest a ha).1⟩
      · rcases mem_append.mp ha with ha | ha
        · rw [hexec a ha]
          exact hactor
        · exact h.executed_lt a ha
      · rcases mem_append.mp hin with hin | hin
        · exact (hrest a ha).2 (hexec a hin)
        · exact (h.unexecuted a (hrest a ha).1).2 hin
    exact hold.push hl
  unfold ActionStage.enqueue
  split
  · rename_i hname
    exact hadd s.requestQueues [.callback (.execute actor)] [actor] (by simp [isPlain]) (by simp)
      (h.queues.add_free hname hlive hkeep hunexecuted)
  · rename_i name hname
    have hname : s.requestQueueName actor = some name := hname
    have hqueue : s.requestQueueName actor ≠ none := by simp [hname]
    split
    · rename_i hq
      exact hadd _ [.callback (.execute actor)] [actor] (by simp [isPlain]) (by simp)
        (h.queues.add_first hname hq (hiff hqueue) hunexecuted (habsent hqueue))
    · rename_i first rest hq
      have hperm : (if changePriority then actor :: rest else rest ++ [actor]).Perm (actor :: rest) := by
        cases changePriority
        · exact perm_append_singleton _ _
        · exact List.Perm.refl _
      have hbehind := hadd _ [] [] (by simp) (by simp)
        (h.queues.add_behind hname hq hperm (hiff hqueue) hunexecuted (habsent hqueue name))
      cases changePriority <;> exact hbehind

/-! ## Requests -/

theorem QueueInv.joinRequest (watcher : ASHandle) (changePriority : Bool)
    (hjoined : QueueInv (s.joined path watcher info)) :
    QueueInv (s.joinRequest path watcher info changePriority) := by
  obtain ⟨_, rest, hrest, heq⟩ := joinRequest_cases s path watcher info changePriority
  rw [heq]
  refine hjoined.push fun i hi => ?_
  rcases mem_cons.mp hi with rfl | hi
  · rfl
  · rcases hrest with rfl | rfl
    · cases hi
    · rw [mem_singleton] at hi
      subst hi
      rfl

end

/-! ## Runs -/

variable {s : ActionStage}

theorem QueueInv.requestGeneric (h : QueueInv s) (joinOnly : Bool) (path : String) (changePriority : Bool)
    (watcher : ASHandle) (builder : Option ASActor) :
    QueueInv (s.requestGeneric joinOnly path changePriority watcher builder) := by
  rcases requestGeneric_cases s joinOnly path changePriority watcher builder with
    heq | ⟨info, hwait, heq⟩ | ⟨info, hact, heq⟩ | ⟨builder', hact, hwait, heq⟩ <;> rw [heq]
  · exact h
  · refine QueueInv.joinRequest watcher changePriority ?_
    exact h.of_served (h.tables.resumed hwait watcher) (servedAt_resumed h.tables hwait watcher)
      (by unfold joined; split <;> rfl) (by unfold joined; split <;> rfl) (by unfold joined; split <;> rfl)
      (by unfold joined; split <;> rfl) (by unfold joined; split <;> rfl) (by unfold joined; split <;> rfl)
  · refine QueueInv.joinRequest watcher changePriority ?_
    exact h.of_served (h.tables.joined hact watcher) (servedAt_joined hact watcher)
      (by unfold joined; split <;> rfl) (by unfold joined; split <;> rfl) (by unfold joined; split <;> rfl)
      (by unfold joined; split <;> rfl) (by unfold joined; split <;> rfl) (by unfold joined; split <;> rfl)
  · exact h.startRequest hact hwait watcher builder' changePriority

theorem QueueInv.call (h : QueueInv s) (method : StageCall)
    (hcalm : ∀ a ∈ s.preparing, s.requestQueueName a ≠ none → ¬(s.call method).Finished a) :
    QueueInv (s.call method) := by
  cases method with
  | request joinOnly path changePriority watcher builder =>
    exact h.requestGeneric joinOnly path changePriority watcher builder
  | changeActorPriority path => exact h.changeActorPriority path
  | removeWatcher watcher allKeys => exact h.push (by simp [isPlain])
  | removeWatcherFromPath watcher path => exact h.removeWatcherByHandle watcher path hcalm
  | removeAllWatchersFromPath path => exact h.removeAllWatchersFromPath path hcalm
  | actionCompleted action reporter =>
    have hrep : QueueInv { s with reported := reporter.toList ++ s.reported } :=
      { h with tables := { h.tables with } }
    exact hrep.actionCompleted action hcalm
  | performCancelRequest path => exact h.performCancelRequest path hcalm
  | reset watcher => exact { h with tables := { h.tables with } }

theorem QueueInv.exec (h : QueueInv s) {instruction : Instruction} {pending : List Instruction}
    (hpend : s.pending = instruction :: pending)
    (hcalm : ∀ a ∈ s.preparing, s.requestQueueName a ≠ none →
      ¬({ s with pending := pending }.exec instruction).Finished a)
    (hremoves : s.RemovesCancelled .next s.pending) : QueueInv ({ s with pending := pending }.exec instruction) := by
  have hpreparing : instruction.enqueued = none →
      ({ s with pending := pending } : ActionStage).preparing = s.preparing := by
    intro hnone
    unfold preparing
    rw [hpend, filterMap_cons_none hnone]
  cases instruction with
  | callback code => exact h.pop hpend rfl
  | enqueue actor changePriority => exact h.enqueue hpend
  | changeActorPriority path => exact (h.pop hpend rfl).changeActorPriority path
  | notify watcher actor path =>
    have hold := h.pop hpend rfl
    simp only [ActionStage.exec, ActionStage.notify]
    split
    · exact hold
    · have hnoted : QueueInv (({ s with pending := pending } : ActionStage).noteCompletion watcher actor) :=
        { hold with tables := { hold.tables with } }
      exact hnoted.push (by simp [isPlain])
  | removeRequestFromQueueAndProceedIfFirst actor => exact h.proceed hpend
  | removeCancelTimer path =>
    rw [hpend] at hremoves
    exact (h.pop hpend rfl).setWaiting_none path hremoves
  | removeWatcher watcher path =>
    refine (h.pop hpend rfl).removeWatcherByHandle watcher path fun a ha => hcalm a ?_
    rwa [← hpreparing rfl]

theorem QueueInv.step (h : QueueInv s) {move : StageMove} (hcalm : s.Calm move) : QueueInv (s.step move) := by
  have hprepared := hcalm.1
  cases move with
  | call method =>
    simp only [ActionStage.step] at hprepared ⊢
    split
    · rename_i haccepts
      rw [if_pos haccepts] at hprepared
      exact h.call method hprepared
    · exact h
  | next =>
    simp only [ActionStage.step] at hprepared ⊢
    split
    · exact h
    · rename_i instruction pending hpend
      rw [hpend] at hprepared
      exact h.exec hpend hprepared hcalm.2

/-! ## The queues when nothing is left to do -/

/-- No path is in both tables, and the watchers of an active request are there and distinct. -/
structure InStep (s : ActionStage) : Prop where
  disjoint : ∀ path, s.activeRequests path = none ∨ s.cancelRequestTimers path = none
  watchers : ∀ path info, s.activeRequests path = some info → info.watchers ≠ [] ∧ info.watchers.Nodup
  executed_once : s.executed.Nodup

/-- A queue holds the actors of its name that are active or wait for cancellation and are not finished, once each, and
only the first one has been executed. -/
structure Serial (s : ActionStage) : Prop where
  holds : ∀ name actor, actor ∈ s.requestQueues name ↔ s.requestQueueName actor = some name ∧ ¬s.Finished actor ∧
    ∃ path info, (s.activeRequests path = some info ∨ s.cancelRequestTimers path = some info) ∧
      info.requestBuilder = actor
  once : ∀ name, (s.requestQueues name).Nodup
  head : ∀ name first rest, s.requestQueues name = first :: rest →
    first ∈ s.executed ∧ ∀ actor ∈ rest, actor ∉ s.executed

/-- A change of the priority leaves the first actor where it is. -/
structure KeepsHeads (s : ActionStage) : Prop where
  changed : ∀ path name, ((s.changeActorPriority path).requestQueues name).head? = (s.requestQueues name).head?
  inserted : ∀ actor changePriority name, s.requestQueues name ≠ [] →
    ((s.enqueue actor changePriority).requestQueues name).head? = (s.requestQueues name).head?

theorem keepsHeads (s : ActionStage) : s.KeepsHeads := by
  refine ⟨fun path name => ?_, fun actor changePriority name hne => ?_⟩
  · rcases changeActorPriority_cases s path with heq | ⟨name', first, rest, rest', hq, -, heq⟩ <;> rw [heq]
    by_cases hname : name = name'
    · subst hname
      simp [setQueue, hq]
    · simp [setQueue, hname]
  · unfold enqueue
    split
    · rfl
    · rename_i name' _
      by_cases hname : name = name'
      · subst hname
        split
        · rename_i hq
          exact absurd hq hne
        · rename_i first rest hq
          cases changePriority <;> simp [setQueue, hq]
      · split <;> simp [setQueue, execute, push, hname]

theorem QueueInv.serial (h : QueueInv s) (hpend : s.pending = []) : s.Serial := by
  have hleaving : ∀ actor, ¬s.Leaving actor := by
    intro actor hm
    unfold Leaving at hm
    rw [hpend] at hm
    cases hm
  refine ⟨fun name actor => ?_, h.queues.nodup, fun name first rest hq => ?_⟩
  · rw [h.queues.mem_iff hleaving]
    refine and_congr_right fun _ => ?_
    have hnone : actor ∉ s.preparing := by
      unfold preparing
      rw [hpend]
      exact not_mem_nil
    unfold Live
    rw [and_comm, and_iff_left hnone]
    refine and_congr_right fun _ => exists_congr fun path => ⟨fun hserved => ?_, ?_⟩
    · unfold servedAt at hserved
      rw [Option.map_eq_some_iff] at hserved
      obtain ⟨info, hinfo, hactor⟩ := hserved
      rcases Option.or_eq_some_iff.mp hinfo with hinfo | ⟨-, hinfo⟩
      · exact ⟨info, .inl hinfo, hactor⟩
      · exact ⟨info, .inr hinfo, hactor⟩
    · rintro ⟨info, hinfo | hinfo, rfl⟩
      · exact servedAt_active hinfo
      · exact servedAt_waiting h.tables hinfo
  · exact ⟨(h.queues.head name first rest hq).resolve_right (hleaving first),
      h.queues.tail name first rest hq⟩

/-- Whatever is called in a calm run, the tables stay in step and no actor is executed twice; when the stage has nothing
left to do its queues are serial, and a change of the priority never displaces the first actor of a queue. -/
theorem actorQueues_serial (moves : List StageMove) (h : AllSteps step Calm initial moves) :
    (moves.foldl step initial).InStep ∧
      ((moves.foldl step initial).pending = [] → (moves.foldl step initial).Serial) ∧
      (moves.foldl step initial).KeepsHeads := by
  have hstep : ∀ s move, QueueInv s → s.Calm move → QueueInv (s.step move) := fun _ _ hinv hcalm => hinv.step hcalm
  have hinv := AllSteps.invariant hstep QueueInv.initial h
  refine ⟨⟨fun path => ?_, hinv.tables.watchers, hinv.queues.once⟩, hinv.serial, keepsHeads _⟩
  cases hactive : (moves.foldl step initial).activeRequests path with
  | none => exact Or.inl rfl
  | some info => exact Or.inr (hinv.tables.disjoint path info hactive)

/-- Three requests for one queue: the first completes inside its own `execute:`, and is joined while the second is
prepared; the third is moved forward, the second is cancelled while it waits. -/
def threeRequests : List StageMove :=
  let actor : ASActor := ⟨"", some "queue", true⟩
  [.call (.request false "first" false 1 (some actor)), .next, .next,
    .call (.request false "second" false 1 (some actor)), .call (.request false "first" false 2 none), .next, .next, .next,
    .call (.request false "third" false 2 (some actor)), .next, .next,
    .call (.changeActorPriority "third"), .call (.actionCompleted "first" (some 0)), .next, .next, .next, .next, .next, .next,
    .next, .call (.removeWatcherFromPath 1 "second"), .call (.performCancelRequest "second"), .next, .next, .next]

theorem threeRequests_serial : AllSteps step Calm initial threeRequests ∧
    (threeRequests.foldl step initial).InStep ∧
      ((threeRequests.foldl step initial).pending = [] → (threeRequests.foldl step initial).Serial) ∧
      (threeRequests.foldl step initial).KeepsHeads :=
  have h : AllSteps step Calm initial threeRequests := by decide +kernel
  ⟨h, actorQueues_serial threeRequests h⟩

/-- An actor loses its only watcher inside its own `prepare:`. It is cancelled, and then comes into its queue. -/
def cancelledWhilePrepared : List StageMove :=
  [.call (.request false "path" false 1 (some ⟨"", some "queue", false⟩)), .call (.removeWatcherFromPath 1 "path"), .next,
    .next, .next, .next, .next]

/-- Inside its `cancel` an actor is joined and completes, and another one is started for the path and abandoned. Then
`performCancelRequest:` removes the entry of the other one. -/
def abandonedWhileCancelled : List StageMove :=
  let actor : ASActor := ⟨"", some "queue", true⟩
  [.call (.request false "path" false 1 (some actor)), .next, .next, .next, .call (.removeWatcherFromPath 1 "path"),
    .call (.performCancelRequest "path"), .call (.request false "path" false 2 none), .next,
    .call (.actionCompleted "path" (some 0)), .next, .next, .next, .call (.request false "path" false 2 (some actor)), .next,
    .next, .next, .call (.removeWatcherFromPath 2 "path"), .next, .next, .next]

/-- An actor that is finished, and one that is in neither table, stay in the queue. -/
theorem actorQueues_stuck :
    ((cancelledWhilePrepared.foldl step initial).pending = [] ∧ ¬(cancelledWhilePrepared.foldl step initial).Serial) ∧
      (abandonedWhileCancelled.foldl step initial).pending = [] ∧
      ¬(abandonedWhileCancelled.foldl step initial).Serial := by
  refine ⟨⟨by decide +kernel, fun h => ?_⟩, by decide +kernel, fun h => ?_⟩
  · exact ((h.holds "queue" 0).mp (by decide +kernel)).2.1 (by decide +kernel)
  · obtain ⟨-, -, path, info, hin, hactor⟩ := (h.holds "queue" 1).mp (by decide +kernel)
    have htables := TableInv.initial.run abandonedWhileCancelled
    have hpath : (abandonedWhileCancelled.foldl step initial).pathOf 1 = some path := by
      rw [← hactor]
      exact hin.elim (htables.active_path path info) (htables.waiting_path path info)
    obtain rfl : "path" = path := Option.some.inj ((by decide +kernel : _ = _).symm.trans hpath)
    have hnone : (abandonedWhileCancelled.foldl step initial).servedAt "path" = none := by decide +kernel
    rcases hin with hin | hin
    · rw [servedAt_active hin] at hnone
      cases hnone
    · rw [servedAt_waiting htables hin] at hnone
      cases hnone

end ActionStage

end TelegramClient.Actions
