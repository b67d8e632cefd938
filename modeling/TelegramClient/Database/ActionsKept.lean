import TelegramClient.Database.ActionSteps
import TelegramClient.Lib.Runs

/-!
# No queued action is lost

A row of the action queue leaves the table when a later action of the same type and subject is stored, or when a
confirmation deletes it. The confirmations of `execute:` are built from the remembered conversation or message, so that
most of them find their row by type and subject only.

* `RowsKept` : **a row leaves only if it is replaced, or confirmed after a request that was built from this very row**;
* `QueueInv` : what the actor remembers belongs to the rows that its requests were built from;
* `queuedActions_kept` : **in every run whose steps meet the two conditions no row is lost**.
-/

namespace TelegramClient.Database
open List

namespace ActionQueue

/-- A request built from the row was answered, or a message built from it went to the peer of a secret chat. -/
def SentFor (s : ActionQueue) (row : ActionRow) : Prop :=
  (∃ pending ∈ s.answered, row ∈ pending.origin.builtFrom ∧ pending.request.IsFor row.action) ∨
    ∃ entry ∈ s.serviceMessages, row ∈ entry.2.2 ∧ entry.2.1.IsFor entry.1 row.action

/-- The job that runs stores an action of the type and subject of the row. -/
def ReplacedNow (s : ActionQueue) (row : ActionRow) : Prop :=
  ∃ actions jobs, s.databaseQueue = .storeQueuedActions actions :: jobs ∧ ∃ action ∈ actions, action.key = row.action.key

/-- The job that runs is the confirmation of a request that was built from the row. -/
def ConfirmedNow (s : ActionQueue) (row : ActionRow) : Prop :=
  ∃ actions requireFullMatch origin jobs,
    s.databaseQueue = .confirmQueuedActions actions requireFullMatch origin :: jobs ∧
      row ∈ origin.builtFrom ∧ s.SentFor row

/-- Every row stays, is replaced, or is confirmed after what was sent for it. Rows are told apart by their stamps. -/
def RowsKept (s : ActionQueue) (event : ActionQueueEvent) : Prop :=
  ∀ row ∈ s.table, row ∈ (s.stepQueue event).table ∨ s.ReplacedNow row ∨ s.ConfirmedNow row

/-! ## The conditions -/

/-- When a confirmation runs, it finds no row that was stored after the load that it goes back to. -/
def ConfirmsWhatItLoaded (s : ActionQueue) : ActionQueueEvent → Prop
  | .runDatabase _ =>
    match s.databaseQueue with
    | .confirmQueuedActions actions requireFullMatch origin :: _ =>
      ∀ row ∈ s.table, origin.loaded.bound ≤ row.stamp →
        ∀ action ∈ actions, action.confirms requireFullMatch row.action = false
    | _ => True
  | _ => True

def MakesRequest (s : ActionQueue) : ActionQueueEvent → Prop
  | .runStage records =>
    match s.phase with
    | .loaded loaded => (nextBatch records.firstKey loaded.rows).makesRequest records = true
    | _ => True
  | _ => True

end ActionQueue

/-! ## The invariant -/

/-- What was loaded has one row for a key, and every row of the table that is older. -/
structure LoadedInv (table : List ActionRow) (nextStamp : Nat) (loaded : LoadedActions) : Prop where
  bound_le : loaded.bound ≤ nextStamp
  keys : ∀ row ∈ loaded.rows, ∀ row' ∈ loaded.rows, row.action.key = row'.action.key → row = row'
  complete : ∀ row ∈ table, row.stamp < loaded.bound → row ∈ loaded.rows

structure OriginInv (table : List ActionRow) (nextStamp : Nat) (origin : Origin) : Prop extends
    LoadedInv table nextStamp origin.loaded where
  built : ∀ row ∈ origin.builtFrom, row ∈ origin.loaded.rows

variable {table : List ActionRow} {nextStamp : Nat}

theorem LoadedInv.later {table' : List ActionRow} {nextStamp' : Nat} {loaded : LoadedActions}
    (h : LoadedInv table nextStamp loaded) (htable : ∀ row ∈ table', row ∈ table ∨ nextStamp ≤ row.stamp)
    (hstamp : nextStamp ≤ nextStamp') : LoadedInv table' nextStamp' loaded := by
  refine ⟨h.bound_le.trans hstamp, h.keys, fun row hrow hlt => ?_⟩
  rcases htable row hrow with hold | hnew
  · exact h.complete row hold hlt
  · have hbound := h.bound_le
    omega

theorem OriginInv.mem_builtFrom {origin : Origin} (h : OriginInv table nextStamp origin)
    {actions : List TGDatabaseAction} (hcovers : Covers actions origin) {row : ActionRow} (hrow : row ∈ table)
    (hold : row.stamp < origin.loaded.bound) {action : TGDatabaseAction} (hact : action ∈ actions)
    {requireFullMatch : Bool} (hconf : action.confirms requireFullMatch row.action = true) :
    row ∈ origin.builtFrom := by
  obtain ⟨built, hbuilt, hkey⟩ := hcovers action hact
  have hrowKey := key_of_confirms hconf
  have heq : row = built :=
    h.keys row (h.complete row hrow hold) built (h.built built hbuilt) (hrowKey.trans hkey.symm)
  rw [heq]
  exact hbuilt

namespace ActionQueue

structure ConfirmInv (s : ActionQueue) (actions : List TGDatabaseAction) (origin : Origin) : Prop where
  fromLoaded : OriginInv s.table s.nextStamp origin
  covers : Covers actions origin
  sent : ∀ row ∈ origin.builtFrom, s.SentFor row

structure QueueInv (s : ActionQueue) : Prop where
  table : TableInv s.table s.nextStamp
  loaded : ∀ loaded, s.phase = .loaded loaded → LoadedInv s.table s.nextStamp loaded
  pending : ∀ pending ∈ s.requests, OriginInv s.table s.nextStamp pending.origin ∧ pending.Prepared s.memory
  queued : ∀ actions requireFullMatch origin,
    .confirmQueuedActions actions requireFullMatch origin ∈ s.databaseQueue → s.ConfirmInv actions origin

/-! ## Keeping the invariant -/

namespace QueueInv

variable {s : ActionQueue}

theorem setTable (h : QueueInv s) (htable : TableInv table nextStamp)
    (hold : ∀ row ∈ table, row ∈ s.table ∨ s.nextStamp ≤ row.stamp) (hstamp : s.nextStamp ≤ nextStamp) :
    QueueInv { s with table := table, nextStamp := nextStamp } := by
  have later {origin : Origin} (ho : OriginInv s.table s.nextStamp origin) : OriginInv table nextStamp origin :=
    ⟨ho.toLoadedInv.later hold hstamp, ho.built⟩
  refine ⟨htable, fun loaded hl => (h.loaded loaded hl).later hold hstamp, fun pending hp => ?_,
    fun actions full origin hq => ?_⟩
  · have hpend := h.pending pending hp
    exact ⟨later hpend.1, hpend.2⟩
  · have hqueued := h.queued actions full origin hq
    exact ⟨later hqueued.fromLoaded, hqueued.covers, hqueued.sent⟩

theorem setQueue (h : QueueInv s) {jobs : List DatabaseJob}
    (hjobs : ∀ actions full origin, .confirmQueuedActions actions full origin ∈ jobs → s.ConfirmInv actions origin) :
    QueueInv { s with databaseQueue := jobs } := by
  refine ⟨h.table, h.loaded, h.pending, fun actions full origin hq => ?_⟩
  have hjob := hjobs actions full origin hq
  exact ⟨hjob.fromLoaded, hjob.covers, hjob.sent⟩

variable {actions : List TGDatabaseAction} {origin : Origin}

section
variable (h : QueueInv s)
include h

theorem confirmQueuedActions (hconfirm : s.ConfirmInv actions origin) (full : Bool) :
    QueueInv (s.confirmQueuedActions actions full origin) := by
  refine h.setQueue fun actions' full' origin' hm => ?_
  rcases mem_append.mp hm with hold | hnew
  · exact h.queued actions' full' origin' hold
  · simp only [mem_singleton, DatabaseJob.confirmQueuedActions.injEq] at hnew
    obtain ⟨rfl, -, rfl⟩ := hnew
    exact hconfirm

theorem setPhase {phase : ActorPhase} (hl : ∀ loaded, phase = .loaded loaded → LoadedInv s.table s.nextStamp loaded)
    (hp : ∀ pending ∈ ({ s with phase := phase } : ActionQueue).requests,
      OriginInv s.table s.nextStamp pending.origin ∧ pending.Prepared s.memory) :
    QueueInv { s with phase := phase } := by
  refine ⟨h.table, hl, hp, fun actions full origin hq => ?_⟩
  have hjob := h.queued actions full origin hq
  exact ⟨hjob.fromLoaded, hjob.covers, hjob.sent⟩

theorem send {requests : List PendingRequest}
    (hr : ∀ pending ∈ requests, OriginInv s.table s.nextStamp pending.origin ∧ pending.Prepared s.memory) :
    QueueInv (s.send requests) :=
  h.setPhase (fun _ hl => nomatch hl) hr

theorem execute : QueueInv s.execute := by
  have hload : QueueInv { s with databaseQueue := s.databaseQueue ++ [.loadQueuedActions] } := by
    refine h.setQueue fun actions full origin hm => ?_
    have hold : .confirmQueuedActions actions full origin ∈ s.databaseQueue := by simpa using hm
    exact h.queued actions full origin hold
  exact hload.setPhase (fun _ hl => nomatch hl) fun _ hp => absurd hp not_mem_nil

theorem confirmAndExecute (hconfirm : s.ConfirmInv actions origin) (full : Bool) :
    QueueInv (s.confirmQueuedActions actions full origin).execute :=
  (h.confirmQueuedActions hconfirm full).execute

theorem remember (hnone : s.requests = []) (memory : ActorMemory) : QueueInv { s with memory := memory } := by
  refine ⟨h.table, h.loaded, fun pending hp => ?_, fun actions full origin hq => ?_⟩
  · change pending ∈ s.requests at hp
    rw [hnone] at hp
    exact absurd hp not_mem_nil
  · have hjob := h.queued actions full origin hq
    exact ⟨hjob.fromLoaded, hjob.covers, hjob.sent⟩

theorem addSent (answered : List PendingRequest) (messages : List (Int × SecretServiceMessage × List ActionRow)) :
    QueueInv { s with answered := s.answered ++ answered, serviceMessages := s.serviceMessages ++ messages } := by
  refine ⟨h.table, h.loaded, h.pending, fun actions full origin hq => ?_⟩
  have hjob := h.queued actions full origin hq
  refine ⟨hjob.fromLoaded, hjob.covers, fun row hrow => ?_⟩
  rcases hjob.sent row hrow with ⟨pending, hp, hsent⟩ | ⟨entry, hentry, hsent⟩
  · exact .inl ⟨pending, mem_append_left _ hp, hsent⟩
  · exact .inr ⟨entry, mem_append_left _ hentry, hsent⟩

theorem startBatch {loaded : LoadedActions} (hph : s.phase = .loaded loaded) {records : PeerRecords}
    (hmakes : (nextBatch records.firstKey loaded.rows).makesRequest records = true) :
    QueueInv (s.startBatch records loaded (nextBatch records.firstKey loaded.rows)) := by
  have hnone := requests_of_loaded hph
  have originInv {origin : Origin} (heq : origin.loaded = loaded)
      (hbuilt : ∀ row ∈ origin.builtFrom, row ∈ (nextBatch records.firstKey loaded.rows).rows) :
      OriginInv s.table s.nextStamp origin := by
    obtain ⟨_, builtFrom⟩ := origin
    obtain rfl := heq
    exact ⟨h.loaded _ hph, fun row hrow => (mem_nextBatch (hbuilt row hrow)).1⟩
  have hstep := startBatch_step s records loaded records.firstKey
  revert hstep
  generalize s.startBatch records loaded (nextBatch records.firstKey loaded.rows) = s'
  intro hstep
  cases hstep with
  | sends memory requests hne hprep horigin =>
    refine (h.remember hnone memory).send fun pending hp => ⟨?_, hprep pending hp⟩
    exact originInv (horigin pending hp).1 (horigin pending hp).2
  | confirms memory messages actions full builtFrom hrows hsent hbuilt hconf hcovers =>
    have hadded := (h.remember hnone memory).addSent [] messages
    rw [append_nil] at hadded
    refine hadded.confirmAndExecute ⟨originInv rfl fun row hrow => ?_, hcovers hmakes, fun row hrow => Or.inr ?_⟩ full
    · obtain ⟨message, hmsg, hm⟩ := hbuilt row hrow
      exact (hsent message hmsg row hm).1
    · obtain ⟨message, hmsg, hm⟩ := hbuilt row hrow
      exact ⟨message, mem_append_right _ hmsg, hm, (hsent message hmsg row hm).2⟩
  | completes => exact h.setPhase (fun _ hl => nomatch hl) fun _ hp => absurd hp not_mem_nil

end

variable {pending : PendingRequest}

section
variable (h : QueueInv s)
include h

theorem handleAnswer (hpend : OriginInv s.table s.nextStamp pending.origin ∧ pending.Prepared s.memory)
    (hsent : ∀ row ∈ pending.origin.builtFrom, s.SentFor row) (answer : Answer) :
    QueueInv (s.handleAnswer pending answer) := by
  have hstep := handleAnswer_step answer hpend.2
  revert hstep
  generalize s.handleAnswer pending answer = s'
  intro hstep
  cases hstep with
  | continues next hcontinues horigin hprep =>
    refine h.send fun p hp => ?_
    obtain rfl := mem_singleton.mp hp
    exact ⟨horigin ▸ hpend.1, hprep⟩
  | settles actions full hconf hcovers => exact h.confirmAndExecute ⟨hpend.1, hcovers, hsent⟩ full
  | settlesPart actions full hconf hcovers => exact h.confirmQueuedActions ⟨hpend.1, hcovers, hsent⟩ full
  | dropsLast => exact h.execute
  | drops => exact h

theorem answer {index : Nat} (hidx : s.requests[index]? = some pending) (answer : Answer) :
    QueueInv ((s.removeRequest index pending).handleAnswer pending answer) := by
  have hpend := h.pending pending (mem_of_getElem? hidx)
  have hanswered := h.addSent [pending] []
  rw [append_nil] at hanswered
  have hrest : QueueInv (s.removeRequest index pending) :=
    hanswered.setPhase (fun _ hl => nomatch hl) fun p hp => h.pending p (mem_of_mem_eraseIdx hp)
  refine hrest.handleAnswer hpend (fun row hrow => Or.inl ?_) answer
  exact ⟨pending, mem_append_right _ (mem_singleton_self _), hrow, hpend.2.isFor row hrow⟩

theorem storeRows (actions : List TGDatabaseAction) : QueueInv (s.storeRows actions) := by
  have hstep := storeRows_step s actions
  rw [hstep.rest]
  exact h.setTable (hstep.table h.table) hstep.old_or_new hstep.stamp_le

theorem runJob (order : RowOrder ActionRow) (job : DatabaseJob) : QueueInv (s.runJob order job) := by
  cases job with
  | storeQueuedActions actions => exact h.storeRows actions
  | confirmQueuedActions actions full origin =>
    exact h.setTable (h.table.filter _) (fun row hrow => .inl (mem_of_mem_filter hrow)) (Nat.le_refl _)
  | loadQueuedActions =>
    have hm {row : ActionRow} : row ∈ order.read s.table ↔ row ∈ s.table := (order.perm s.table).mem_iff
    refine h.setPhase (fun loaded hl => ?_) fun _ hp => absurd hp not_mem_nil
    obtain rfl := ActorPhase.loaded.inj hl
    exact ⟨Nat.le_refl _, fun row hrow row' hrow' => h.table.keys row (hm.mp hrow) row' (hm.mp hrow'),
      fun row hrow _ => hm.mpr hrow⟩

theorem step {event : ActionQueueEvent} (hmakes : s.MakesRequest event) : QueueInv (s.stepQueue event) := by
  cases event with
  | storeQueuedActions actions =>
    refine h.setQueue fun actions' full origin hm => ?_
    have hold : .confirmQueuedActions actions' full origin ∈ s.databaseQueue := by simpa using hm
    exact h.queued actions' full origin hold
  | requestActor =>
    dsimp only [stepQueue]
    split
    · exact h.execute
    · exact h
  | runDatabase order =>
    dsimp only [stepQueue]
    split
    · exact h
    · next job jobs heq =>
      refine (h.setQueue fun actions full origin hm => ?_).runJob order job
      exact h.queued actions full origin (by rw [heq]; exact mem_cons_of_mem job hm)
  | runStage records =>
    dsimp only [stepQueue]
    split
    · next loaded hph =>
      unfold MakesRequest at hmakes
      rw [hph] at hmakes
      exact h.startBatch hph hmakes
    · exact h
  | answer index answer =>
    dsimp only [stepQueue]
    split
    · exact h
    · next pending hidx => exact h.answer hidx answer

end

end QueueInv

theorem queueInv_init (actions : List TGDatabaseAction) : QueueInv (initActionQueue actions) := by
  refine QueueInv.storeRows ⟨⟨by simp, by simp⟩, fun _ hl => ?_, fun _ hp => ?_, by simp⟩ actions
  · exact ActorPhase.noConfusion hl
  · exact absurd hp not_mem_nil

/-! ## What a step does to the table -/

variable {s : ActionQueue}

theorem rowsKept_runDatabase (h : QueueInv s) (order : RowOrder ActionRow)
    (hclean : s.ConfirmsWhatItLoaded (.runDatabase order)) : s.RowsKept (.runDatabase order) := by
  intro row hrow
  unfold ConfirmsWhatItLoaded at hclean
  dsimp only [stepQueue]
  cases hq : s.databaseQueue with
  | nil => exact .inl hrow
  | cons job jobs =>
    cases job with
    | storeQueuedActions actions =>
      have hpopped : row ∈ ({ s with databaseQueue := jobs } : ActionQueue).table := hrow
      rcases (storeRows_step _ actions).kept_or_replaced row hpopped with hkept | hreplaced
      · exact .inl hkept
      · exact .inr (.inl ⟨actions, jobs, hq, hreplaced⟩)
    | confirmQueuedActions actions full origin =>
      by_cases hconf : actions.any fun action => action.confirms full row.action
      · -- the row was there when the load ran, and the request was built from it
        rw [hq] at hclean
        obtain ⟨action, hact, hmatch⟩ := any_eq_true.mp hconf
        have hjob := h.queued actions full origin (by rw [hq]; exact mem_cons_self)
        have hold : row.stamp < origin.loaded.bound := by
          by_contra hnew
          have hno := hclean row hrow (Nat.le_of_not_lt hnew) action hact
          rw [hno] at hmatch
          exact Bool.false_ne_true hmatch
        have hbuilt := hjob.fromLoaded.mem_builtFrom hjob.covers hrow hold hact hmatch
        exact .inr (.inr ⟨actions, full, origin, jobs, hq, hbuilt, hjob.sent row hbuilt⟩)
      · exact .inl (mem_filter.mpr ⟨hrow, by simpa using hconf⟩)
    | loadQueuedActions => exact .inl hrow

theorem rowsKept (h : QueueInv s) {event : ActionQueueEvent} (hclean : s.ConfirmsWhatItLoaded event) :
    s.RowsKept event := by
  cases event with
  | runDatabase order => exact rowsKept_runDatabase h order hclean
  | storeQueuedActions actions => exact fun row hrow => .inl hrow
  | requestActor =>
    intro row hrow
    refine Or.inl ?_
    dsimp only [stepQueue]
    split <;> exact hrow
  | runStage records =>
    intro row hrow
    refine Or.inl ?_
    dsimp only [stepQueue]
    split
    · next loaded hph => rwa [(startBatch_step s records loaded records.firstKey).table]
    · exact hrow
  | answer index answer =>
    intro row hrow
    refine Or.inl ?_
    dsimp only [stepQueue]
    split
    · exact hrow
    · next pending hidx =>
      have hpend := h.pending pending (mem_of_getElem? hidx)
      have hstep : AnswerStep (s.removeRequest index pending) pending answer _ := handleAnswer_step answer hpend.2
      rwa [hstep.table]

/-- **No queued action is lost**, over any table and in any order of steps, as long as no confirmation finds a row that was
stored after its load, and the actor sends something for what it takes up. -/
theorem queuedActions_kept (actions : List TGDatabaseAction) {events : List ActionQueueEvent}
    (h : AllSteps stepQueue (fun s event => s.ConfirmsWhatItLoaded event ∧ s.MakesRequest event)
      (initActionQueue actions) events) :
    AllSteps stepQueue RowsKept (initActionQueue actions) events := by
  have hstep : ∀ s event, QueueInv s → s.ConfirmsWhatItLoaded event ∧ s.MakesRequest event →
      QueueInv (s.stepQueue event) := fun _ _ hinv hcond => hinv.step hcond.2
  have hkept : ∀ s event, QueueInv s → s.ConfirmsWhatItLoaded event ∧ s.MakesRequest event → s.RowsKept event :=
    fun _ _ hinv hcond => rowsKept hinv hcond.1
  exact AllSteps.of_invariant hstep hkept (queueInv_init actions) h

def readSecretChat (date : Int) : TGDatabaseAction := ⟨.readConversation, -3000000000, date, 0, nofun⟩

/-- A chat with a user who has sent a message. -/
def readUserChat : TGDatabaseAction := ⟨.readConversation, 5, 11, 0, nofun⟩

def secretChatRecords : PeerRecords := ⟨fun _ => 7, fun _ => 9, fun _ => 73, id, 0⟩

/-- Another chat is read while the request for the first one is on its way. The confirmation leaves its action, which is
then loaded, sent, answered and confirmed itself. -/
theorem queuedActions_kept_read :
    AllSteps stepQueue RowsKept (initActionQueue [readSecretChat 100])
      [.requestActor, .runDatabase .asStored, .runStage secretChatRecords, .storeQueuedActions [readUserChat],
        .runDatabase .asStored, .answer 0 (.success 0), .runDatabase .asStored, .runDatabase .asStored,
        .runStage secretChatRecords, .answer 0 (.success 0), .runDatabase .asStored] := by
  apply queuedActions_kept
  refine ⟨⟨trivial, trivial⟩, ⟨trivial, trivial⟩, ⟨trivial, rfl⟩, ⟨trivial, trivial⟩, ⟨trivial, trivial⟩,
    ⟨trivial, trivial⟩, ⟨?_, trivial⟩, ⟨trivial, trivial⟩, ⟨trivial, rfl⟩, ⟨trivial, trivial⟩, ⟨?_, trivial⟩, trivial⟩
  · have hnew : ∀ row ∈ [ActionRow.mk 0 (readSecretChat 100), ⟨1, readUserChat⟩], 1 ≤ row.stamp →
        ∀ action ∈ [readSecretChat 100], action.confirms false row.action = false := by decide
    exact hnew
  · have hnew : ∀ row ∈ [ActionRow.mk 1 readUserChat], 2 ≤ row.stamp →
        ∀ action ∈ [readUserChat], action.confirms false row.action = false := by decide
    exact hnew

/-- The chat is read further while the request for the earlier date is on its way, and the confirmation deletes the
later action. -/
theorem laterRead_lost :
    ¬∀ actions events, AllSteps stepQueue RowsKept (initActionQueue actions) events := by
  intro h
  have hrun := allSteps_iff_forall.mp (h [readSecretChat 100]
    [.requestActor, .runDatabase .asStored, .runStage secretChatRecords, .storeQueuedActions [readSecretChat 200],
      .runDatabase .asStored, .answer 0 (.success 0), .runDatabase .asStored])
  have hlost := hrun [.requestActor, .runDatabase .asStored, .runStage secretChatRecords,
    .storeQueuedActions [readSecretChat 200], .runDatabase .asStored, .answer 0 (.success 0)] (.runDatabase .asStored) []
    rfl ⟨1, readSecretChat 200⟩ (by decide)
  rcases hlost with hkept | ⟨actions, jobs, hqueue, -⟩ | ⟨actions, full, origin, jobs, hqueue, hbuilt, -⟩
  · exact absurd hkept (by decide)
  · exact DatabaseJob.noConfusion (List.cons.inj hqueue).1
  · obtain ⟨-, -, rfl⟩ := DatabaseJob.confirmQueuedActions.inj (List.cons.inj hqueue).1
    exact absurd hbuilt (by decide)

end ActionQueue

end TelegramClient.Database
