import Mathlib.Data.List.Nodup
import TelegramClient.Actions.Tables

/-!
# What the watchers of an actor are told

* `Reports` : actors report on their own paths, after `execute:` and once;
* `CompletionInv` : the watchers of active requests, and those that are being told, have not been told before;
* **`completions_delivered`** : every timely run delivers what is reported;
* `lateJoin_lost` : a run that is not timely.
-/

namespace TelegramClient.Actions
open List
open Function (update_of_ne update_self)

open Function (update)

namespace ActionStage

/-! ## Reports and requests in time -/

def Reports (s : ActionStage) : StageMove → Prop
  | .call (.actionCompleted action (some reporter)) =>
    s.pathOf reporter = some action ∧ reporter ∈ s.executed ∧ reporter ∉ s.reported
  | _ => True

instance decidableReports (s : ActionStage) : (move : StageMove) → Decidable (s.Reports move)
  | .call (.actionCompleted action (some reporter)) =>
    inferInstanceAs (Decidable (s.pathOf reporter = some action ∧ reporter ∈ s.executed ∧ reporter ∉ s.reported))
  | .call (.actionCompleted _ none) | .call (.request ..) | .call (.changeActorPriority _) | .call (.removeWatcher ..)
  | .call (.removeWatcherFromPath ..) | .call (.removeAllWatchersFromPath _) | .call (.performCancelRequest _)
  | .call (.reset _) | .next => inferInstanceAs (Decidable True)

def Timely (s : ActionStage) : StageMove → Prop
  | .call (.request _ path _ _ _) =>
    ∀ info ∈ s.cancelRequestTimers path, info.requestBuilder ∉ s.reported ∧ info.requestBuilder ∉ s.cancelled
  | _ => True

instance decidableTimely (s : ActionStage) : (move : StageMove) → Decidable (s.Timely move)
  | .call (.request _ path _ _ _) => inferInstanceAs (Decidable (∀ info ∈ s.cancelRequestTimers path,
      info.requestBuilder ∉ s.reported ∧ info.requestBuilder ∉ s.cancelled))
  | .call (.actionCompleted ..) | .call (.changeActorPriority _) | .call (.removeWatcher ..)
  | .call (.removeWatcherFromPath ..) | .call (.removeAllWatchersFromPath _) | .call (.performCancelRequest _)
  | .call (.reset _) | .next => inferInstanceAs (Decidable True)

/-- Nobody reports on a path that another actor serves. -/
def OwnRequest (s : ActionStage) : StageMove → Prop
  | .call (.actionCompleted action reporter) =>
    ∀ info ∈ s.activeRequests action, reporter = some info.requestBuilder
  | _ => True

/-- The watchers of an actor are told once when it has reported, if it could still report when they joined. -/
structure Delivered (s : ActionStage) : Prop where
  punctual : s.lateJoins = []
  at_most_once : ∀ watcher actor n, s.completions watcher actor = some n → n ≤ 1
  once : ∀ watcher actor n, s.completions watcher actor = some n → actor ∈ s.reported →
    n = 1 ∨ n = 0 ∧ ∃ path, .notify watcher actor path ∈ s.pending

/-! ## The invariant -/

def toldBy : Instruction → Option (ASHandle × Nat)
  | .notify watcher actor _ => some (watcher, actor)
  | _ => none

def told (s : ActionStage) : List (ASHandle × Nat) := s.pending.filterMap toldBy

def Watches (s : ActionStage) (watcher : ASHandle) (actor : Nat) : Prop :=
  ∃ path info, s.activeRequests path = some info ∧ info.requestBuilder = actor ∧ watcher ∈ info.watchers

structure CompletionInv (s : ActionStage) : Prop where
  tables : TableInv s
  active_fresh : ∀ path info, s.activeRequests path = some info →
    info.requestBuilder ∉ s.completed ∧ info.requestBuilder ∉ s.cancelled ∧ info.requestBuilder ∉ s.reported
  waiting_fresh : ∀ path info, s.cancelRequestTimers path = some info → info.requestBuilder ∉ s.completed
  known : ∀ actor, actor ∈ s.completed ∨ actor ∈ s.cancelled ∨ actor ∈ s.reported → actor < s.actors.length
  told_completed : ∀ watcher actor, (watcher, actor) ∈ s.told → actor ∈ s.completed
  told_once : s.told.Nodup
  told_first : ∀ watcher actor, (watcher, actor) ∈ s.told → ∀ n ∈ s.completions watcher actor, n = 0
  watching : ∀ watcher actor, s.Watches watcher actor → ∀ n ∈ s.completions watcher actor, n = 0
  joined : ∀ watcher actor n, s.completions watcher actor = some n →
    n = 1 ∧ actor ∈ s.completed ∨ n = 0 ∧ (s.Watches watcher actor ∨ (watcher, actor) ∈ s.told)
  present : ∀ watcher actor n, s.completions watcher actor = some n → watcher ∉ s.released
  punctual : s.lateJoins = []

variable {s : ActionStage}

theorem told_push {l : List Instruction} (hl : ∀ i ∈ l, toldBy i = none) : (s.push l).told = s.told := by
  have hnil : l.filterMap toldBy = [] := filterMap_eq_nil_iff.mpr hl
  rw [told, push, filterMap_append, hnil]
  rfl

section
variable {s : ActionStage} {path : String} {info : RequestInfo}

theorem CompletionInv.initial : CompletionInv initial where
  tables := TableInv.initial
  active_fresh _ _ h := (nomatch h)
  waiting_fresh _ _ h := (nomatch h)
  known _ h := by simp [ActionStage.initial] at h
  told_completed _ _ h := (nomatch h)
  told_once := nodup_nil
  told_first _ _ h := (nomatch h)
  watching _ _ _ _ h := (nomatch h)
  joined _ _ _ h := (nomatch h)
  present _ _ _ h := (nomatch h)
  punctual := rfl

theorem CompletionInv.delivered (h : CompletionInv s) : s.Delivered where
  punctual := h.punctual
  at_most_once watcher actor n hn := by
    rcases h.joined watcher actor n hn with ⟨rfl, -⟩ | ⟨rfl, -⟩ <;> omega
  once watcher actor n hn hrep := by
    rcases h.joined watcher actor n hn with ⟨rfl, -⟩ | ⟨rfl, hwatches | htold⟩
    · exact .inl rfl
    · obtain ⟨path, info, hact, rfl, -⟩ := hwatches
      exact absurd hrep (h.active_fresh path info hact).2.2
    · unfold told at htold
      rw [mem_filterMap] at htold
      obtain ⟨i, hi, htold⟩ := htold
      cases i with
      | notify watcher' actor' path =>
        cases htold
        exact .inr ⟨rfl, path, hi⟩
      | _ => cases htold

variable {path' : String}

theorem CompletionInv.active_unique (h : CompletionInv s) (hact : s.activeRequests path = some info)
    {info' : RequestInfo} (hactive' : s.activeRequests path' = some info')
    (hactor : info'.requestBuilder = info.requestBuilder) : path' = path := by
  have hpath := h.tables.active_path path info hact
  have hpath' := h.tables.active_path path' info' hactive'
  rw [hactor, hpath] at hpath'
  exact (Option.some.inj hpath').symm

/-! ## Frames -/

variable {s' : ActionStage}

theorem CompletionInv.of_told (h : CompletionInv s) (hactors : s'.actors = s.actors)
    (hact : s'.activeRequests = s.activeRequests) (hwait : s'.cancelRequestTimers = s.cancelRequestTimers)
    (htold : s'.told = s.told) (hreleased : s'.released = s.released) (hcompl : s'.completed = s.completed)
    (hcanc : s'.cancelled = s.cancelled) (hrep : s'.reported = s.reported)
    (hcomps : s'.completions = s.completions) (hlate : s'.lateJoins = s.lateJoins) : CompletionInv s' := by
  have hwatches : s'.Watches = s.Watches := by
    unfold Watches
    rw [hact]
  refine ⟨⟨?_, ?_, ?_, ?_, ?_⟩, ?_, ?_, ?_, ?_, ?_, ?_, ?_, ?_, ?_, ?_⟩
  · rw [hact, hwait]; exact h.tables.disjoint
  · unfold pathOf; rw [hact, hactors]; exact h.tables.active_path
  · unfold pathOf; rw [hwait, hactors]; exact h.tables.waiting_path
  · rw [hact]; exact h.tables.watchers
  · rw [hwait]; exact h.tables.idle
  · rw [hact, hcompl, hcanc, hrep]; exact h.active_fresh
  · rw [hwait, hcompl]; exact h.waiting_fresh
  · rw [hcompl, hcanc, hrep, hactors]; exact h.known
  · rw [htold, hcompl]; exact h.told_completed
  · rw [htold]; exact h.told_once
  · rw [htold, hcomps]; exact h.told_first
  · rw [hwatches, hcomps]; exact h.watching
  · rw [hcomps, hcompl, hwatches, htold]; exact h.joined
  · rw [hcomps, hreleased]; exact h.present
  · rw [hlate]; exact h.punctual

theorem CompletionInv.push (h : CompletionInv s) {l : List Instruction} (hl : ∀ i ∈ l, toldBy i = none) :
    CompletionInv (s.push l) :=
  h.of_told rfl rfl rfl (told_push hl) rfl rfl rfl rfl rfl rfl

/-! ## Watchers leave -/

section
variable (h : CompletionInv s)
include h

theorem CompletionInv.forget (htables : TableInv s') (hactors : s'.actors = s.actors) (htold : s'.told = s.told)
    (hreleased : s'.released = s.released) (hcompl : s'.completed = s.completed)
    (hrep : s'.reported = s.reported) (hlate : s'.lateJoins = s.lateJoins)
    (hcomps : ∀ w a n, s'.completions w a = some n → s.completions w a = some n)
    (hact : ∀ p i, s'.activeRequests p = some i → ∃ i', s.activeRequests p = some i' ∧
      i'.requestBuilder = i.requestBuilder ∧ (∀ w ∈ i.watchers, w ∈ i'.watchers) ∧ i.requestBuilder ∉ s'.cancelled)
    (hwait : ∀ p i, s'.cancelRequestTimers p = some i → i.requestBuilder ∉ s.completed)
    (hcanc : ∀ a ∈ s'.cancelled, a < s.actors.length)
    (hstay : ∀ w a n, s'.completions w a = some n → s.Watches w a → s'.Watches w a) : CompletionInv s' := by
  have hwatches : ∀ w a, s'.Watches w a → s.Watches w a := by
    rintro w a ⟨p, i, hi, rfl, hw⟩
    obtain ⟨i', hi', hactor, hsub, -⟩ := hact p i hi
    exact ⟨p, i', hi', hactor, hsub w hw⟩
  refine ⟨htables, fun p i hi => ?_, fun p i hi => ?_, fun a ha => ?_, ?_, ?_, fun w a hw n hn => ?_,
    fun w a hw n hn => ?_, fun w a n hn => ?_, fun w a n hn => ?_, ?_⟩
  · obtain ⟨i', hi', hactor, -, hfresh⟩ := hact p i hi
    obtain ⟨hc, -, hr⟩ := h.active_fresh p i' hi'
    rw [hcompl, hrep, ← hactor]
    exact ⟨hc, hactor ▸ hfresh, hr⟩
  · rw [hcompl]
    exact hwait p i hi
  · rw [hactors]
    rcases ha with ha | ha | ha
    · exact h.known a (.inl (hcompl ▸ ha))
    · exact hcanc a ha
    · exact h.known a (.inr (.inr (hrep ▸ ha)))
  · rw [htold, hcompl]
    exact h.told_completed
  · rw [htold]
    exact h.told_once
  · exact h.told_first w a (htold ▸ hw) n (hcomps w a n hn)
  · exact h.watching w a (hwatches w a hw) n (hcomps w a n hn)
  · rw [hcompl, htold]
    exact (h.joined w a n (hcomps w a n hn)).imp_right fun hin => hin.imp_right (Or.imp_left (hstay w a n hn))
  · rw [hreleased]
    exact h.present w a n (hcomps w a n hn)
  · rw [hlate]
    exact h.punctual

theorem CompletionInv.keepWatchers (hact : s.activeRequests path = some info) (removed : ASHandle → Bool) :
    CompletionInv ((s.noteRemoval removed path).keepWatchers path info (info.watchers.filter (!removed ·))) := by
  have hnoted : TableInv (s.noteRemoval removed path) := { h.tables with }
  have htables := hnoted.keepWatchers hact (!removed ·)
  have hcomps : ∀ w a n, (s.noteRemoval removed path).completions w a = some n →
      s.completions w a = some n ∧ (removed w = true → s.pathOf a ≠ some path) := by
    intro w a n hn
    simp only [noteRemoval] at hn
    split at hn
    · cases hn
    · rename_i hout
      exact ⟨hn, fun hw hp => hout ⟨hw, hp⟩⟩
  have hrest : ∀ p i, s.activeRequests p = some i → p ≠ path → i.requestBuilder ≠ info.requestBuilder :=
    fun p i hi hne heq => hne (h.active_unique hact hi heq)
  -- watchers of other paths, and those of this one that stay
  have hstays : ∀ w a n, (s.noteRemoval removed path).completions w a = some n → s.Watches w a →
      (∃ p i, p ≠ path ∧ s.activeRequests p = some i ∧ i.requestBuilder = a ∧ w ∈ i.watchers) ∨
      info.requestBuilder = a ∧ w ∈ info.watchers.filter (!removed ·) := by
    rintro w a n hn ⟨p, i, hi, rfl, hw⟩
    by_cases hne : p = path
    · subst hne
      obtain rfl : info = i := Option.some.inj (hact.symm.trans hi)
      refine .inr ⟨rfl, mem_filter.mpr ⟨hw, ?_⟩⟩
      have hkept := (hcomps w _ n hn).2
      cases hr : removed w with
      | false => rfl
      | true => exact absurd (h.tables.active_path p info hi) (hkept hr)
    · exact .inl ⟨p, i, hne, hi, rfl, hw⟩
  rcases keepWatchers_cases hnoted hact (info.watchers.filter (!removed ·)) with ⟨-, heq⟩ | ⟨hnil, heq⟩ | ⟨hnil, heq⟩ <;>
    rw [heq] at htables ⊢
  · refine h.forget htables rfl rfl rfl rfl rfl rfl (fun w a n hn => (hcomps w a n hn).1) (fun p i hi => ?_)
      h.waiting_fresh (fun a ha => h.known a (.inr (.inl ha))) fun w a n hn hw => ?_
    · by_cases hne : p = path
      · subst hne
        obtain rfl : ⟨info.requestBuilder, info.watchers.filter (!removed ·)⟩ = i := by
          simpa [setActive] using hi
        exact ⟨info, hact, rfl, fun w hw => mem_of_mem_filter hw, (h.active_fresh p info hact).2.1⟩
      · have hi' : s.activeRequests p = some i := by simpa [setActive, ActionStage.noteRemoval, hne] using hi
        exact ⟨i, hi', rfl, fun w hw => hw, (h.active_fresh p i hi').2.1⟩
    · rcases hstays w a n hn hw with ⟨p, i, hne, hi, rfl, hin⟩ | ⟨rfl, hin⟩
      · exact ⟨p, i, by simpa [setActive, ActionStage.noteRemoval, hne] using hi, rfl, hin⟩
      · exact ⟨path, ⟨info.requestBuilder, info.watchers.filter (!removed ·)⟩, by simp [setActive], rfl, hin⟩
  · refine h.forget htables rfl rfl rfl rfl rfl rfl (fun w a n hn => (hcomps w a n hn).1) (fun p i hi => ?_)
      (fun p i hi => ?_) (fun a ha => h.known a (.inr (.inl ha))) fun w a n hn hw => ?_
    · have hne : p ≠ path := by
        rintro rfl
        simp [setActive] at hi
      have hi' : s.activeRequests p = some i := by simpa [setActive, setWaiting, ActionStage.noteRemoval, hne] using hi
      exact ⟨i, hi', rfl, fun w hw => hw, (h.active_fresh p i hi').2.1⟩
    · by_cases hne : p = path
      · subst hne
        obtain rfl : ⟨info.requestBuilder, []⟩ = i := by simpa [setActive, setWaiting] using hi
        exact (h.active_fresh p info hact).1
      · exact h.waiting_fresh p i (by simpa [setActive, setWaiting, ActionStage.noteRemoval, hne] using hi)
    · rcases hstays w a n hn hw with ⟨p, i, hne, hi, rfl, hin⟩ | ⟨rfl, hin⟩
      · exact ⟨p, i, by simpa [setActive, setWaiting, ActionStage.noteRemoval, hne] using hi, rfl, hin⟩
      · rw [hnil] at hin
        cases hin
  · refine h.forget htables rfl (told_push (by simp [toldBy])) rfl rfl rfl rfl
      (fun w a n hn => (hcomps w a n hn).1) (fun p i hi => ?_) h.waiting_fresh (fun a ha => ?_)
      fun w a n hn hw => ?_
    · have hne : p ≠ path := by
        rintro rfl
        simp [ActionStage.cancel, ActionStage.push, setActive] at hi
      have hi' : s.activeRequests p = some i := by
        simpa [ActionStage.cancel, ActionStage.push, setActive, ActionStage.noteRemoval, hne] using hi
      refine ⟨i, hi', rfl, fun w hw => hw, ?_⟩
      have hold := (h.active_fresh p i hi').2.1
      simpa [ActionStage.cancel, ActionStage.push, setActive, ActionStage.noteRemoval, hrest p i hi' hne] using hold
    · have ha' : a = info.requestBuilder ∨ a ∈ s.cancelled := by
        simpa [ActionStage.cancel, ActionStage.push, setActive, ActionStage.noteRemoval] using ha
      rcases ha' with rfl | ha'
      · exact pathOf_lt (h.tables.active_path path info hact)
      · exact h.known a (.inr (.inl ha'))
    · rcases hstays w a n hn hw with ⟨p, i, hne, hi, rfl, hin⟩ | ⟨rfl, hin⟩
      · exact ⟨p, i, by simpa [ActionStage.cancel, ActionStage.push, setActive, ActionStage.noteRemoval, hne] using hi, rfl, hin⟩
      · rw [hnil] at hin
        cases hin

theorem CompletionInv.noteRemoval (removed : ASHandle → Bool) (path : String) :
    CompletionInv (s.noteRemoval removed path) := by
  refine h.forget { h.tables with } rfl rfl rfl rfl rfl rfl (fun w a n hn => ?_)
    (fun p i hi => ⟨i, hi, rfl, fun w hw => hw, (h.active_fresh p i hi).2.1⟩) h.waiting_fresh
    (fun a ha => h.known a (.inr (.inl ha))) fun w a n hn hw => hw
  simp only [ActionStage.noteRemoval] at hn
  split at hn
  · cases hn
  · exact hn

theorem CompletionInv.removeWatcherByHandle (watcher : ASHandle) (path : String) :
    CompletionInv (s.removeWatcherByHandle watcher path) := by
  unfold ActionStage.removeWatcherByHandle
  dsimp only
  split
  · exact h.noteRemoval _ path
  · rename_i info hact
    exact h.keepWatchers hact (· == watcher)

theorem CompletionInv.removeAllWatchersFromPath (path : String) : CompletionInv (s.removeAllWatchersFromPath path) := by
  unfold ActionStage.removeAllWatchersFromPath
  dsimp only
  split
  · exact h.noteRemoval _ path
  · rename_i info hact
    have hkeep := h.keepWatchers hact fun _ => true
    rwa [Bool.not_true, filter_false] at hkeep

end

/-! ## Watchers join -/

variable {watcher : ASHandle}

theorem CompletionInv.join (h : CompletionInv s) (path : String) (actor : Nat) (watchers : List ASHandle)
    (hout : watcher ∉ s.released) (hcompl : actor ∉ s.completed) (hcanc : actor ∉ s.cancelled)
    (hrep : actor ∉ s.reported) (htables : TableInv s') (hactors : s.actors <+: s'.actors)
    (hact : s'.activeRequests = update s.activeRequests path (some ⟨actor, watchers ++ [watcher]⟩))
    (hold : ∀ i, s.activeRequests path = some i → i = ⟨actor, watchers⟩)
    (hold' : ∀ w ∈ watchers, ∃ i, s.activeRequests path = some i)
    (hwait : ∀ p i, s'.cancelRequestTimers p = some i → s.cancelRequestTimers p = some i)
    (htold : s'.told = s.told) (hreleased : s'.released = s.released) (hcompleted' : s'.completed = s.completed)
    (hcancelled' : s'.cancelled = s.cancelled) (hreported' : s'.reported = s.reported)
    (hcomps : s'.completions = (s.noteJoin watcher actor).completions)
    (hlate : s'.lateJoins = (s.noteJoin watcher actor).lateJoins) : CompletionInv s' := by
  have hrec : ∀ w a n, s'.completions w a = some n → w = watcher ∧ a = actor ∧ n = 0 ∨
      ¬(w = watcher ∧ a = actor) ∧ s.completions w a = some n := by
    intro w a n hn
    rw [hcomps] at hn
    simp only [noteJoin] at hn
    split at hn
    · rename_i heq
      exact .inl ⟨heq.1, heq.2, (Option.some.inj hn).symm⟩
    · rename_i hne
      exact .inr ⟨hne, hn⟩
  have hwatches : ∀ w a, s'.Watches w a → (w = watcher ∧ a = actor) ∨ s.Watches w a := by
    rintro w a ⟨p, i, hi, rfl, hw⟩
    rw [hact] at hi
    by_cases hne : p = path
    · subst hne
      rw [update_self] at hi
      obtain rfl := Option.some.inj hi
      rcases mem_append.mp hw with hw | hw
      · obtain ⟨i, hi⟩ := hold' w hw
        obtain rfl := hold i hi
        exact .inr ⟨p, _, hi, rfl, hw⟩
      · exact .inl ⟨mem_singleton.mp hw, rfl⟩
    · rw [update_of_ne hne] at hi
      exact .inr ⟨p, i, hi, rfl, hw⟩
  have hwatches' : ∀ w a, s.Watches w a → s'.Watches w a := by
    rintro w a ⟨p, i, hi, rfl, hw⟩
    by_cases hne : p = path
    · subst hne
      obtain rfl := hold i hi
      exact ⟨p, ⟨actor, watchers ++ [watcher]⟩, by rw [hact, update_self], rfl,
        mem_append_left _ hw⟩
    · exact ⟨p, i, by rw [hact, update_of_ne hne]; exact hi, rfl, hw⟩
  refine ⟨htables, fun p i hi => ?_, fun p i hi => ?_, fun a ha => ?_, ?_, ?_, fun w a hw n hn => ?_,
    fun w a hw n hn => ?_, fun w a n hn => ?_, fun w a n hn => ?_, ?_⟩
  · rw [hcompleted', hcancelled', hreported']
    rw [hact] at hi
    by_cases hne : p = path
    · subst hne
      rw [update_self] at hi
      obtain rfl := Option.some.inj hi
      exact ⟨hcompl, hcanc, hrep⟩
    · rw [update_of_ne hne] at hi
      exact h.active_fresh p i hi
  · rw [hcompleted']
    exact h.waiting_fresh p i (hwait p i hi)
  · rw [hcompleted', hcancelled', hreported'] at ha
    exact Nat.lt_of_lt_of_le (h.known a ha) hactors.length_le
  · rw [htold, hcompleted']
    exact h.told_completed
  · rw [htold]
    exact h.told_once
  · rw [htold] at hw
    rcases hrec w a n hn with ⟨-, rfl, -⟩ | ⟨-, hn⟩
    · exact absurd (h.told_completed w a hw) hcompl
    · exact h.told_first w a hw n hn
  · rcases hrec w a n hn with ⟨-, -, hzero⟩ | ⟨hne, hn⟩
    · exact hzero
    · exact h.watching w a ((hwatches w a hw).resolve_left hne) n hn
  · rw [hcompleted', htold]
    rcases hrec w a n hn with ⟨rfl, rfl, rfl⟩ | ⟨-, hn⟩
    · refine .inr ⟨rfl, .inl ⟨path, ⟨a, watchers ++ [w]⟩, by rw [hact, update_self], rfl, ?_⟩⟩
      exact mem_append_right _ (mem_singleton_self w)
    · exact (h.joined w a n hn).imp_right fun hin => hin.imp_right (Or.imp_left (hwatches' w a))
  · rw [hreleased]
    rcases hrec w a n hn with ⟨rfl, -, -⟩ | ⟨-, hn⟩
    · exact hout
    · exact h.present w a n hn
  · rw [hlate]
    simp only [noteJoin, hrep, hcanc, or_self, if_false]
    exact h.punctual

variable {actor : Nat}

theorem toldBy_joined {waiting : Bool} {rest : List Instruction}
    (hrest : rest = [] ∨ rest = [.changeActorPriority path']) :
    ∀ i ∈ Instruction.callback (.watcherJoined actor watcher waiting) :: rest, toldBy i = none := by
  intro i hi
  rcases mem_cons.mp hi with rfl | hi
  · rfl
  · rcases hrest with rfl | rfl
    · cases hi
    · rw [mem_singleton] at hi
      subst hi
      rfl

theorem CompletionInv.requestGeneric (h : CompletionInv s) (joinOnly : Bool) (path : String) (changePriority : Bool)
    (watcher : ASHandle) (builder : Option ASActor) (htimely : ∀ info ∈ s.cancelRequestTimers path,
      info.requestBuilder ∉ s.reported ∧ info.requestBuilder ∉ s.cancelled) :
    CompletionInv (s.requestGeneric joinOnly path changePriority watcher builder) := by
  by_cases hreleased : watcher ∈ s.released
  · unfold ActionStage.requestGeneric
    rwa [if_pos hreleased]
  rcases requestGeneric_cases s joinOnly path changePriority watcher builder with
    heq | ⟨info, hwait, heq⟩ | ⟨info, hact, heq⟩ | ⟨builder', hact, hwait, heq⟩ <;> rw [heq]
  · exact h
  · obtain ⟨_, rest, hrest, hjoin⟩ := joinRequest_cases ((s.setActive path (some info)).setWaiting path none) path
      watcher info changePriority
    rw [hjoin]
    refine CompletionInv.push ?_ (toldBy_joined hrest)
    obtain ⟨hrep, hcanc⟩ := htimely info hwait
    have hidle := h.tables.idle path info hwait
    have hinactive := h.tables.inactive hwait
    have hwatcher : watcher ∉ info.watchers := by simp [hidle]
    refine h.join path info.requestBuilder [] hreleased (h.waiting_fresh path info hwait) hcanc hrep
      (h.tables.resumed hwait watcher) (by simp [ActionStage.joined, hwatcher, noteJoin, setActive, setWaiting])
      (by simp [ActionStage.joined, noteJoin, setActive, setWaiting, hidle]) (fun i hi => ?_)
      (fun w hw => nomatch hw) (fun p i hi => ?_) ?_ ?_ ?_ ?_ ?_ ?_ ?_
    · rw [hinactive] at hi
      cases hi
    · by_cases hne : p = path
      · subst hne
        simp [ActionStage.joined, hwatcher, noteJoin, setActive, setWaiting] at hi
      · simpa [ActionStage.joined, hwatcher, noteJoin, setActive, setWaiting, hne] using hi
    all_goals simp only [ActionStage.joined, hwatcher, if_false]; rfl
  · obtain ⟨_, rest, hrest, hjoin⟩ := joinRequest_cases s path watcher info changePriority
    rw [hjoin]
    refine CompletionInv.push ?_ (toldBy_joined hrest)
    by_cases hwatcher : watcher ∈ info.watchers
    · unfold ActionStage.joined
      rwa [if_pos hwatcher]
    · obtain ⟨hcompl, hcanc, hrep⟩ := h.active_fresh path info hact
      refine h.join path info.requestBuilder info.watchers hreleased hcompl hcanc hrep
        (h.tables.joined hact watcher) (by simp [ActionStage.joined, hwatcher, noteJoin, setActive])
        (by simp [ActionStage.joined, hwatcher, noteJoin, setActive]) (fun i hi => ?_) (fun w _ => ⟨info, hact⟩)
        (fun p i hi => ?_) ?_ ?_ ?_ ?_ ?_ ?_ ?_
      · exact Option.some.inj (hi.symm.trans hact)
      · simpa [ActionStage.joined, hwatcher, noteJoin, setActive] using hi
      all_goals simp only [ActionStage.joined, hwatcher, if_false]; rfl
  · have hnew : ∀ a, a ∈ s.completed ∨ a ∈ s.cancelled ∨ a ∈ s.reported → a ≠ s.actors.length := by
      rintro a ha rfl
      exact absurd (h.known _ ha) (Nat.lt_irrefl _)
    refine h.join path s.actors.length [] hreleased
      (fun ha => hnew _ (.inl ha) rfl) (fun ha => hnew _ (.inr (.inl ha)) rfl)
      (fun ha => hnew _ (.inr (.inr ha)) rfl)
      (h.tables.startRequest hwait watcher builder' changePriority) (prefix_append _ _) rfl (fun i hi => ?_)
      (fun w hw => nomatch hw) (fun p i hi => hi) (told_push (by simp [toldBy])) rfl rfl rfl rfl rfl rfl
    rw [hact] at hi
    cases hi

/-! ## Reports and cancellation -/

section
variable (h : CompletionInv s)
include h

theorem CompletionInv.report (action : String) (reporter : Option Nat)
    (hreporter : ∀ r ∈ reporter, s.pathOf r = some action) :
    CompletionInv (({ s with reported := reporter.toList ++ s.reported } : ActionStage).actionCompleted action) := by
  have hknown : ∀ a ∈ reporter.toList ++ s.reported, a < s.actors.length := by
    intro a ha
    rcases mem_append.mp ha with ha | ha
    · exact pathOf_lt (hreporter a (Option.mem_toList.mp ha))
    · exact h.known a (.inr (.inr ha))
  -- the actors of other paths have not reported
  have hothers : ∀ p i, s.activeRequests p = some i → p ≠ action → i.requestBuilder ∉ reporter.toList ++ s.reported := by
    intro p i hi hne hm
    rcases mem_append.mp hm with hm | hm
    · have hpath := hreporter _ (Option.mem_toList.mp hm)
      rw [h.tables.active_path p i hi] at hpath
      exact hne (Option.some.inj hpath)
    · exact (h.active_fresh p i hi).2.2 hm
  unfold ActionStage.actionCompleted
  split
  · rename_i hnone
    have hnone : s.activeRequests action = none := hnone
    refine { h with
      tables := { h.tables with }
      active_fresh := fun p i hi => ?_
      known := fun a ha => ?_ }
    · obtain ⟨hcompl, hcanc, -⟩ := h.active_fresh p i hi
      refine ⟨hcompl, hcanc, hothers p i hi ?_⟩
      rintro rfl
      rw [hnone] at hi
      cases hi
    · rcases ha with ha | ha | ha
      · exact h.known a (.inl ha)
      · exact h.known a (.inr (.inl ha))
      · exact hknown a ha
  · rename_i info hact
    have hact : s.activeRequests action = some info := hact
    obtain ⟨hcompl, -, -⟩ := h.active_fresh action info hact
    have htables : TableInv (s.setActive action none) := h.tables.setActive_none action
    have hold : ∀ p i, update s.activeRequests action none p = some i → p ≠ action ∧ s.activeRequests p = some i := by
      intro p i hi
      have hne : p ≠ action := by
        rintro rfl
        simp at hi
      exact ⟨hne, by simpa [hne] using hi⟩
    have htold : ((info.watchers.map fun watcher => Instruction.notify watcher info.requestBuilder action) ++
        [Instruction.removeRequestFromQueueAndProceedIfFirst info.requestBuilder] ++ s.pending).filterMap toldBy =
        info.watchers.map (·, info.requestBuilder) ++ s.told := by
      simp [filterMap_append, filterMap_cons, toldBy, told, filterMap_map, Function.comp_def]
    have hm : ∀ w a, (w, a) ∈ info.watchers.map (·, info.requestBuilder) ++ s.told ↔
        (w ∈ info.watchers ∧ a = info.requestBuilder) ∨ (w, a) ∈ s.told := by
      intro w a
      simp only [mem_append, mem_map, Prod.mk.injEq]
      refine or_congr_left ⟨?_, ?_⟩
      · rintro ⟨w', hw', rfl, rfl⟩
        exact ⟨hw', rfl⟩
      · rintro ⟨hw, rfl⟩
        exact ⟨w, hw, rfl, rfl⟩
    have hwatches : ∀ w, w ∈ info.watchers → s.Watches w info.requestBuilder :=
      fun w hw => ⟨action, info, hact, rfl, hw⟩
    refine ⟨{ htables with }, fun p i hi => ?_, fun p i hi hm => ?_, fun a ha => ?_, fun w a hw => ?_, ?_,
      fun w a hw n hn => ?_, fun w a hw n hn => ?_, fun w a n hn => ?_, h.present, h.punctual⟩
    · obtain ⟨hne, hi'⟩ := hold p i hi
      obtain ⟨hc, hx, -⟩ := h.active_fresh p i hi'
      refine ⟨fun hm => ?_, hx, hothers p i hi' hne⟩
      rcases mem_cons.mp hm with heq | hm
      · exact hne (h.active_unique hact hi' heq)
      · exact hc hm
    · rcases mem_cons.mp hm with heq | hm
      · have hpath := h.tables.waiting_path p i hi
        rw [heq, h.tables.active_path action info hact] at hpath
        obtain rfl := Option.some.inj hpath
        have hnone := h.tables.disjoint action info hact
        rw [show s.cancelRequestTimers action = some i from hi] at hnone
        cases hnone
      · exact h.waiting_fresh p i hi hm
    · rcases ha with ha | ha | ha
      · rcases mem_cons.mp ha with rfl | ha
        · exact pathOf_lt (h.tables.active_path action info hact)
        · exact h.known a (.inl ha)
      · exact h.known a (.inr (.inl ha))
      · exact hknown a ha
    · change (w, a) ∈ filterMap toldBy _ at hw
      simp only [ActionStage.push, setActive] at hw
      rw [htold, hm] at hw
      rcases hw with ⟨-, rfl⟩ | hw
      · exact mem_cons_self
      · exact mem_cons_of_mem _ (h.told_completed w a hw)
    · change (filterMap toldBy _).Nodup
      simp only [ActionStage.push, setActive]
      rw [htold, nodup_append]
      refine ⟨(h.tables.watchers action info hact).2.map fun _ _ heq => congrArg Prod.fst heq, h.told_once, ?_⟩
      rintro ⟨w, a⟩ hw _ hw' rfl
      obtain ⟨-, -, -, rfl⟩ : ∃ w' ∈ info.watchers, w' = w ∧ info.requestBuilder = a := by simpa using hw
      exact hcompl (h.told_completed w _ hw')
    · change (w, a) ∈ filterMap toldBy _ at hw
      simp only [ActionStage.push, setActive] at hw
      rw [htold, hm] at hw
      rcases hw with ⟨hw, rfl⟩ | hw
      · exact h.watching w _ (hwatches w hw) n hn
      · exact h.told_first w a hw n hn
    · obtain ⟨p, i, hi, rfl, hw⟩ := hw
      exact h.watching w _ ⟨p, i, (hold p i hi).2, rfl, hw⟩ n hn
    · refine (h.joined w a n hn).imp (fun hone => ⟨hone.1, mem_cons_of_mem _ hone.2⟩)
        fun hin => hin.imp_right fun hin => ?_
      have hnow : (w, a) ∈ info.watchers.map (·, info.requestBuilder) ++ s.told →
          (w, a) ∈ filterMap toldBy ((info.watchers.map fun watcher =>
            Instruction.notify watcher info.requestBuilder action) ++
            [.removeRequestFromQueueAndProceedIfFirst info.requestBuilder] ++ s.pending) := by
        rw [htold]
        exact id
      rcases hin with ⟨p, i, hi, rfl, hw⟩ | hin
      · by_cases hne : p = action
        · subst hne
          obtain rfl := Option.some.inj (hact.symm.trans hi)
          exact .inr (hnow ((hm w _).mpr (.inl ⟨hw, rfl⟩)))
        · refine .inl ⟨p, i, ?_, rfl, hw⟩
          show update s.activeRequests action none p = some i
          rwa [update_of_ne hne]
      · exact .inr (hnow ((hm w a).mpr (.inr hin)))

theorem CompletionInv.performCancelRequest (path : String) : CompletionInv (s.performCancelRequest path) := by
  unfold ActionStage.performCancelRequest
  split
  · exact h
  · rename_i info hwait
    have hpath := h.tables.waiting_path path info hwait
    refine h.forget { h.tables with } rfl (told_push (by simp [toldBy])) rfl rfl rfl rfl (fun _ _ _ hn => hn)
      (fun p i hi => ⟨i, hi, rfl, fun _ hw => hw, fun hm => ?_⟩) h.waiting_fresh (fun a ha => ?_)
      fun _ _ _ _ hw => hw
    · have hmem' : i.requestBuilder = info.requestBuilder ∨ i.requestBuilder ∈ s.cancelled := by
        simpa [ActionStage.cancel, ActionStage.push] using hm
      rcases hmem' with heq | hmem'
      · have hact := h.tables.active_path p i hi
        rw [heq, hpath] at hact
        obtain rfl := Option.some.inj hact
        have hnone := h.tables.disjoint path i hi
        rw [hwait] at hnone
        cases hnone
      · exact (h.active_fresh p i hi).2.1 hmem'
    · have ha' : a = info.requestBuilder ∨ a ∈ s.cancelled := by
        simpa [ActionStage.cancel, ActionStage.push] using ha
      rcases ha' with rfl | ha'
      · exact pathOf_lt hpath
      · exact h.known a (.inr (.inl ha'))

theorem CompletionInv.removeCancelTimer (path : String) : CompletionInv (s.setWaiting path none) := by
  refine h.forget (h.tables.setWaiting_none path) rfl rfl rfl rfl rfl rfl (fun _ _ _ hn => hn)
    (fun p i hi => ⟨i, hi, rfl, fun _ hw => hw, (h.active_fresh p i hi).2.1⟩) (fun p i hi => ?_)
    (fun a ha => h.known a (.inr (.inl ha))) fun _ _ _ _ hw => hw
  have hne : p ≠ path := by
    rintro rfl
    simp [setWaiting] at hi
  exact h.waiting_fresh p i (by simpa [setWaiting, hne] using hi)

theorem CompletionInv.reset (watcher : ASHandle) : CompletionInv (s.call (.reset watcher)) := by
  have hrec : ∀ w a n, (s.call (.reset watcher)).completions w a = some n →
      w ≠ watcher ∧ s.completions w a = some n := by
    intro w a n hn
    simp only [ActionStage.call] at hn
    split at hn
    · cases hn
    · rename_i hne
      exact ⟨hne, hn⟩
  refine ⟨{ h.tables with }, h.active_fresh, h.waiting_fresh, h.known, h.told_completed, h.told_once,
    fun w a hw n hn => h.told_first w a hw n (hrec w a n hn).2,
    fun w a hw n hn => h.watching w a hw n (hrec w a n hn).2, fun w a n hn => h.joined w a n (hrec w a n hn).2,
    fun w a n hn hm => ?_, h.punctual⟩
  obtain ⟨hne, hn⟩ := hrec w a n hn
  rcases mem_cons.mp hm with rfl | hm
  · exact hne rfl
  · exact h.present w a n hn hm

end

/-! ## Instructions -/

variable {pending : List Instruction}

theorem CompletionInv.notify (h : CompletionInv s) (hpend : s.pending = .notify watcher actor path :: pending) :
    CompletionInv (({ s with pending := pending } : ActionStage).notify watcher actor path) := by
  have htold : s.told = (watcher, actor) :: pending.filterMap toldBy := by
    unfold told
    rw [hpend]
    rfl
  have honce := h.told_once
  rw [htold, nodup_cons] at honce
  have hold : ∀ w a, (w, a) ∈ pending.filterMap toldBy → (w, a) ∈ s.told := fun w a hw => by
    rw [htold]
    exact mem_cons_of_mem _ hw
  have hfirst : (watcher, actor) ∈ s.told := by
    rw [htold]
    exact mem_cons_self
  have hother : ∀ w a, (w, a) ∈ s.told → ¬(w = watcher ∧ a = actor) → (w, a) ∈ pending.filterMap toldBy := by
    intro w a hw hne
    rw [htold] at hw
    exact (mem_cons.mp hw).resolve_left fun heq => hne ⟨(Prod.mk.inj heq).1, (Prod.mk.inj heq).2⟩
  unfold ActionStage.notify
  split
  · rename_i hreleased
    -- the record of a handle without a delegate is empty
    refine ⟨{ h.tables with }, h.active_fresh, h.waiting_fresh, h.known, fun w a hw => h.told_completed w a (hold w a hw),
      honce.2, fun w a hw => h.told_first w a (hold w a hw), h.watching, fun w a n hn => ?_, h.present, h.punctual⟩
    refine (h.joined w a n hn).imp_right fun hin => hin.imp_right (Or.imp_right fun hw => hother w a hw ?_)
    rintro ⟨rfl, rfl⟩
    exact h.present w a n hn hreleased
  · have hrec : ∀ w a n,
        (({ s with pending := pending } : ActionStage).noteCompletion watcher actor).completions w a = some n →
        w = watcher ∧ a = actor ∧ n = 1 ∨ ¬(w = watcher ∧ a = actor) ∧ s.completions w a = some n := by
      intro w a n hn
      simp only [noteCompletion] at hn
      split at hn
      · rename_i heq
        obtain ⟨rfl, rfl⟩ := heq
        rw [Option.map_eq_some_iff] at hn
        obtain ⟨m, hm, rfl⟩ := hn
        have hzero := h.told_first w a hfirst m hm
        subst hzero
        exact .inl ⟨rfl, rfl, rfl⟩
      · rename_i hne
        exact .inr ⟨hne, hn⟩
    refine CompletionInv.push ?_ (l := [.callback (.actorCompleted watcher path)]) (by simp [toldBy])
    refine ⟨{ h.tables with }, h.active_fresh, h.waiting_fresh, h.known, fun w a hw => h.told_completed w a (hold w a hw),
      honce.2, fun w a hw n hn => ?_, fun w a hw n hn => ?_, fun w a n hn => ?_, fun w a n hn => ?_, h.punctual⟩
    · rcases hrec w a n hn with ⟨rfl, rfl, -⟩ | ⟨-, hn⟩
      · exact absurd hw honce.1
      · exact h.told_first w a (hold w a hw) n hn
    · rcases hrec w a n hn with ⟨rfl, rfl, -⟩ | ⟨-, hn⟩
      · obtain ⟨p, i, hi, rfl, -⟩ := hw
        exact absurd (h.told_completed w _ hfirst) (h.active_fresh p i hi).1
      · exact h.watching w a hw n hn
    · rcases hrec w a n hn with ⟨rfl, rfl, rfl⟩ | ⟨hne, hn⟩
      · exact .inl ⟨rfl, h.told_completed w a hfirst⟩
      · exact (h.joined w a n hn).imp_right fun hin => hin.imp_right (Or.imp_right fun hw => hother w a hw hne)
    · rcases hrec w a n hn with ⟨rfl, rfl, -⟩ | ⟨-, hn⟩
      · rename_i hreleased
        exact hreleased
      · exact h.present w a n hn

theorem CompletionInv.exec (h : CompletionInv s) {instruction : Instruction}
    (hpend : s.pending = instruction :: pending) :
    CompletionInv (({ s with pending := pending } : ActionStage).exec instruction) := by
  have hpopped : toldBy instruction = none → CompletionInv { s with pending := pending } := by
    intro hnone
    refine h.of_told rfl rfl rfl ?_ rfl rfl rfl rfl rfl rfl
    unfold told
    rw [hpend, filterMap_cons_none hnone]
  have hcode : ∀ l : List Instruction, (∀ i ∈ l, ∃ code, i = .callback code) → ∀ i ∈ l, toldBy i = none := by
    intro l hl i hi
    obtain ⟨code, rfl⟩ := hl i hi
    rfl
  cases instruction with
  | callback code => exact hpopped rfl
  | enqueue actor changePriority =>
    obtain ⟨queues, rest, executed, heq, hrest⟩ := enqueue_eq { s with pending := pending } actor changePriority
    simp only [ActionStage.exec]
    rw [heq]
    exact (hpopped rfl).of_told rfl rfl rfl (told_push (hcode rest hrest)) rfl rfl rfl rfl rfl rfl
  | changeActorPriority path =>
    obtain ⟨queues, heq⟩ := changeActorPriority_eq { s with pending := pending } path
    simp only [ActionStage.exec]
    rw [heq]
    exact (hpopped rfl).of_told rfl rfl rfl rfl rfl rfl rfl rfl rfl rfl
  | notify watcher actor path => exact h.notify hpend
  | removeRequestFromQueueAndProceedIfFirst actor =>
    obtain ⟨queues, rest, executed, heq, hrest⟩ := proceed_eq { s with pending := pending } actor
    simp only [ActionStage.exec]
    rw [heq]
    exact (hpopped rfl).of_told rfl rfl rfl (told_push (hcode rest hrest)) rfl rfl rfl rfl rfl rfl
  | removeCancelTimer path => exact (hpopped rfl).removeCancelTimer path
  | removeWatcher watcher path => exact (hpopped rfl).removeWatcherByHandle watcher path

theorem CompletionInv.step (h : CompletionInv s) {move : StageMove} (hreports : s.Reports move)
    (htimely : s.Timely move) : CompletionInv (s.step move) := by
  cases move with
  | call method =>
    simp only [ActionStage.step]
    split
    · cases method with
      | request joinOnly path changePriority watcher builder =>
        exact h.requestGeneric joinOnly path changePriority watcher builder htimely
      | changeActorPriority path =>
        obtain ⟨queues, heq⟩ := changeActorPriority_eq s path
        simp only [ActionStage.call]
        rw [heq]
        exact h.of_told rfl rfl rfl rfl rfl rfl rfl rfl rfl rfl
      | removeWatcher watcher allKeys => exact h.push (by simp [toldBy])
      | removeWatcherFromPath watcher path => exact h.removeWatcherByHandle watcher path
      | removeAllWatchersFromPath path => exact h.removeAllWatchersFromPath path
      | actionCompleted action reporter =>
        refine h.report action reporter fun r hr => ?_
        obtain rfl : reporter = some r := hr
        exact hreports.1
      | performCancelRequest path => exact h.performCancelRequest path
      | reset watcher => exact h.reset watcher
    · exact h
  | next =>
    simp only [ActionStage.step]
    split
    · exact h
    · rename_i instruction pending hpend
      exact h.exec hpend

end

/-! ## Who has reported -/

/-- Only a report changes what has been completed and reported. -/
structure SameReports (s s' : ActionStage) : Prop where
  completed : s'.completed = s.completed
  reported : s'.reported = s.reported

theorem SameReports.keepWatchers (h : TableInv s) {path : String} {info : RequestInfo}
    (hact : s.activeRequests path = some info) (watchers : List ASHandle) :
    SameReports s (s.keepWatchers path info watchers) := by
  rcases keepWatchers_cases h hact watchers with ⟨-, heq⟩ | ⟨-, heq⟩ | ⟨-, heq⟩ <;> rw [heq] <;> exact ⟨rfl, rfl⟩

theorem SameReports.removeWatcherByHandle (h : TableInv s) (watcher : ASHandle) (path : String) :
    SameReports s (s.removeWatcherByHandle watcher path) := by
  unfold ActionStage.removeWatcherByHandle
  have hnoted : TableInv (s.noteRemoval (· == watcher) path) := { h with }
  dsimp only
  split
  · exact ⟨rfl, rfl⟩
  · rename_i info hact
    obtain ⟨hcompl, hrep⟩ := SameReports.keepWatchers hnoted hact (info.watchers.filter (· != watcher))
    exact ⟨hcompl, hrep⟩

theorem SameReports.requestGeneric (s : ActionStage) (joinOnly : Bool) (path : String) (changePriority : Bool)
    (watcher : ASHandle) (builder : Option ASActor) :
    SameReports s (s.requestGeneric joinOnly path changePriority watcher builder) := by
  have hjoined : ∀ (t : ActionStage) (info : RequestInfo),
      SameReports t (t.joinRequest path watcher info changePriority) := by
    intro t info
    obtain ⟨_, rest, -, heq⟩ := joinRequest_cases t path watcher info changePriority
    rw [heq]
    unfold ActionStage.joined
    split <;> exact ⟨rfl, rfl⟩
  rcases requestGeneric_cases s joinOnly path changePriority watcher builder with
    heq | ⟨info, -, heq⟩ | ⟨info, -, heq⟩ | ⟨builder', -, -, heq⟩ <;> rw [heq]
  · exact ⟨rfl, rfl⟩
  · obtain ⟨hcompl, hrep⟩ := hjoined ((s.setActive path (some info)).setWaiting path none) info
    exact ⟨hcompl, hrep⟩
  · exact hjoined s info
  · exact ⟨rfl, rfl⟩

theorem SameReports.exec (h : TableInv s) (instruction : Instruction) : SameReports s (s.exec instruction) := by
  cases instruction with
  | callback code | removeCancelTimer path => exact ⟨rfl, rfl⟩
  | enqueue actor changePriority =>
    obtain ⟨queues, rest, executed, heq, -⟩ := enqueue_eq s actor changePriority
    simp only [ActionStage.exec]
    rw [heq]
    exact ⟨rfl, rfl⟩
  | changeActorPriority path =>
    obtain ⟨queues, heq⟩ := changeActorPriority_eq s path
    simp only [ActionStage.exec]
    rw [heq]
    exact ⟨rfl, rfl⟩
  | notify watcher actor path =>
    simp only [ActionStage.exec, ActionStage.notify]
    split <;> exact ⟨rfl, rfl⟩
  | removeRequestFromQueueAndProceedIfFirst actor =>
    obtain ⟨queues, rest, executed, heq, -⟩ := proceed_eq s actor
    simp only [ActionStage.exec]
    rw [heq]
    exact ⟨rfl, rfl⟩
  | removeWatcher watcher path => exact SameReports.removeWatcherByHandle h watcher path

theorem reported_step (h : TableInv s) (hcompl : ∀ a ∈ s.completed, a ∈ s.reported) {move : StageMove}
    (hown : s.OwnRequest move) : ∀ a ∈ (s.step move).completed, a ∈ (s.step move).reported := by
  have hsame : ∀ {t t' : ActionStage}, SameReports t t' → (∀ a ∈ t.completed, a ∈ t.reported) →
      ∀ a ∈ t'.completed, a ∈ t'.reported := by
    rintro t t' ⟨hcompl, hrep⟩ ht
    rwa [hcompl, hrep]
  cases move with
  | call method =>
    simp only [ActionStage.step]
    split
    · cases method with
      | request joinOnly path changePriority watcher builder =>
        exact hsame (SameReports.requestGeneric s joinOnly path changePriority watcher builder) hcompl
      | changeActorPriority path =>
        obtain ⟨queues, heq⟩ := changeActorPriority_eq s path
        simp only [ActionStage.call]
        rw [heq]
        exact hcompl
      | removeWatcher watcher allKeys | reset watcher => exact hcompl
      | removeWatcherFromPath watcher path => exact hsame (SameReports.removeWatcherByHandle h watcher path) hcompl
      | removeAllWatchersFromPath path =>
        simp only [ActionStage.call, ActionStage.removeAllWatchersFromPath]
        have hnoted : TableInv (s.noteRemoval (fun _ => true) path) := { h with }
        split
        · exact hcompl
        · rename_i info hact
          exact hsame (SameReports.keepWatchers hnoted hact []) hcompl
      | actionCompleted action reporter =>
        simp only [ActionStage.call, ActionStage.actionCompleted]
        split
        · exact fun a ha => mem_append_right _ (hcompl a ha)
        · rename_i info hact
          intro a ha
          rcases mem_cons.mp ha with rfl | ha
          · refine mem_append_left _ (Option.mem_toList.mpr ?_)
            exact hown info hact
          · exact mem_append_right _ (hcompl a ha)
      | performCancelRequest path =>
        simp only [ActionStage.call, ActionStage.performCancelRequest]
        split <;> exact hcompl
    · exact hcompl
  | next =>
    simp only [ActionStage.step]
    split
    · exact hcompl
    · rename_i instruction pending _
      have hpopped : TableInv { s with pending := pending } := { h with }
      exact hsame (SameReports.exec hpopped instruction) hcompl

/-! ## Runs -/

/-- Whatever is called in a run in which no request comes too late, results are delivered once to each watcher that has
joined, and no actor is joined that has reported or been told to cancel. Where actors report on their own requests only,
nobody is told before his actor has reported. -/
theorem completions_delivered (moves : List StageMove) (hreports : AllSteps step Reports initial moves)
    (htimely : AllSteps step Timely initial moves) :
    (moves.foldl step initial).Delivered ∧
      (AllSteps step OwnRequest initial moves → ∀ watcher actor,
        (moves.foldl step initial).completions watcher actor = some 1 →
          actor ∈ (moves.foldl step initial).reported) := by
  have hstep : ∀ s move, CompletionInv s → (s.Reports move ∧ s.Timely move) → CompletionInv (s.step move) :=
    fun s move hinv hmove => hinv.step hmove.1 hmove.2
  have hinv := AllSteps.invariant hstep CompletionInv.initial (hreports.and htimely)
  refine ⟨hinv.delivered, fun hown watcher actor hone => ?_⟩
  have hownStep : ∀ s move, (TableInv s ∧ ∀ a ∈ s.completed, a ∈ s.reported) → s.OwnRequest move →
      TableInv (s.step move) ∧ ∀ a ∈ (s.step move).completed, a ∈ (s.step move).reported :=
    fun s move hinv hmove => ⟨hinv.1.step move, reported_step hinv.1 hinv.2 hmove⟩
  have hreported := AllSteps.invariant hownStep ⟨TableInv.initial, fun _ ha => nomatch ha⟩ hown
  rcases hinv.joined watcher actor 1 hone with ⟨-, hcompleted⟩ | ⟨hzero, -⟩
  · exact hreported.2 actor hcompleted
  · cases hzero

/-- The only watcher leaves, comes back before the request is cancelled, and is told the result. -/
def resumedInTime : List StageMove :=
  [.call (.request false "path" false 1 (some ⟨"", some "queue", true⟩)), .next, .next, .next,
    .call (.removeWatcherFromPath 1 "path"), .call (.request false "path" false 1 none), .next,
    .call (.actionCompleted "path" (some 0)), .next, .next, .next]

theorem resumedInTime_delivered : (resumedInTime.foldl step initial).completions 1 0 = some 1 ∧
    (resumedInTime.foldl step initial).Delivered ∧
      (AllSteps step OwnRequest initial resumedInTime → ∀ watcher actor,
        (resumedInTime.foldl step initial).completions watcher actor = some 1 →
          actor ∈ (resumedInTime.foldl step initial).reported) :=
  ⟨by decide +kernel, completions_delivered resumedInTime (by decide +kernel) (by decide +kernel)⟩

/-- The only watcher leaves, the actor reports while the request waits for cancellation, and another watcher comes. -/
def lateJoin : List StageMove :=
  [.call (.request false "path" false 1 (some ⟨"", some "queue", true⟩)), .next, .next, .next,
    .call (.removeWatcherFromPath 1 "path"), .call (.actionCompleted "path" (some 0)),
    .call (.request false "path" false 2 none), .next]

/-- It has joined an actor that has reported, and nothing is left to tell it. -/
theorem lateJoin_lost : AllSteps step Reports initial lateJoin ∧ (lateJoin.foldl step initial).pending = [] ∧
    0 ∈ (lateJoin.foldl step initial).reported ∧ (lateJoin.foldl step initial).completions 2 0 = some 0 ∧
    (lateJoin.foldl step initial).lateJoins = [0] ∧ ¬(lateJoin.foldl step initial).Delivered := by
  have hlate : (lateJoin.foldl step initial).lateJoins = [0] := by decide +kernel
  refine ⟨by decide +kernel, by decide +kernel, by decide +kernel, by decide +kernel, hlate, fun h => ?_⟩
  have hpunctual := h.punctual
  rw [hlate] at hpunctual
  cases hpunctual

end ActionStage

end TelegramClient.Actions
