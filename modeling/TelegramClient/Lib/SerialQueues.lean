import Mathlib.Data.List.Perm.Basic

/-!
# Serial queues

Jobs with a queue name wait for each other in the queue of that name, and the first one has been started.

* `SerialQueues nameOf Live Leaving queues started` : the queues hold the live jobs, and only the first one of each
  runs;
* `mem_iff` : where no job is about to leave, the queues hold the live jobs.
-/

namespace TelegramClient
open List
open Function (update update_of_ne update_self)

section
variable {ι α : Type*}

structure SerialQueues (nameOf : α → Option ι) (Live Leaving : α → Prop) (queues : ι → List α) (started : List α) :
    Prop where
  queued : ∀ a name, nameOf a = some name → Live a → a ∈ queues name
  only : ∀ name, ∀ a ∈ queues name, nameOf a = some name ∧ (Live a ∨ Leaving a)
  nodup : ∀ name, (queues name).Nodup
  head : ∀ name first rest, queues name = first :: rest → first ∈ started ∨ Leaving first
  tail : ∀ name first rest, queues name = first :: rest → ∀ a ∈ rest, a ∉ started
  once : started.Nodup

/-- What is asked of one queue. -/
structure SerialQueue (nameOf : α → Option ι) (Live Leaving : α → Prop) (started : List α) (name : ι) (queue : List α) :
    Prop where
  queued : ∀ a, nameOf a = some name → Live a → a ∈ queue
  only : ∀ a ∈ queue, nameOf a = some name ∧ (Live a ∨ Leaving a)
  nodup : queue.Nodup
  head : ∀ first rest, queue = first :: rest → first ∈ started ∨ Leaving first
  tail : ∀ first rest, queue = first :: rest → ∀ a ∈ rest, a ∉ started

/-- A queue that stays: its jobs stay live or leave, and none of them is started. -/
theorem SerialQueue.mono {nameOf : α → Option ι} {Live Live' Leaving Leaving' : α → Prop} {started started' : List α}
    {name : ι} {queue : List α} (h : SerialQueue nameOf Live Leaving started name queue)
    (hlive : ∀ x, nameOf x = some name → Live' x → Live x)
    (hin : ∀ x ∈ queue, Live x ∨ Leaving x → Live' x ∨ Leaving' x) (hleaving : ∀ x ∈ queue, Leaving x → Leaving' x)
    (hstarted : ∀ x ∈ queue, x ∈ started' ↔ x ∈ started) : SerialQueue nameOf Live' Leaving' started' name queue where
  queued x hx hl := h.queued x hx (hlive x hx hl)
  only x hx := ⟨(h.only x hx).1, hin x hx (h.only x hx).2⟩
  nodup := h.nodup
  head first rest hq := by
    subst hq
    exact (h.head first rest rfl).imp (hstarted first mem_cons_self).mpr (hleaving first mem_cons_self)
  tail first rest hq x hx hm := by
    subst hq
    exact h.tail first rest rfl x hx ((hstarted x (mem_cons_of_mem first hx)).mp hm)

namespace SerialQueues
variable {nameOf nameOf' : α → Option ι} {Live Live' Leaving Leaving' : α → Prop} {queues : ι → List α}
  {started started' : List α} {a : α} {name : ι}

theorem of_each (h : ∀ name, SerialQueue nameOf Live Leaving started name (queues name)) (honce : started.Nodup) :
    SerialQueues nameOf Live Leaving queues started :=
  ⟨fun a name => (h name).queued a, fun name => (h name).only, fun name => (h name).nodup, fun name => (h name).head,
    fun name => (h name).tail, honce⟩

theorem of_update [DecidableEq ι] {queue : List α} (hown : SerialQueue nameOf Live Leaving started name queue)
    (hother : ∀ name' ≠ name, SerialQueue nameOf Live Leaving started name' (queues name')) (honce : started.Nodup) :
    SerialQueues nameOf Live Leaving (update queues name queue) started := by
  refine of_each (fun name' => ?_) honce
  by_cases hne : name' = name
  · subst hne
    rw [update_self]
    exact hown
  · rw [update_of_ne hne]
    exact hother name' hne

variable (h : SerialQueues nameOf Live Leaving queues started)
include h

theorem each (name : ι) : SerialQueue nameOf Live Leaving started name (queues name) :=
  ⟨fun a => h.queued a name, h.only name, h.nodup name, h.head name, h.tail name⟩

theorem mem_iff (hleaving : ∀ x, ¬Leaving x) : a ∈ queues name ↔ nameOf a = some name ∧ Live a := by
  constructor
  · intro ha
    obtain ⟨hname, hlive | hleave⟩ := h.only name a ha
    · exact ⟨hname, hlive⟩
    · exact absurd hleave (hleaving a)
  · rintro ⟨hname, hlive⟩
    exact h.queued a name hname hlive

theorem rename (hname : ∀ x, Live x ∨ Leaving x → nameOf' x = nameOf x) :
    SerialQueues nameOf' Live Leaving queues started := by
  refine { h with queued := fun x name hx hlive => ?_, only := fun name x hx => ?_ }
  · rw [hname x (.inl hlive)] at hx
    exact h.queued x name hx hlive
  · obtain ⟨hx, hin⟩ := h.only name x hx
    exact ⟨(hname x hin).trans hx, hin⟩

theorem retire (hlive : ∀ x, Live' x → Live x) (hkeep : ∀ name, ∀ x ∈ queues name, Live x → Live' x ∨ Leaving' x)
    (hleaving : ∀ name, ∀ x ∈ queues name, Leaving x → Leaving' x) :
    SerialQueues nameOf Live' Leaving' queues started := by
  refine of_each (fun name => (h.each name).mono (fun x _ => hlive x) (fun x hx hin => ?_) (hleaving name)
    fun _ _ => Iff.rfl) h.once
  exact hin.elim (hkeep name x hx) fun hl => .inr (hleaving name x hx hl)

theorem not_mem (hlive : ¬Live a) (hleaving : ¬Leaving a) (name : ι) : a ∉ queues name := by
  intro ha
  rcases (h.only name a ha).2 with hin | hin
  · exact hlive hin
  · exact hleaving hin

theorem ne_of_mem {x : α} {name' : ι} (hname : nameOf a = some name) (hne : name' ≠ name) (hx : x ∈ queues name') :
    x ≠ a := by
  rintro rfl
  exact hne (Option.some.inj ((h.only name' x hx).1.symm.trans hname))

/-! ## New jobs -/

theorem add_free (hname : nameOf a = none) (hlive : ∀ x, Live' x → Live x ∨ x = a) (hkeep : ∀ x, Live x → Live' x)
    (ha : a ∉ started) : SerialQueues nameOf Live' Leaving queues (a :: started) := by
  have hne : ∀ name, ∀ x ∈ queues name, x ≠ a := by
    rintro name x hx rfl
    have hin := (h.only name x hx).1
    rw [hname] at hin
    cases hin
  refine of_each (fun name => (h.each name).mono (fun x hx hin => ?_) (fun x _ => Or.imp_left (hkeep x)) (fun _ _ => id)
    fun x hx => mem_cons.trans (or_iff_right (hne name x hx))) (nodup_cons.mpr ⟨ha, h.once⟩)
  rcases hlive x hin with hin | rfl
  · exact hin
  · rw [hname] at hx
    cases hx

variable [DecidableEq ι]

theorem add_first (hname : nameOf a = some name) (hq : queues name = []) (hlive : ∀ x, Live' x ↔ Live x ∨ x = a)
    (ha : a ∉ started) (hnew : ∀ name, a ∉ queues name) :
    SerialQueues nameOf Live' Leaving (update queues name [a]) (a :: started) := by
  refine of_update ⟨fun x hx hin => ?_, fun x hx => ?_, by simp, fun first rest hfirst => ?_,
    fun first rest hfirst x hx => ?_⟩ (fun name' hne => (h.each name').mono (fun x hx hin => ?_)
      (fun x _ => Or.imp_left fun hin => (hlive x).mpr (.inl hin)) (fun _ _ => id) fun x hx => ?_)
    (nodup_cons.mpr ⟨ha, h.once⟩)
  · rcases (hlive x).mp hin with hin | rfl
    · have hm := h.queued x name hx hin
      rw [hq] at hm
      cases hm
    · exact mem_cons_self
  · obtain rfl := mem_singleton.mp hx
    exact ⟨hname, .inl ((hlive x).mpr (.inr rfl))⟩
  · obtain ⟨rfl, -⟩ := cons.inj hfirst
    exact .inl mem_cons_self
  · obtain ⟨-, rfl⟩ := cons.inj hfirst
    cases hx
  · rcases (hlive x).mp hin with hin | rfl
    · exact hin
    · exact absurd (Option.some.inj (hx.symm.trans hname)) hne
  · refine mem_cons.trans (or_iff_right ?_)
    rintro rfl
    exact hnew name' hx

variable {first : α} {rest rest' : List α}

theorem replace_rest (hq : queues name = first :: rest) (hlive : ∀ x, Live x → Live' x)
    (hnew : ∀ x name', nameOf x = some name' → Live' x → Live x ∨ name' = name ∧ x ∈ rest')
    (hold : ∀ x ∈ rest, x ∈ rest') (honly : ∀ x ∈ rest', nameOf x = some name ∧ (Live' x ∨ Leaving x))
    (hnd : (first :: rest').Nodup) (hstarted : ∀ x ∈ rest', x ∉ started) :
    SerialQueues nameOf Live' Leaving (update queues name (first :: rest')) started := by
  have hmono : ∀ x, Live x ∨ Leaving x → Live' x ∨ Leaving x := fun x hx => hx.imp_left (hlive x)
  refine of_update ⟨fun x hx hin => ?_, fun x hx => ?_, hnd, fun first' rest'' hfirst => ?_,
    fun first' rest'' hfirst x hx => ?_⟩ (fun name' hne => (h.each name').mono
      (fun x hx hin => (hnew x name' hx hin).resolve_right fun heq => hne heq.1) (fun x _ => hmono x) (fun _ _ => id)
      fun _ _ => Iff.rfl) h.once
  · rcases hnew x name hx hin with hin | ⟨-, hin⟩
    · have hm := h.queued x name hx hin
      rw [hq] at hm
      exact mem_cons.mpr ((mem_cons.mp hm).imp_right (hold x))
    · exact mem_cons_of_mem first hin
  · rcases mem_cons.mp hx with rfl | hx
    · obtain ⟨hxname, hin⟩ := h.only name x (by rw [hq]; exact mem_cons_self)
      exact ⟨hxname, hmono x hin⟩
    · exact honly x hx
  · obtain ⟨rfl, -⟩ := cons.inj hfirst
    exact h.head name first rest hq
  · obtain ⟨-, rfl⟩ := cons.inj hfirst
    exact hstarted x hx

theorem add_behind (hname : nameOf a = some name) (hq : queues name = first :: rest) (hperm : rest'.Perm (a :: rest))
    (hlive : ∀ x, Live' x ↔ Live x ∨ x = a) (ha : a ∉ started) (hnew : a ∉ queues name) :
    SerialQueues nameOf Live' Leaving (update queues name (first :: rest')) started := by
  have hnd := h.nodup name
  rw [hq] at hnew hnd
  refine h.replace_rest hq (fun x hx => (hlive x).mpr (.inl hx)) (fun x name' hx hin => ?_) (fun x hx => ?_)
    (fun x hx => ?_) ?_ fun x hx => ?_
  · rcases (hlive x).mp hin with hin | rfl
    · exact .inl hin
    · exact .inr ⟨Option.some.inj (hx.symm.trans hname), hperm.mem_iff.mpr mem_cons_self⟩
  · exact hperm.mem_iff.mpr (mem_cons_of_mem a hx)
  · rcases mem_cons.mp (hperm.mem_iff.mp hx) with rfl | hx
    · exact ⟨hname, .inl ((hlive x).mpr (.inr rfl))⟩
    · obtain ⟨hxname, hin⟩ := h.only name x (by rw [hq]; exact mem_cons_of_mem first hx)
      exact ⟨hxname, hin.imp_left fun hin => (hlive x).mpr (.inl hin)⟩
  · rw [(hperm.cons first).nodup_iff]
    simp only [nodup_cons, mem_cons, not_or] at hnew hnd ⊢
    exact ⟨⟨fun heq => hnew.1 heq.symm, hnd.1⟩, hnew.2, hnd.2⟩
  · rcases mem_cons.mp (hperm.mem_iff.mp hx) with rfl | hx
    · exact ha
    · exact h.tail name first rest hq x hx

theorem reorder (hq : queues name = first :: rest) (hperm : rest'.Perm rest) :
    SerialQueues nameOf Live Leaving (update queues name (first :: rest')) started := by
  have hnd := h.nodup name
  rw [hq] at hnd
  refine h.replace_rest hq (fun _ hx => hx) (fun _ _ _ hin => .inl hin) (fun x hx => hperm.mem_iff.mpr hx)
    (fun x hx => h.only name x ?_) ((hperm.cons first).nodup_iff.mpr hnd) fun x hx => ?_
  · rw [hq]
    exact mem_cons_of_mem first (hperm.mem_iff.mp hx)
  · exact h.tail name first rest hq x (hperm.mem_iff.mp hx)

/-! ## Jobs that leave -/

theorem pop (hq : queues name = a :: rest) (ha : ¬Live a) (hleaving : ∀ x, x ≠ a → Leaving x → Leaving' x)
    (hstarted : ∀ next more, rest = next :: more → next ∈ started' ∨ Leaving next)
    (hold : ∀ x ∈ started, x ∈ started') (hnew : ∀ x ∈ started', x ∉ started → ∃ more, rest = x :: more)
    (honce : started'.Nodup) : SerialQueues nameOf Live Leaving' (update queues name rest) started' := by
  have hnd := h.nodup name
  rw [hq, nodup_cons] at hnd
  have hname : nameOf a = some name := (h.only name a (by rw [hq]; exact mem_cons_self)).1
  have hrest : ∀ x ∈ rest, x ∈ queues name ∧ x ≠ a := by
    intro x hx
    refine ⟨by rw [hq]; exact mem_cons_of_mem a hx, ?_⟩
    rintro rfl
    exact hnd.1 hx
  refine of_update ⟨fun x hx hin => ?_, fun x hx => ?_, hnd.2, fun first rest' hfirst => ?_,
    fun first rest' hfirst x hx hm => ?_⟩ (fun name' hne => (h.each name').mono (fun _ _ => id)
      (fun x hx => Or.imp_right (hleaving x (h.ne_of_mem hname hne hx)))
      (fun x hx => hleaving x (h.ne_of_mem hname hne hx)) fun x hx => ⟨fun hm => ?_, hold x⟩) honce
  · have hm := h.queued x name hx hin
    rw [hq] at hm
    refine (mem_cons.mp hm).resolve_left ?_
    rintro rfl
    exact ha hin
  · obtain ⟨hm, hxa⟩ := hrest x hx
    obtain ⟨hxname, hin⟩ := h.only name x hm
    exact ⟨hxname, hin.imp_right (hleaving x hxa)⟩
  · subst hfirst
    exact (hstarted first rest' rfl).imp_right (hleaving first (hrest first mem_cons_self).2)
  · subst hfirst
    obtain ⟨more, hmore⟩ := hnew x hm (h.tail name a _ hq x (mem_cons_of_mem first hx))
    obtain ⟨rfl, rfl⟩ := cons.inj hmore
    exact (nodup_cons.mp hnd.2).1 hx
  · by_contra hx'
    obtain ⟨more, rfl⟩ := hnew x hm hx'
    exact h.ne_of_mem (h.only name x (by rw [hq]; simp)).1 hne hx rfl

theorem pop_start {next : α} {more : List α} (hq : queues name = a :: next :: more) (ha : ¬Live a)
    (hleaving : ∀ x, x ≠ a → Leaving x → Leaving' x) :
    SerialQueues nameOf Live Leaving' (update queues name (next :: more)) (next :: started) := by
  refine h.pop hq ha hleaving (fun x more' hx => ?_) (fun x hx => mem_cons_of_mem next hx)
    (fun x hx hstarted => ?_) (nodup_cons.mpr ⟨?_, h.once⟩)
  · obtain ⟨rfl, -⟩ := cons.inj hx
    exact .inl mem_cons_self
  · rcases mem_cons.mp hx with rfl | hx
    · exact ⟨more, rfl⟩
    · exact absurd hx hstarted
  · exact h.tail name a (next :: more) hq next mem_cons_self

variable [DecidableEq α]

theorem remove (hq : queues name = first :: rest) (hfirst : first ≠ a) (hname : nameOf a = some name) (ha : ¬Live a)
    (hleaving : ∀ x, x ≠ a → Leaving x → Leaving' x) :
    SerialQueues nameOf Live Leaving' (update queues name ((first :: rest).filter (· != a))) started := by
  have hnd := h.nodup name
  rw [hq] at hnd
  have hcons : (first :: rest).filter (· != a) = first :: rest.filter (· != a) := by simp [hfirst]
  refine of_update ⟨fun x hx hin => ?_, fun x hx => ?_, hnd.filter _, fun first' rest' hqueue => ?_,
    fun first' rest' hqueue x hx => ?_⟩ (fun name' hne => (h.each name').mono (fun _ _ => id)
      (fun x hx => Or.imp_right (hleaving x (h.ne_of_mem hname hne hx)))
      (fun x hx => hleaving x (h.ne_of_mem hname hne hx)) fun _ _ => Iff.rfl) h.once
  · refine mem_filter.mpr ⟨hq ▸ h.queued x name hx hin, bne_iff_ne.mpr ?_⟩
    rintro rfl
    exact ha hin
  · obtain ⟨hx, hxa⟩ := mem_filter.mp hx
    obtain ⟨hxname, hin⟩ := h.only name x (hq ▸ hx)
    exact ⟨hxname, hin.imp_right (hleaving x (bne_iff_ne.mp hxa))⟩
  · obtain ⟨rfl, -⟩ := cons.inj (hcons.symm.trans hqueue)
    exact (h.head name first rest hq).imp_right (hleaving first hfirst)
  · obtain ⟨-, rfl⟩ := cons.inj (hcons.symm.trans hqueue)
    exact h.tail name first rest hq x (mem_of_mem_filter hx)

end SerialQueues

end

end TelegramClient
