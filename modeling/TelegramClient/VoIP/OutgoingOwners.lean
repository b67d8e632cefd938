import TelegramClient.VoIP.JitterInvariant
import TelegramClient.VoIP.OutgoingQueue

/-!
# Every outgoing buffer has one owner

* `Owns` : the used buffers of the pool are those that are held, each once;
* `SendState.Inv` : what holds between the steps, and `Inv.length_queue_le`: there is room for the packet of `Stop`;
* **`outgoing_owned`** : in every order of steps.
-/

namespace TelegramClient.VoIP.Outgoing
open List hiding get

open Inbound TokenProgram

/-! ## The pool -/

/-- The used buffers are those of `held`, each once. -/
structure Owns (pool : BufferPool outgoingBufferSize 20) (held : List Nat) : Prop where
  nodup : held.Nodup
  used_iff : ∀ buffer, pool.Used buffer ↔ buffer ∈ held

section
variable {pool pool' : BufferPool outgoingBufferSize 20} {held held' : List Nat} {buffer : Nat}

theorem Owns.perm (h : Owns pool held) (hperm : held.Perm held') : Owns pool held' :=
  ⟨hperm.nodup_iff.mp h.nodup, fun buffer => (h.used_iff buffer).trans hperm.mem_iff⟩

theorem Owns.get (h : Owns pool held) (hget : pool.get = some (buffer, pool')) : Owns pool' (buffer :: held) := by
  obtain ⟨hfree, hiff⟩ := BufferPool.get_spec (by decide) (by decide) hget
  refine ⟨nodup_cons.mpr ⟨fun hm => hfree ((h.used_iff buffer).mpr hm), h.nodup⟩, fun b => ?_⟩
  rw [hiff, h.used_iff, mem_cons, or_comm]

theorem Owns.reuse (h : Owns pool (buffer :: held)) : ∃ pool', pool.reuse buffer = some pool' ∧ Owns pool' held := by
  obtain ⟨pool', hreuse, hiff⟩ :=
    BufferPool.reuse_spec (by decide) (by decide) ((h.used_iff buffer).mpr mem_cons_self)
  obtain ⟨hnot, hnd⟩ := nodup_cons.mp h.nodup
  refine ⟨pool', hreuse, hnd, fun b => ?_⟩
  rw [hiff, h.used_iff, mem_cons]
  constructor
  · exact fun ⟨hm, hne⟩ => hm.resolve_left hne
  · exact fun hm => ⟨.inr hm, fun heq => hnot (heq ▸ hm)⟩

theorem nodup_buffers : buffers.Nodup := by decide

theorem Owns.subset_buffers (h : Owns pool held) : held ⊆ buffers := by
  intro buffer hm
  obtain ⟨i, hi, heq, -⟩ := (h.used_iff buffer).mpr hm
  exact mem_map.mpr ⟨i, mem_range.mpr hi, heq⟩

theorem Owns.length_le (h : Owns pool held) : held.length ≤ 20 :=
  List.Nodup.length_le_of_subset h.nodup h.subset_buffers

end

namespace SendState

variable {buffer : Nat}

theorem mem_free {s : SendState} : buffer ∈ s.free ↔ buffer ∈ buffers ∧ ¬s.outgoingPacketsBufferPool.Used buffer := by
  simp only [free, buffers, mem_map, mem_filter, mem_range, BufferPool.Used]
  constructor
  · rintro ⟨i, ⟨hi, hfree⟩, rfl⟩
    refine ⟨⟨i, hi, rfl⟩, ?_⟩
    rintro ⟨j, -, heq, hused⟩
    rw [Nat.eq_of_mul_eq_mul_right (by decide) heq] at hused
    simp [hused] at hfree
  · rintro ⟨⟨i, hi, rfl⟩, hfree⟩
    refine ⟨i, ⟨hi, ?_⟩, rfl⟩
    by_contra hused
    exact hfree ⟨i, hi, rfl, by simpa using hused⟩

theorem perm_buffers {s : SendState} (h : Owns s.outgoingPacketsBufferPool s.held) :
    (s.free ++ s.held).Perm buffers := by
  have hfree : s.free.Nodup := nodup_buffers.sublist (filter_sublist.map _)
  refine (perm_ext_iff_of_nodup ?_ nodup_buffers).mpr fun buffer => ?_
  · refine nodup_append.mpr ⟨hfree, h.nodup, fun b hb b' hb' heq => ?_⟩
    exact (mem_free.mp hb).2 ((h.used_iff b).mpr (heq ▸ hb'))
  · rw [mem_append, mem_free, h.used_iff]
    constructor
    · exact fun hm => hm.elim And.left fun hheld => h.subset_buffers hheld
    · exact fun hm => (Decidable.em (buffer ∈ s.held)).elim .inr fun hnot => .inl ⟨hm, hnot⟩

/-! ## The queue -/

structure Inv (s : SendState) : Prop where
  owns : Owns s.outgoingPacketsBufferPool s.held
  balanced : ∀ p ∈ s.producers, Balanced p.held p.program
  /-- Only `Stop` puts a packet without a buffer into the queue. -/
  nulls : s.sendQueue.queue.countP (fun pkt => pkt.data.isNone) ≤ if s.stop = .left then 1 else 0
  semaphore : s.sendQueue.semaphore + (if s.sender = .getInternal then 1 else 0) = s.sendQueue.queue.length

theorem length_queue (queue : List PendingOutgoingPacket) :
    queue.length = queue.countP (fun pkt => pkt.data.isNone) + (queue.flatMap PendingOutgoingPacket.held).length := by
  induction queue with
  | nil => rfl
  | cons pkt queue ih =>
    rw [length_cons, countP_cons, flatMap_cons, length_append, ih, PendingOutgoingPacket.held]
    cases pkt.data <;> simp <;> omega

variable {s : SendState}

theorem Inv.length_queue_le (h : s.Inv) : s.sendQueue.queue.length ≤ 21 := by
  have hheld := h.owns.length_le
  have hnulls := h.nulls
  have hq := length_queue s.sendQueue.queue
  rw [held, length_append, length_append] at hheld
  split at hnulls <;> omega

theorem init_inv : init.Inv where
  owns := ⟨nodup_nil, fun buffer => iff_of_false (BufferPool.not_used_zero buffer) not_mem_nil⟩
  balanced _ h := nomatch h
  nulls := le_rfl
  semaphore := rfl

theorem BlockingQueue.put_eq_some {α : Type} {capacity : Nat} {q : BlockingQueue α capacity} {thing : α}
    (h : q.queue.length < capacity) : q.put thing = some ⟨q.queue ++ [thing], q.semaphore + 1⟩ := by
  have hroom : ¬capacity < (q.queue ++ [thing]).length := by
    rw [length_append, length_singleton]
    omega
  exact if_neg hroom

/-! ## Steps of a producer -/

variable {producers : List Producer}

theorem Inv.withProducers (h : s.Inv)
    (hheld : producers.flatMap TokenThread.held = s.producers.flatMap TokenThread.held)
    (hbalanced : ∀ p ∈ producers, Balanced p.held p.program) : Inv { s with producers := producers } := by
  refine ⟨?_, hbalanced, h.nulls, h.semaphore⟩
  show Owns _ (producers.flatMap TokenThread.held ++ _ ++ _)
  rw [hheld]
  exact h.owns

variable {program : SendProgram}

theorem Inv.start (h : s.Inv) (hprogram : Produces program) :
    Inv { s with producers := s.producers ++ [⟨program, []⟩] } := by
  refine h.withProducers ?_ fun p hp => ?_
  · rw [flatMap_append, flatMap_singleton, append_nil]
  · rcases mem_append.mp hp with hp | hp
    · exact h.balanced p hp
    · exact mem_singleton.mp hp ▸ hprogram.balanced

variable {i : Nat} {p : Producer}

theorem held_split (hi : producers[i]? = some p) :
    ∃ before after : List Nat, producers.flatMap TokenThread.held = before ++ (p.held ++ after) ∧
      (∀ q, (producers.set i q).flatMap TokenThread.held = before ++ (q.held ++ after)) ∧
        (producers.eraseIdx i).flatMap TokenThread.held = before ++ after := by
  obtain ⟨before, after, hsplit, hset, herase⟩ := exists_split hi
  refine ⟨before.flatMap TokenThread.held, after.flatMap TokenThread.held, ?_, fun q => ?_, ?_⟩
  · rw [hsplit, flatMap_append, flatMap_cons]
  · rw [hset, flatMap_append, flatMap_cons]
  · rw [herase, flatMap_append]

variable {q : Producer}

theorem Inv.balanced_set (h : s.Inv) (hq : Balanced q.held q.program) (i : Nat) :
    ∀ q' ∈ s.producers.set i q, Balanced q'.held q'.program := by
  intro q' hq'
  rcases mem_or_eq_of_mem_set hq' with hq' | rfl
  · exact h.balanced q' hq'
  · exact hq

theorem Inv.returned (h : s.Inv) (hi : s.producers[i]? = some p) (hempty : p.held = []) :
    Inv { s with producers := s.producers.eraseIdx i } := by
  obtain ⟨before, after, hheld, -, herase⟩ := held_split hi
  refine h.withProducers ?_ fun q hq => h.balanced q (mem_of_mem_eraseIdx hq)
  rw [herase, hheld, hempty, nil_append]

theorem Inv.goesOn (h : s.Inv) (hi : s.producers[i]? = some p) (heq : q.held = p.held)
    (hq : Balanced q.held q.program) : Inv { s with producers := s.producers.set i q } := by
  obtain ⟨before, after, hheld, hset, -⟩ := held_split hi
  refine h.withProducers ?_ (h.balanced_set hq i)
  rw [hset, hheld, heq]

theorem Inv.takes (h : s.Inv) (hi : s.producers[i]? = some p) {pool : BufferPool outgoingBufferSize 20}
    (hget : s.outgoingPacketsBufferPool.get = some (buffer, pool)) (heq : q.held = buffer :: p.held)
    (hq : Balanced q.held q.program) :
    Inv { s with outgoingPacketsBufferPool := pool, producers := s.producers.set i q } := by
  obtain ⟨before, after, hheld, hset, -⟩ := held_split hi
  refine ⟨(h.owns.get hget).perm ?_, h.balanced_set hq i, h.nulls, h.semaphore⟩
  show List.Perm _ ((s.producers.set i q).flatMap TokenThread.held ++ _ ++ _)
  rw [SendState.held, hset, hheld, heq]
  refine perm_iff_count.mpr fun b => ?_
  simp only [count_append, count_cons]
  omega

theorem Inv.length_queue_lt (h : s.Inv) (hi : s.producers[i]? = some p) (hheld : p.held = [buffer]) :
    s.sendQueue.queue.length < 21 := by
  obtain ⟨before, after, hsplit, -⟩ := held_split hi
  have hall := h.owns.length_le
  have hnulls := h.nulls
  have hq := length_queue s.sendQueue.queue
  rw [SendState.held, hsplit, hheld, length_append, length_append, length_append, length_append,
    length_singleton] at hall
  split at hnulls <;> omega

variable {pkt : PendingOutgoingPacket}

theorem Inv.puts (h : s.Inv) (hi : s.producers[i]? = some p) (hheld : p.held = [buffer])
    (hdata : pkt.data = some buffer) (heq : q.held = []) (hq : Balanced q.held q.program) : Inv { s with
      sendQueue := ⟨s.sendQueue.queue ++ [pkt], s.sendQueue.semaphore + 1⟩
      producers := s.producers.set i q } := by
  obtain ⟨before, after, hsplit, hset, -⟩ := held_split hi
  refine ⟨h.owns.perm ?_, h.balanced_set hq i, ?_, ?_⟩
  · show List.Perm _ ((s.producers.set i q).flatMap TokenThread.held ++
      (s.sendQueue.queue ++ [pkt]).flatMap PendingOutgoingPacket.held ++ _)
    rw [SendState.held, hset, hsplit, heq, hheld, flatMap_append, flatMap_singleton, PendingOutgoingPacket.held,
      hdata, Option.toList_some, nil_append]
    refine perm_iff_count.mpr fun b => ?_
    simp only [count_append]
    omega
  · show (s.sendQueue.queue ++ [pkt]).countP _ ≤ _
    rw [countP_append, countP_singleton, hdata]
    exact h.nulls
  · show s.sendQueue.semaphore + 1 + _ = (s.sendQueue.queue ++ [pkt]).length
    rw [length_append, length_singleton, ← h.semaphore, Nat.add_right_comm]

theorem Inv.produce (h : s.Inv) (i : Nat) (view : SendView) : ∃ s', s.produce i view = .ok s' ∧ s'.Inv := by
  unfold SendState.produce
  cases hi : s.producers[i]? with
  | none => exact ⟨s, rfl, h⟩
  | some p =>
    have hp := h.balanced p (mem_of_getElem? hi)
    obtain ⟨program, held⟩ := p
    cases program with
    | done | raise => exact ⟨_, rfl, h.returned hi hp⟩
    | read next => exact ⟨_, rfl, h.goesOn hi rfl (hp view)⟩
    | get next =>
      obtain ⟨hempty, hnone, hsome⟩ := hp
      dsimp only at hempty ⊢
      subst hempty
      cases hget : s.outgoingPacketsBufferPool.get with
      | none => exact ⟨_, rfl, h.goesOn hi rfl hnone⟩
      | some got => exact ⟨_, rfl, h.takes hi hget rfl (hsome got.1)⟩
    | put pkt next =>
      obtain ⟨⟨buffer, hheld, hdata⟩, hnext⟩ := hp
      have hempty : (held.filter fun buffer => some buffer ≠ pkt.data) = [] := by
        rw [show held = [buffer] from hheld, hdata]
        simp
      dsimp only
      rw [BlockingQueue.put_eq_some (h.length_queue_lt hi hheld)]
      exact ⟨_, rfl, h.puts hi hheld hdata hempty (hempty ▸ hnext)⟩

/-! ## Steps of the send thread, and of `Stop` -/

theorem Inv.withSender (h : s.Inv) {sender : SendThread} (hheld : sender.held = s.sender.held)
    (hbefore : s.sender ≠ .getInternal) (hafter : sender ≠ .getInternal) : Inv { s with sender := sender } := by
  refine ⟨?_, h.balanced, h.nulls, ?_⟩
  · show Owns _ (_ ++ sender.held)
    rw [hheld]
    exact h.owns
  · have hsemaphore := h.semaphore
    rw [if_neg hbefore] at hsemaphore
    show _ + (if sender = .getInternal then 1 else 0) = _
    rw [if_neg hafter]
    exact hsemaphore

theorem Inv.acquires (h : s.Inv) (hsender : s.sender = .acquire) (hsemaphore : s.sendQueue.semaphore ≠ 0) :
    Inv { s with sendQueue := { s.sendQueue with semaphore := s.sendQueue.semaphore - 1 }, sender := .getInternal } := by
  refine ⟨?_, h.balanced, h.nulls, ?_⟩
  · have howns := h.owns
    rw [SendState.held, hsender] at howns
    exact howns
  · have hlen := h.semaphore
    rw [hsender] at hlen
    show s.sendQueue.semaphore - 1 + 1 = s.sendQueue.queue.length
    rw [← hlen]
    exact Nat.sub_add_cancel (Nat.pos_of_ne_zero hsemaphore)

theorem Inv.getsInternal (h : s.Inv) (hsender : s.sender = .getInternal) {queue : List PendingOutgoingPacket}
    (hq : s.sendQueue.queue = pkt :: queue) :
    Inv { s with sendQueue := { s.sendQueue with queue := queue }, sender := .send pkt } := by
  refine ⟨h.owns.perm ?_, h.balanced, ?_, ?_⟩
  · show List.Perm _ (_ ++ queue.flatMap PendingOutgoingPacket.held ++ pkt.held)
    rw [SendState.held, hq, hsender, flatMap_cons]
    refine perm_iff_count.mpr fun b => ?_
    simp only [count_append, SendThread.held, count_nil]
    omega
  · have hnulls := h.nulls
    rw [hq, countP_cons] at hnulls
    exact (Nat.le_add_right _ _).trans hnulls
  · have hlen := h.semaphore
    rw [hsender, hq, length_cons] at hlen
    exact Nat.succ.inj hlen

theorem Inv.send (h : s.Inv) (view : SendView) : ∃ s', s.send view = .ok s' ∧ s'.Inv := by
  unfold SendState.send
  cases hsender : s.sender with
  | loop =>
    refine ⟨_, rfl, h.withSender ?_ (by rw [hsender]; nofun) ?_⟩
    · rw [hsender]
      split <;> rfl
    · split <;> nofun
  | acquire =>
    dsimp only [BlockingQueue.acquire]
    by_cases hsemaphore : s.sendQueue.semaphore = 0
    · rw [if_pos hsemaphore]
      exact ⟨s, rfl, h⟩
    · rw [if_neg hsemaphore]
      exact ⟨_, rfl, h.acquires hsender hsemaphore⟩
  | getInternal =>
    dsimp only [BlockingQueue.getInternal]
    cases hq : s.sendQueue.queue with
    | nil =>
      have hlen := h.semaphore
      rw [hsender, hq] at hlen
      cases hlen
    | cons pkt queue => exact ⟨_, rfl, h.getsInternal hsender hq⟩
  | send pkt =>
    dsimp only
    cases hdata : pkt.data with
    | none =>
      have hempty : pkt.held = [] := by rw [PendingOutgoingPacket.held, hdata, Option.toList_none]
      refine ⟨_, rfl, h.withSender ?_ (by rw [hsender]; nofun) nofun⟩
      rw [hsender]
      exact hempty.symm
    | some buffer =>
      have hsame : pkt.held = [buffer] := by rw [PendingOutgoingPacket.held, hdata, Option.toList_some]
      have hreuse : Inv { s with sender := .reuse buffer } := by
        refine h.withSender ?_ (by rw [hsender]; nofun) nofun
        rw [hsender]
        exact hsame.symm
      exact ⟨_, rfl, hreuse.owns, hreuse.balanced, hreuse.nulls, hreuse.semaphore⟩
  | reuse buffer =>
    have hperm : s.held.Perm (buffer :: (s.producers.flatMap TokenThread.held ++
        s.sendQueue.queue.flatMap PendingOutgoingPacket.held)) := by
      rw [SendState.held, hsender]
      exact perm_append_comm
    obtain ⟨pool, hreuse, howns⟩ := (h.owns.perm hperm).reuse
    dsimp only
    rw [hreuse]
    refine ⟨_, rfl, ?_, h.balanced, h.nulls, ?_⟩
    · show Owns _ (_ ++ [])
      rw [append_nil]
      exact howns
    · have hlen := h.semaphore
      rw [hsender] at hlen
      exact hlen
  | exited => exact ⟨s, rfl, h⟩

theorem Inv.stopStep (h : s.Inv) : ∃ s', s.stopStep = .ok s' ∧ s'.Inv := by
  unfold SendState.stopStep
  cases hstop : s.stop with
  | notCalled =>
    refine ⟨_, rfl, h.owns, h.balanced, ?_, h.semaphore⟩
    have hnulls := h.nulls
    rw [hstop] at hnulls
    exact hnulls
  | entered =>
    have hnulls := h.nulls
    rw [hstop] at hnulls
    have hroom : s.sendQueue.queue.length < 21 := by
      have hall := h.owns.length_le
      rw [SendState.held, length_append, length_append] at hall
      rw [length_queue, Nat.le_zero.mp hnulls]
      omega
    dsimp only
    rw [BlockingQueue.put_eq_some hroom]
    refine ⟨_, rfl, ?_, h.balanced, ?_, ?_⟩
    · have howns := h.owns
      show Owns _ (_ ++ (s.sendQueue.queue ++ [_]).flatMap PendingOutgoingPacket.held ++ _)
      rw [flatMap_append, flatMap_singleton, PendingOutgoingPacket.held, Option.toList_none, append_nil]
      exact howns
    · show (s.sendQueue.queue ++ [_]).countP _ ≤ 1
      rw [countP_append, Nat.le_zero.mp hnulls]
      exact le_rfl
    · show s.sendQueue.semaphore + 1 + _ = (s.sendQueue.queue ++ [_]).length
      rw [length_append, length_singleton, ← h.semaphore, Nat.add_right_comm]
  | left => exact ⟨s, rfl, h⟩

/-! ## Whole runs -/

theorem Inv.step (h : s.Inv) {event : SendEvent} (hev : ∀ program, event = .start program → Produces program) :
    ∃ s', stepSend s event = .ok s' ∧ s'.Inv := by
  cases event with
  | start program => exact ⟨_, rfl, h.start (hev program rfl)⟩
  | produce i view => exact h.produce i view
  | send view => exact h.send view
  | stop => exact h.stopStep

theorem Inv.run (h : s.Inv) {events : List SendEvent}
    (hevents : ∀ program, .start program ∈ events → Produces program) :
    ∃ s', events.foldlM stepSend s = .ok s' ∧ s'.Inv := by
  induction events generalizing s with
  | nil => exact ⟨s, rfl, h⟩
  | cons event events ih =>
    obtain ⟨s₁, hstep, h₁⟩ := h.step fun program heq => hevents program (heq ▸ mem_cons_self)
    obtain ⟨s₂, hrun, h₂⟩ := ih h₁ fun program hm => hevents program (mem_cons_of_mem _ hm)
    refine ⟨s₂, ?_, h₂⟩
    rw [foldlM_cons, hstep]
    exact hrun

/-- In every order of steps nothing aborts, each buffer is either free or held by one party, the queue has 21 entries at
most, and all buffers are free when the queue is empty and neither a producer nor the send thread holds one. -/
theorem outgoing_owned (events : List SendEvent) (hevents : ∀ program, .start program ∈ events → Produces program) :
    ∃ s, events.foldlM stepSend init = .ok s ∧ (s.free ++ s.held).Perm buffers ∧ s.sendQueue.queue.length ≤ 21 ∧
      (s.sendQueue.queue = [] → s.producers = [] → s.sender.held = [] → s.free.Perm buffers) := by
  obtain ⟨s, hrun, h⟩ := init_inv.run hevents
  have hperm := perm_buffers h.owns
  refine ⟨s, hrun, hperm, h.length_queue_le, fun hqueue hproducers hsender => ?_⟩
  rw [held, hqueue, hproducers, hsender] at hperm
  simpa using hperm

/-! ## A ping -/

def pingView : SendView where
  state := .established
  stopping := false
  waitingForAcks := false
  dontSendPackets := 0
  shittyInternetMode := false
  audioTimestampOut := 0
  seq := 1
  tickCount := 0
  currentTime := 0
  lastPingTime := fun _ => 0
  anyEnabledStreams := true
  enableCallUpgrade := false
  dataSavingMode := false
  connectionMaxLayer := 74
  table := .init false 0 ""

/-- The ping of a relay is answered, and the send thread has the answer. -/
def pingEvents : List SendEvent :=
  .start (handlePing ⟨1, 0, 1, 0, .udpRelay, 0⟩ 5) :: (List.replicate 6 (.produce 0 pingView) ++
    List.replicate 3 (.send pingView))

theorem produces_pingEvents (h : .start program ∈ pingEvents) : Produces program := by
  simp only [pingEvents, mem_cons, SendEvent.start.injEq, mem_append, mem_replicate, reduceCtorEq, and_false,
    or_false] at h
  exact h ▸ .handlePing _ _

theorem outgoing_owned_ping :
    ∃ s, pingEvents.foldlM stepSend init = .ok s ∧ (s.free ++ s.held).Perm buffers ∧ s.sendQueue.queue.length ≤ 21 ∧
      (s.sendQueue.queue = [] → s.producers = [] → s.sender.held = [] → s.free.Perm buffers) :=
  outgoing_owned pingEvents fun _ => produces_pingEvents

/-- The queue is empty and no producer is active, and 19 buffers are free. -/
theorem answer_not_reused :
    (∀ program, .start program ∈ pingEvents → Produces program) ∧
      ∃ s, pingEvents.foldlM stepSend init = .ok s ∧ s.sendQueue.queue = [] ∧ s.producers = [] ∧ s.free.length = 19 :=
  ⟨fun _ => produces_pingEvents, _, rfl, rfl, rfl, by decide⟩

end SendState

end TelegramClient.VoIP.Outgoing
