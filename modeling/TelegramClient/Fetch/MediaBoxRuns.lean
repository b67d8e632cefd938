import TelegramClient.Fetch.MediaBox

/-!
# What the store of media holds in a run

* `Timely` : no data of a fetch comes after its descriptor was closed or another fetch has started;
* `BoxInv` : what holds between two events, by the results and the closing blocks that wait;
* **`mediaBox_stored`** : a run in which no data is late stores the resource.
-/

namespace TelegramClient.Fetch
open List
open Bool (and_eq_true not_eq_true' or_eq_false_iff or_eq_true)

open MediaBox

/-! ## Data that is not late -/

def QueueBlock.data : QueueBlock → Bytes
  | .result _ data _ => data
  | _ => []

def pending (queue : List QueueBlock) : Bytes := queue.flatMap QueueBlock.data

namespace MediaBox

/-- The block that runs in an event, other than for a result or the end of a fetch. -/
def blockRun (s : MediaBox) : BoxEvent → Option QueueBlock
  | .subscribe (.dataQueue _) => some (.subscribe s.subscriptionCount)
  | .dispose i (.dataQueue _) => if s.subscriptions i = .registered then some (.unsubscribe i) else none
  | .cancel (.dataQueue _) => some .cancel
  | .run _ => s.queue.head?
  | _ => none

def disposedBy (s : MediaBox) : QueueBlock → Option Nat
  | .unsubscribe i => if (s.fetchSubscribers.erase i).isEmpty then s.fetchDisposable else none
  | .cancel => s.fetchDisposable
  | _ => none

def startsFetch (s : MediaBox) : QueueBlock → Bool
  | .subscribe _ => !s.isComplete && s.fetchDisposable.isNone
  | _ => false

/-- No data of a fetch waits when it is disposed of with an open descriptor, or when another one starts. -/
def BlockTimely (s : MediaBox) (block : QueueBlock) : Prop :=
  (∀ k ∈ s.disposedBy block, s.isLive k = true → (s.fetches k).fd.isSome = true → s.dataWaits k = false) ∧
    (s.startsFetch block = true → pending s.queue = [])

def ResultTimely (resource : Bytes) (s : MediaBox) : BoxEvent → Prop
  | .result k n _ _ => slice resource (s.fetches k).position n ≠ [] →
    k + 1 = s.fetchCount ∧ (s.fetches k).closed = false
  | _ => True

def Timely (resource : Bytes) (s : MediaBox) (event : BoxEvent) : Prop :=
  (∀ block ∈ s.blockRun event, s.BlockTimely block) ∧ s.ResultTimely resource event

instance (s : MediaBox) (block : QueueBlock) : Decidable (s.BlockTimely block) :=
  inferInstanceAs (Decidable ((∀ k ∈ s.disposedBy block, _ → _ → _) ∧ (_ → _)))

instance (resource : Bytes) (s : MediaBox) : (event : BoxEvent) → Decidable (s.ResultTimely resource event)
  | .result k n _ _ => inferInstanceAs (Decidable (slice resource (s.fetches k).position n ≠ [] → _ ∧ _))
  | .subscribe _ | .dispose .. | .cancel _ | .finish .. | .run _ => inferInstanceAs (Decidable True)

instance (resource : Bytes) (s : MediaBox) (event : BoxEvent) : Decidable (s.Timely resource event) :=
  inferInstanceAs (Decidable ((∀ block ∈ s.blockRun event, s.BlockTimely block) ∧ s.ResultTimely resource event))

end MediaBox

/-! ## The invariant -/

def isWork : QueueBlock → Bool
  | .result _ _ _ => true
  | .close _ => true
  | _ => false

def work (queue : List QueueBlock) : List QueueBlock := queue.filter isWork

/-- What holds while `w` waits. Only the last fetch has data that waits, and its descriptor is not closed. -/
structure BoxInv (resource : Bytes) (s : MediaBox) (w : List QueueBlock) : Prop where
  stored : s.content ++ pending w <+: resource
  position_last : ∀ k, k + 1 = s.fetchCount → (s.fetches k).position = (s.content ++ pending w).length
  position_le : ∀ k, k + 1 < s.fetchCount → (s.fetches k).position ≤ s.content.length
  complete : ∀ l k data r, w = l ++ .result k data true :: r → s.content ++ pending l ++ data = resource
  linked : s.linked = true → s.content = resource
  current : ∀ k, s.fetchDisposable = some k → k + 1 = s.fetchCount
  live : ∀ k, s.isLive k = true → s.fetchDisposable = some k
  waits : ∀ k, w.any (hasDataOf k) = true → k + 1 = s.fetchCount ∧ (s.fetches k).closed = false
  fd_open : ∀ k handle, (s.fetches k).fd = some handle → (s.fetches k).closed = false → handle ∈ s.openFiles
  fd_apart : ∀ j k handle, j ≠ k → (s.fetches j).fd = some handle → (s.fetches k).fd = some handle →
    (s.fetches j).closed = true ∨ (s.fetches k).closed = true
  closed_ended : ∀ k, (s.fetches k).closed = true → (s.fetches k).finished = true ∨ (s.fetches k).disposed = true
  close_waits : ∀ k, .close k ∈ w → k < s.fetchCount ∧ (s.fetches k).finished = true ∧ (s.fetches k).closed = false
  /-- A fetch is closed once, after its data. -/
  close_last : ∀ l k r, w = l ++ .close k :: r → .close k ∉ r ∧ r.any (hasDataOf k) = false

/-! ### Lists of blocks -/

theorem pending_append (l l' : List QueueBlock) : pending (l ++ l') = pending l ++ pending l' := flatMap_append

theorem pending_nil : pending [] = [] := rfl

theorem pending_cons (block : QueueBlock) (l : List QueueBlock) : pending (block :: l) = block.data ++ pending l := rfl

theorem pending_work (queue : List QueueBlock) : pending (work queue) = pending queue := by
  unfold work pending at *
  induction queue with
  | nil => rfl
  | cons block queue ih => cases block <;> simp [filter_cons, isWork, QueueBlock.data, ih]

theorem work_snoc {block : QueueBlock} (h : isWork block = true) (queue : List QueueBlock) :
    work (queue ++ [block]) = work queue ++ [block] := by
  rw [work, filter_append, filter_cons, h]
  rfl

theorem any_hasDataOf_work (k : Nat) (queue : List QueueBlock) :
    (work queue).any (hasDataOf k) = queue.any (hasDataOf k) := by
  induction queue with
  | nil => rfl
  | cons block queue ih => cases block <;> simp_all [work, isWork, hasDataOf]

theorem any_hasDataOf_of_pending {queue : List QueueBlock} (h : pending queue = []) (k : Nat) :
    queue.any (hasDataOf k) = false := by
  induction queue with
  | nil => rfl
  | cons block queue ih =>
    rw [pending_cons, append_eq_nil_iff] at h
    rw [any_cons, ih h.2, Bool.or_false]
    cases block with
    | result k' data complete =>
      have hdata : data = [] := h.1
      simp [hasDataOf, hdata]
    | _ => rfl

theorem pending_eq_nil {queue : List QueueBlock} (h : ∀ k, queue.any (hasDataOf k) = false) : pending queue = [] := by
  induction queue with
  | nil => rfl
  | cons block queue ih =>
    have hq : ∀ k, queue.any (hasDataOf k) = false := fun k => by
      have hk := h k
      rw [any_cons, or_eq_false_iff] at hk
      exact hk.2
    rw [pending_cons, ih hq, append_nil]
    cases block with
    | result k data complete =>
      have hk := h k
      rw [any_cons, or_eq_false_iff] at hk
      have hdata : data = [] := by simpa [hasDataOf] using hk.1
      exact hdata
    | _ => rfl

section
variable {resource : Bytes} {s : MediaBox} {w : List QueueBlock}

theorem BoxInv.storedWell (h : BoxInv resource s (work s.queue)) : StoredWell resource s := by
  have hlast : ∀ k, s.Appends k → k + 1 = s.fetchCount := by
    intro k hk
    rcases hk with hlive | hwaits
    · exact h.current k (h.live k hlive)
    · refine (h.waits k ?_).1
      rw [any_hasDataOf_work]
      exact hwaits
  refine ⟨(prefix_append _ _).trans h.stored, fun j k hj hk => ?_, h.linked⟩
  have hjlast := hlast j hj
  have hklast := hlast k hk
  omega

/-! ### Results -/

@[simp] theorem updateFetch_self (s : MediaBox) (k : Nat) (f : ResourceFetch → ResourceFetch) :
    (s.updateFetch k f).fetches k = f (s.fetches k) := Function.update_self ..

variable {k : Nat}

theorem updateFetch_of_ne (s : MediaBox) {j : Nat} (hjk : j ≠ k) (f : ResourceFetch → ResourceFetch) :
    (s.updateFetch k f).fetches j = s.fetches j := Function.update_of_ne hjk ..

structure SameButFd (fetch fetch' : ResourceFetch) : Prop where
  position : fetch.position = fetch'.position
  finished : fetch.finished = fetch'.finished
  disposed : fetch.disposed = fetch'.disposed
  closed : fetch.closed = fetch'.closed

variable {s' : MediaBox}

theorem BoxInv.of_fds (h : BoxInv resource s w) (hcont : s'.content = s.content) (hlinked : s'.linked = s.linked)
    (hdisp : s'.fetchDisposable = s.fetchDisposable) (hcnt : s'.fetchCount = s.fetchCount)
    (hfetches : ∀ k, SameButFd (s'.fetches k) (s.fetches k))
    (fd_open : ∀ k handle, (s'.fetches k).fd = some handle → (s'.fetches k).closed = false → handle ∈ s'.openFiles)
    (fd_apart : ∀ j k handle, j ≠ k → (s'.fetches j).fd = some handle → (s'.fetches k).fd = some handle →
      (s'.fetches j).closed = true ∨ (s'.fetches k).closed = true) : BoxInv resource s' w := by
  refine ⟨?_, ?_, ?_, ?_, ?_, ?_, ?_, ?_, fd_open, fd_apart, ?_, ?_, h.close_last⟩
  · rw [hcont]
    exact h.stored
  · intro k hk
    rw [(hfetches k).position, hcont]
    exact h.position_last k (hcnt ▸ hk)
  · intro k hk
    rw [(hfetches k).position, hcont]
    exact h.position_le k (hcnt ▸ hk)
  · rw [hcont]
    exact h.complete
  · rw [hcont, hlinked]
    exact h.linked
  · rw [hdisp, hcnt]
    exact h.current
  · intro k hlive
    unfold isLive at hlive
    rw [hcnt, (hfetches k).finished, (hfetches k).disposed] at hlive
    rw [hdisp]
    exact h.live k hlive
  · intro k hwaits
    rw [hcnt, (hfetches k).closed]
    exact h.waits k hwaits
  · intro k
    rw [(hfetches k).closed, (hfetches k).finished, (hfetches k).disposed]
    exact h.closed_ended k
  · intro k
    rw [hcnt, (hfetches k).finished, (hfetches k).closed]
    exact h.close_waits k

structure SameFile (fetch fetch' : ResourceFetch) : Prop where
  position : fetch.position = fetch'.position
  fd : fetch.fd = fetch'.fd
  closed : fetch.closed = fetch'.closed
  finished : fetch'.finished = true → fetch.finished = true
  disposed : fetch'.disposed = true → fetch.disposed = true

theorem BoxInv.of_ends (h : BoxInv resource s w) (hcont : s'.content = s.content) (hlinked : s'.linked = s.linked)
    (hcnt : s'.fetchCount = s.fetchCount) (hopen : s'.openFiles = s.openFiles)
    (hfetches : ∀ k, SameFile (s'.fetches k) (s.fetches k))
    (current : ∀ k, s'.fetchDisposable = some k → k + 1 = s'.fetchCount)
    (live : ∀ k, s'.isLive k = true → s'.fetchDisposable = some k) : BoxInv resource s' w := by
  refine ⟨?_, ?_, ?_, ?_, ?_, current, live, ?_, ?_, ?_, ?_, ?_, h.close_last⟩
  · rw [hcont]
    exact h.stored
  · intro k hk
    rw [(hfetches k).position, hcont]
    exact h.position_last k (hcnt ▸ hk)
  · intro k hk
    rw [(hfetches k).position, hcont]
    exact h.position_le k (hcnt ▸ hk)
  · rw [hcont]
    exact h.complete
  · rw [hcont, hlinked]
    exact h.linked
  · intro k hwaits
    rw [hcnt, (hfetches k).closed]
    exact h.waits k hwaits
  · intro k handle hfd hclosed
    rw [(hfetches k).fd] at hfd
    rw [(hfetches k).closed] at hclosed
    rw [hopen]
    exact h.fd_open k handle hfd hclosed
  · intro j k handle hjk hj hk
    rw [(hfetches j).fd] at hj
    rw [(hfetches k).fd] at hk
    rw [(hfetches j).closed, (hfetches k).closed]
    exact h.fd_apart j k handle hjk hj hk
  · intro k hclosed
    rw [(hfetches k).closed] at hclosed
    exact (h.closed_ended k hclosed).imp (hfetches k).finished (hfetches k).disposed
  · intro k hm
    obtain ⟨hlt, hfin, hclosed⟩ := h.close_waits k hm
    rw [hcnt, (hfetches k).closed]
    exact ⟨hlt, (hfetches k).finished hfin, hclosed⟩

variable {handle : Nat}

theorem BoxInv.openFile (h : BoxInv resource s w) (hhandle : handle ∉ s.openFiles) (k : Nat) :
    BoxInv resource (openFile handle s k) w ∧ (openFile handle s k).content = s.content ∧
      (openFile handle s k).fetchCount = s.fetchCount ∧
      ((openFile handle s k).fetches k).closed = (s.fetches k).closed ∧
      ((openFile handle s k).fetches k).fd.isSome = true := by
  unfold MediaBox.openFile
  split
  case h_1 fd hfd => exact ⟨h, rfl, rfl, rfl, by rw [hfd]; rfl⟩
  case h_2 hfd =>
    generalize hs : { s with stored := some s.content, openFiles := handle :: s.openFiles } = s₁
    have hother : ∀ {j}, j ≠ k → (s₁.updateFetch k ({ · with fd := some handle })).fetches j = s.fetches j := by
      intro j hjk
      rw [updateFetch_of_ne _ hjk, ← hs]
    have hself : (s₁.updateFetch k ({ · with fd := some handle })).fetches k = { s.fetches k with fd := some handle } := by
      rw [updateFetch_self, ← hs]
    have hopen : (s₁.updateFetch k ({ · with fd := some handle })).openFiles = handle :: s.openFiles := by
      rw [← hs]
      rfl
    -- A descriptor that is open is not the new one.
    have hfresh : ∀ j, (s.fetches j).fd = some handle → (s.fetches j).closed = true := by
      intro j hj
      by_contra hclosed
      exact hhandle (h.fd_open j handle hj (Bool.eq_false_of_not_eq_true hclosed))
    refine ⟨h.of_fds (by rw [← hs]; rfl) (by rw [← hs]; rfl) (by rw [← hs]; rfl) (by rw [← hs]; rfl) (fun j => ?_)
      (fun j fd hj hclosed => ?_) (fun i j fd hij hi hj => ?_), by rw [← hs]; rfl, by rw [← hs]; rfl, by rw [hself],
      by rw [hself]; rfl⟩
    · by_cases hjk : j = k
      · rw [hjk, hself]
        exact ⟨rfl, rfl, rfl, rfl⟩
      · rw [hother hjk]
        exact ⟨rfl, rfl, rfl, rfl⟩
    · rw [hopen]
      by_cases hjk : j = k
      · rw [hjk, hself] at hj
        cases hj
        exact mem_cons_self
      · rw [hother hjk] at hj hclosed
        exact mem_cons_of_mem _ (h.fd_open j fd hj hclosed)
    · by_cases hik : i = k
      · have hjk : j ≠ k := fun hjk => hij (hik.trans hjk.symm)
        rw [hik, hself] at hi
        cases hi
        rw [hother hjk] at hj ⊢
        exact .inr (hfresh j hj)
      · rw [hother hik] at hi ⊢
        by_cases hjk : j = k
        · rw [hjk, hself] at hj
          cases hj
          exact .inl (hfresh i hi)
        · rw [hother hjk] at hj ⊢
          exact h.fd_apart i j fd hij hi hj

variable {data : Bytes} {complete : Bool}

theorem BoxInv.append (h : BoxInv resource s (.result k data complete :: w))
    (hcont : s'.content = s.content ++ data) (hlinked : s'.linked = true → s.linked = true ∨ complete = true)
    (hdisp : s'.fetchDisposable = s.fetchDisposable) (hcnt : s'.fetchCount = s.fetchCount)
    (hfetches : s'.fetches = s.fetches) (hopen : s'.openFiles = s.openFiles) : BoxInv resource s' w := by
  have hstor : s.content ++ data ++ pending w <+: resource := by
    rw [append_assoc]
    exact h.stored
  refine ⟨?_, ?_, ?_, ?_, ?_, ?_, ?_, ?_, ?_, ?_, ?_, ?_, ?_⟩
  · rw [hcont]
    exact hstor
  · intro k' hk'
    rw [hfetches, hcont, h.position_last k' (hcnt ▸ hk'), pending_cons, ← append_assoc]
    rfl
  · intro k' hk'
    rw [hfetches, hcont, length_append]
    exact (h.position_le k' (hcnt ▸ hk')).trans (Nat.le_add_right _ _)
  · intro l k' data' r heq
    have hcompl := h.complete (.result k data complete :: l) k' data' r (by rw [heq]; rfl)
    rw [pending_cons, ← append_assoc] at hcompl
    rw [hcont]
    exact hcompl
  · intro hlinked'
    rw [hcont]
    rcases hlinked hlinked' with hlinked' | rfl
    · have hwhole := h.linked hlinked'
      have hlen := hstor.length_le
      rw [hwhole, length_append, length_append] at hlen
      have hnil : data = [] := eq_nil_of_length_eq_zero (by omega)
      rw [hnil, append_nil, hwhole]
    · have hcompl := h.complete [] k data w rfl
      simpa [pending] using hcompl
  · rw [hdisp, hcnt]
    exact h.current
  · intro k' hlive
    unfold isLive at hlive
    rw [hcnt, hfetches] at hlive
    rw [hdisp]
    exact h.live k' hlive
  · intro k' hwaits
    rw [hcnt, hfetches]
    exact h.waits k' (by rw [any_cons, hwaits, Bool.or_true])
  · rw [hfetches, hopen]
    exact h.fd_open
  · rw [hfetches]
    exact h.fd_apart
  · rw [hfetches]
    exact h.closed_ended
  · intro k' hm
    rw [hfetches, hcnt]
    exact h.close_waits k' (mem_cons_of_mem _ hm)
  · intro l k' r heq
    exact h.close_last (.result k data complete :: l) k' r (by rw [heq]; rfl)

theorem BoxInv.runResult (h : BoxInv resource s (.result k data complete :: w)) (hhandle : handle ∉ s.openFiles) :
    BoxInv resource (runResult handle s k data complete) w := by
  obtain ⟨hopened, -, hcnt, hclosed, hfd⟩ := h.openFile hhandle k
  obtain ⟨fd, hfd⟩ := Option.isSome_iff_exists.mp hfd
  unfold MediaBox.runResult
  dsimp only
  generalize MediaBox.openFile handle s k = s₁ at *
  by_cases hdata : data = []
  · subst hdata
    rw [if_neg (not_not.mpr rfl)]
    refine hopened.append (append_nil _).symm (fun hlinked => ?_) rfl rfl rfl rfl
    simp only [or_eq_true, and_eq_true] at hlinked
    exact hlinked.imp_right And.left
  · rw [if_pos hdata]
    -- Its descriptor is open.
    have hwaits := hopened.waits k (by simp [hasDataOf, hdata])
    have hm := hopened.fd_open k fd hfd hwaits.2
    have hwrite : MediaBox.write s₁ k data = { s₁ with stored := some (s₁.content ++ data) } := by
      unfold MediaBox.write
      rw [hfd]
      exact if_pos hm
    rw [hwrite]
    refine hopened.append rfl (fun hlinked => ?_) rfl rfl rfl rfl
    simp only [or_eq_true, and_eq_true] at hlinked
    exact hlinked.imp_right And.left

/-! ### Ends of fetches -/

/-- The fetch ends with the signal or with its disposal; what it has opened is closed, and it has no data that waits. -/
theorem BoxInv.close (h : BoxInv resource s w) (hclosed : (s.fetches k).closed = false)
    (hended : (s.fetches k).finished = true ∨ (s.fetches k).disposed = true) (hclose : .close k ∉ w)
    (hdata : (s.fetches k).fd.isSome = true → w.any (hasDataOf k) = false) : BoxInv resource (runClose s k) w := by
  unfold runClose
  split
  case h_2 => exact h
  case h_1 handle hfd =>
    have hnone := hdata (by rw [hfd]; rfl)
    generalize hs : { s with openFiles := s.openFiles.erase handle } = s₁
    have hother : ∀ {j}, j ≠ k → (s₁.updateFetch k ({ · with closed := true })).fetches j = s.fetches j := by
      intro j hjk
      rw [updateFetch_of_ne _ hjk, ← hs]
    have hself : (s₁.updateFetch k ({ · with closed := true })).fetches k = { s.fetches k with closed := true } := by
      rw [updateFetch_self, ← hs]
    have hcont : (s₁.updateFetch k ({ · with closed := true })).content = s.content := by rw [← hs]; rfl
    have hcnt : (s₁.updateFetch k ({ · with closed := true })).fetchCount = s.fetchCount := by rw [← hs]; rfl
    have hfield : ∀ {α : Type} (g : ResourceFetch → α), (∀ fetch, g { fetch with closed := true } = g fetch) → ∀ j,
        g ((s₁.updateFetch k ({ · with closed := true })).fetches j) = g (s.fetches j) := by
      intro α g hg j
      by_cases hjk : j = k
      · rw [hjk, hself, hg]
      · rw [hother hjk]
    have hpos := hfield ResourceFetch.position fun _ => rfl
    have hfin := hfield ResourceFetch.finished fun _ => rfl
    have hdisposed := hfield ResourceFetch.disposed fun _ => rfl
    have hfds := hfield ResourceFetch.fd fun _ => rfl
    refine ⟨?_, ?_, ?_, ?_, ?_, ?_, ?_, ?_, ?_, ?_, ?_, ?_, h.close_last⟩
    · rw [hcont]
      exact h.stored
    · intro j hj
      rw [hpos, hcont]
      exact h.position_last j (hcnt ▸ hj)
    · intro j hj
      rw [hpos, hcont]
      exact h.position_le j (hcnt ▸ hj)
    · rw [hcont]
      exact h.complete
    · rw [hcont]
      intro hlinked
      exact h.linked (by rw [← hs] at hlinked; exact hlinked)
    · rw [hcnt]
      intro j hj
      exact h.current j (by rw [← hs] at hj; exact hj)
    · intro j hlive
      unfold isLive at hlive
      rw [hcnt, hfin, hdisposed] at hlive
      rw [← hs]
      exact h.live j hlive
    · intro j hwaits
      have hjk : j ≠ k := by
        rintro rfl
        rw [hnone] at hwaits
        cases hwaits
      rw [hcnt, hother hjk]
      exact h.waits j hwaits
    · intro j fd hj hjclosed
      have hjk : j ≠ k := by
        rintro rfl
        rw [hself] at hjclosed
        cases hjclosed
      rw [hother hjk] at hj hjclosed
      have hne : fd ≠ handle := by
        rintro rfl
        rcases h.fd_apart j k fd hjk hj hfd with hj' | hk'
        · exact Bool.false_ne_true (hjclosed.symm.trans hj')
        · exact Bool.false_ne_true (hclosed.symm.trans hk')
      rw [← hs]
      exact (mem_erase_of_ne hne).mpr (h.fd_open j fd hj hjclosed)
    · intro i j fd hij hi hj
      rw [hfds] at hi hj
      by_cases hik : i = k
      · rw [hik, hself]
        exact .inl rfl
      · by_cases hjk : j = k
        · rw [hjk, hself]
          exact .inr rfl
        · rw [hother hik, hother hjk]
          exact h.fd_apart i j fd hij hi hj
    · intro j hj
      rw [hfin, hdisposed]
      by_cases hjk : j = k
      · rw [hjk]
        exact hended
      · rw [hother hjk] at hj
        exact h.closed_ended j hj
    · intro j hm
      have hjk : j ≠ k := by
        rintro rfl
        exact hclose hm
      rw [hcnt, hother hjk]
      exact h.close_waits j hm

theorem BoxInv.tail_close (h : BoxInv resource s (.close k :: w)) : BoxInv resource s w :=
  { h with
    complete := fun l k' data r heq => h.complete (.close k :: l) k' data r (by rw [heq]; rfl)
    close_waits := fun k' hm => h.close_waits k' (mem_cons_of_mem _ hm)
    close_last := fun l k' r heq => h.close_last (.close k :: l) k' r (by rw [heq]; rfl) }

theorem BoxInv.runClose (h : BoxInv resource s (.close k :: w)) : BoxInv resource (runClose s k) w := by
  obtain ⟨-, hfin, hclosed⟩ := h.close_waits k mem_cons_self
  obtain ⟨honce, hdata⟩ := h.close_last [] k w rfl
  exact h.tail_close.close hclosed (.inl hfin) honce fun _ => hdata

theorem BoxInv.disposeFetch (h : BoxInv resource s w)
    (hdata : ∀ k ∈ s.fetchDisposable, s.isLive k = true → (s.fetches k).fd.isSome = true → w.any (hasDataOf k) = false) :
    BoxInv resource (disposeFetch s) w := by
  unfold MediaBox.disposeFetch
  cases hcur : s.fetchDisposable with
  | none => exact h
  | some k =>
    have hlast := h.current k hcur
    have honly : ∀ j, s.isLive j = true → j = k := fun j hlive =>
      Option.some.inj ((h.live j hlive).symm.trans hcur)
    dsimp only
    by_cases hended : (s.fetches k).finished = true ∨ (s.fetches k).disposed = true
    · rw [if_pos hended]
      refine h.of_ends rfl rfl rfl rfl (fun _ => ⟨rfl, rfl, rfl, id, id⟩) (fun j hj => (nomatch hj)) fun j hlive => ?_
      have hlive' : s.isLive j = true := hlive
      rw [honly j hlive'] at hlive'
      unfold isLive at hlive'
      rcases hended with hended | hended <;> simp [hended] at hlive'
    · rw [if_neg hended]
      have hlive : s.isLive k = true := by
        unfold isLive
        simp only [not_or, Bool.not_eq_true] at hended
        rw [hended.1, hended.2, decide_eq_true (by omega)]
        rfl
      have hclosed : (s.fetches k).closed = false := by
        by_contra hclosed
        exact hended (h.closed_ended k (by simpa using hclosed))
      have hclose : .close k ∉ w := fun hm => hended (.inl (h.close_waits k hm).2.1)
      generalize hs : updateFetch { s with fetchDisposable := none } k ({ · with disposed := true }) = s₁
      have hother : ∀ {j}, j ≠ k → s₁.fetches j = s.fetches j := by
        intro j hjk
        rw [← hs, updateFetch_of_ne _ hjk]
      have hself : s₁.fetches k = { s.fetches k with disposed := true } := by
        rw [← hs, updateFetch_self]
      have hcnt : s₁.fetchCount = s.fetchCount := by rw [← hs]; rfl
      have hinv : BoxInv resource s₁ w := by
        refine h.of_ends (by rw [← hs]; rfl) (by rw [← hs]; rfl) hcnt (by rw [← hs]; rfl) (fun j => ?_)
          (fun j hj => ?_) fun j hjlive => ?_
        · by_cases hjk : j = k
          · rw [hjk, hself]
            exact ⟨rfl, rfl, rfl, id, fun _ => rfl⟩
          · rw [hother hjk]
            exact ⟨rfl, rfl, rfl, id, id⟩
        · rw [← hs] at hj
          cases hj
        · exfalso
          unfold isLive at hjlive
          by_cases hjk : j = k
          · rw [hjk, hself] at hjlive
            simp at hjlive
          · rw [hother hjk, hcnt] at hjlive
            exact hjk (honly j hjlive)
      refine hinv.close (by rw [hself]; exact hclosed) (.inr (by rw [hself])) hclose fun hfd => ?_
      rw [hself] at hfd
      exact hdata k hcur hlive hfd

theorem BoxInv.startFetch (h : BoxInv resource s w) (hnone : s.fetchDisposable = none) (hpend : pending w = []) :
    BoxInv resource s.startFetch w := by
  have hother : ∀ {j}, j ≠ s.fetchCount → s.startFetch.fetches j = s.fetches j := fun hj => Function.update_of_ne hj ..
  have hself : s.startFetch.fetches s.fetchCount = ⟨s.content.length, false, false, false, none, false⟩ :=
    Function.update_self ..
  have hcont : s.startFetch.content = s.content := rfl
  have hcnt : s.startFetch.fetchCount = s.fetchCount + 1 := rfl
  refine ⟨h.stored, ?_, ?_, h.complete, h.linked, ?_, ?_, ?_, ?_, ?_, ?_, ?_, h.close_last⟩
  · intro k hk
    have hlast : k = s.fetchCount := Nat.add_right_cancel hk
    rw [hlast, hself, hpend, append_nil]
    rfl
  · intro k hk
    rw [hcnt] at hk
    rw [hother (by omega), hcont]
    rcases Nat.lt_or_ge (k + 1) s.fetchCount with hlt | hge
    · exact h.position_le k hlt
    · have hpos := h.position_last k (by omega)
      rw [hpend, append_nil] at hpos
      exact hpos.le
  · intro k hk
    cases hk
    rfl
  · intro k hlive
    by_cases hk : k = s.fetchCount
    · rw [hk]
      rfl
    · unfold isLive at hlive
      rw [hother hk, hcnt] at hlive
      have hlive' : s.isLive k = true := by
        unfold isLive
        simp only [and_eq_true, decide_eq_true_eq] at hlive ⊢
        exact ⟨⟨by omega, hlive.1.2⟩, hlive.2⟩
      have hcur := h.live k hlive'
      rw [hnone] at hcur
      cases hcur
  · intro k hwaits
    rw [any_hasDataOf_of_pending hpend] at hwaits
    cases hwaits
  · intro k handle hfd hclosed
    by_cases hk : k = s.fetchCount
    · rw [hk, hself] at hfd
      cases hfd
    · rw [hother hk] at hfd hclosed
      exact h.fd_open k handle hfd hclosed
  · intro j k handle hjk hj hk
    by_cases hjlast : j = s.fetchCount
    · rw [hjlast, hself] at hj
      cases hj
    · by_cases hklast : k = s.fetchCount
      · rw [hklast, hself] at hk
        cases hk
      · rw [hother hjlast] at hj ⊢
        rw [hother hklast] at hk ⊢
        exact h.fd_apart j k handle hjk hj hk
  · intro k hclosed
    by_cases hk : k = s.fetchCount
    · rw [hk, hself] at hclosed
      cases hclosed
    · rw [hother hk] at hclosed ⊢
      exact h.closed_ended k hclosed
  · intro k hm
    obtain ⟨hlt, hrest⟩ := h.close_waits k hm
    rw [hother (by omega), hcnt]
    exact ⟨by omega, hrest⟩

/-! ### Blocks that begin to wait -/

theorem split_insert {α : Type} {w₁ w₂ l r : List α} {b x : α} (h : w₁ ++ b :: w₂ = l ++ x :: r) :
    (∃ r', w₁ = l ++ x :: r' ∧ r = r' ++ b :: w₂) ∨ (l = w₁ ∧ x = b ∧ r = w₂) ∨
      ∃ l', w₂ = l' ++ x :: r ∧ l = w₁ ++ b :: l' := by
  rcases append_eq_append_iff.mp h with ⟨a, hl, ha⟩ | ⟨a, hw, ha⟩
  · cases a with
    | nil =>
      obtain ⟨rfl, rfl⟩ := List.cons.inj ha
      exact .inr (.inl ⟨hl.trans (append_nil _), rfl, rfl⟩)
    | cons b' a =>
      obtain ⟨rfl, hw⟩ := List.cons.inj ha
      exact .inr (.inr ⟨a, hw, hl⟩)
  · cases a with
    | nil =>
      obtain ⟨rfl, rfl⟩ := List.cons.inj ha
      exact .inr (.inl ⟨(hw.trans (append_nil _)).symm, rfl, rfl⟩)
    | cons x' a =>
      obtain ⟨rfl, hr⟩ := List.cons.inj ha
      exact .inl ⟨a, hw, hr⟩

theorem BoxInv.insert_result (w₁ w₂ : List QueueBlock) (h : BoxInv resource s (w₁ ++ w₂)) (complete : Bool)
    (hs' : s' = s.updateFetch k fun fetch => { fetch with
      position := fetch.position + data.length, sentComplete := complete })
    (hrunning : (s.fetches k).finished = false)
    (hlast : data ≠ [] → k + 1 = s.fetchCount ∧ (s.fetches k).closed = false) (hnone : data ≠ [] → pending w₂ = [])
    (hstor : s.content ++ pending w₁ ++ data ++ pending w₂ <+: resource)
    (hcompl : complete = true → s.content ++ pending w₁ ++ data = resource) :
    BoxInv resource s' (w₁ ++ .result k data complete :: w₂) := by
  have hpend : pending (w₁ ++ .result k data complete :: w₂) = pending w₁ ++ data ++ pending w₂ := by
    rw [pending_append, pending_cons, append_assoc]
    rfl
  have hother : ∀ {j}, j ≠ k → s'.fetches j = s.fetches j := fun hj => hs' ▸ updateFetch_of_ne s hj _
  have hself : s'.fetches k = { s.fetches k with
      position := (s.fetches k).position + data.length, sentComplete := complete } := hs' ▸ updateFetch_self s k _
  have hfield : ∀ {α : Type} (g : ResourceFetch → α), (∀ fetch n complete, g { fetch with
      position := n, sentComplete := complete } = g fetch) → ∀ j, g (s'.fetches j) = g (s.fetches j) := by
    intro α g hg j
    by_cases hjk : j = k
    · rw [hjk, hself, hg]
    · rw [hother hjk]
  have hfin := hfield ResourceFetch.finished fun _ _ _ => rfl
  have hdisposed := hfield ResourceFetch.disposed fun _ _ _ => rfl
  have hclosed := hfield ResourceFetch.closed fun _ _ _ => rfl
  have hfd := hfield ResourceFetch.fd fun _ _ _ => rfl
  have hcont : s'.content = s.content := by rw [hs']; rfl
  have hcnt : s'.fetchCount = s.fetchCount := by rw [hs']; rfl
  have hlen : ∀ j, j + 1 = s.fetchCount →
      (s.content ++ pending (w₁ ++ w₂)).length = (s.fetches j).position := fun j hj => (h.position_last j hj).symm
  rw [pending_append] at hlen
  refine ⟨?_, ?_, ?_, ?_, ?_, ?_, ?_, ?_, ?_, ?_, ?_, ?_, ?_⟩
  · rw [hcont, hpend, ← append_assoc, ← append_assoc]
    exact hstor
  · intro j hj
    rw [hcnt] at hj
    have hj' := hlen j hj
    rw [hcont, hpend]
    simp only [length_append] at hj' ⊢
    by_cases hjk : j = k
    · rw [hjk] at hj'
      rw [hjk, hself]
      simp only
      omega
    · have hnil : data = [] := by
        by_contra hdata
        have hk := (hlast hdata).1
        omega
      rw [hother hjk, hnil, length_nil]
      omega
  · intro j hj
    rw [hcnt] at hj
    rw [hcont]
    by_cases hjk : j = k
    · have hnil : data = [] := by
        by_contra hdata
        have hk := (hlast hdata).1
        omega
      rw [hjk, hself, hnil]
      exact h.position_le k (hjk ▸ hj)
    · rw [hother hjk]
      exact h.position_le j hj
  · intro l k' data' r heq
    rw [hcont]
    rcases split_insert heq with ⟨r', hw, -⟩ | ⟨rfl, hx, -⟩ | ⟨l', hw, rfl⟩
    · exact h.complete l k' data' (r' ++ w₂) (by rw [hw, append_assoc]; rfl)
    · cases hx
      exact hcompl rfl
    · have hold := h.complete (w₁ ++ l') k' data' r (by rw [hw, append_assoc])
      rw [pending_append] at hold ⊢
      rw [pending_cons]
      by_cases hdata : data = []
      · subst hdata
        exact hold
      · -- All of the resource was there before these data.
        exfalso
        have hw₂ := hnone hdata
        rw [hw, pending_append, pending_cons] at hw₂
        simp only [append_eq_nil_iff, QueueBlock.data] at hw₂
        rw [hw₂.1, hw₂.2.1, append_nil, append_nil] at hold
        have hle := hstor.length_le
        rw [hold] at hle
        simp only [length_append] at hle
        exact hdata (eq_nil_of_length_eq_zero (by omega))
  · rw [hcont]
    intro hlinked
    exact h.linked (by rw [hs'] at hlinked; exact hlinked)
  · intro j hj
    rw [hcnt]
    exact h.current j (by rw [hs'] at hj; exact hj)
  · intro j hlive
    unfold isLive at hlive
    rw [hcnt, hfin, hdisposed] at hlive
    rw [hs']
    exact h.live j hlive
  · intro j hwaits
    rw [hcnt, hclosed]
    rw [any_append, any_cons, or_eq_true, or_eq_true] at hwaits
    rcases hwaits with hwaits | hwaits | hwaits
    · exact h.waits j (by rw [any_append, hwaits, Bool.true_or])
    · simp only [hasDataOf, and_eq_true, decide_eq_true_eq] at hwaits
      obtain ⟨rfl, hdata⟩ := hwaits
      exact hlast hdata
    · exact h.waits j (by rw [any_append, hwaits, Bool.or_true])
  · intro j handle hj hjclosed
    rw [hfd] at hj
    rw [hclosed] at hjclosed
    have hm := h.fd_open j handle hj hjclosed
    rw [hs']
    exact hm
  · intro i j handle hij hi hj
    rw [hfd] at hi hj
    rw [hclosed, hclosed]
    exact h.fd_apart i j handle hij hi hj
  · intro j
    rw [hclosed, hfin, hdisposed]
    exact h.closed_ended j
  · intro j hm
    rw [hcnt, hfin, hclosed]
    exact h.close_waits j (by simpa using hm)
  · intro l j r heq
    have hne : .close j ∈ w₁ ++ w₂ → j ≠ k := by
      rintro hm rfl
      exact Bool.false_ne_true (hrunning.symm.trans (h.close_waits j hm).2.1)
    rcases split_insert heq with ⟨r', hw, rfl⟩ | ⟨-, hx, -⟩ | ⟨l', hw, -⟩
    · obtain ⟨honce, hdata⟩ := h.close_last l j (r' ++ w₂) (by rw [hw, append_assoc]; rfl)
      have hjk := hne (by rw [hw]; simp)
      refine ⟨by simpa using honce, ?_⟩
      simp only [any_append, or_eq_false_iff] at hdata
      rw [any_append, any_cons, hdata.1, hdata.2, hasDataOf, decide_eq_false (Ne.symm hjk)]
      rfl
    · cases hx
    · exact h.close_last (w₁ ++ l') j r (by rw [hw, append_assoc])

theorem BoxInv.insert_close {w₁ w₂ : List QueueBlock} (h : BoxInv resource s (w₁ ++ w₂)) (hlt : k < s.fetchCount)
    (hlive : s.isLive k = true) (hdata : w₂.any (hasDataOf k) = false) :
    BoxInv resource (s.updateFetch k ({ · with finished := true })) (w₁ ++ .close k :: w₂) := by
  have hrunning : (s.fetches k).finished = false ∧ (s.fetches k).disposed = false := by
    unfold isLive at hlive
    simp only [and_eq_true, not_eq_true'] at hlive
    exact ⟨hlive.1.2, hlive.2⟩
  have hclosed : (s.fetches k).closed = false := by
    by_contra hclosed
    rcases h.closed_ended k (by simpa using hclosed) with hended | hended
    · exact Bool.false_ne_true (hrunning.1.symm.trans hended)
    · exact Bool.false_ne_true (hrunning.2.symm.trans hended)
  have hclose : .close k ∉ w₁ ++ w₂ := fun hm =>
    Bool.false_ne_true (hrunning.1.symm.trans (h.close_waits k hm).2.1)
  have hother : ∀ {j}, j ≠ k → (s.updateFetch k ({ · with finished := true })).fetches j = s.fetches j :=
    fun hj => updateFetch_of_ne s hj _
  have hself : (s.updateFetch k ({ · with finished := true })).fetches k = { s.fetches k with finished := true } :=
    updateFetch_self s k _
  have hends : BoxInv resource (s.updateFetch k ({ · with finished := true })) (w₁ ++ w₂) := by
    refine h.of_ends rfl rfl rfl rfl (fun j => ?_) h.current fun j hjlive => ?_
    · by_cases hjk : j = k
      · rw [hjk, hself]
        exact ⟨rfl, rfl, rfl, fun _ => rfl, id⟩
      · rw [hother hjk]
        exact ⟨rfl, rfl, rfl, id, id⟩
    · have hjk : j ≠ k := by
        rintro rfl
        unfold isLive at hjlive
        rw [hself] at hjlive
        simp at hjlive
      unfold isLive at hjlive
      rw [hother hjk] at hjlive
      exact h.live j hjlive
  have hpend : ∀ l : List QueueBlock, pending (.close k :: l) = pending l := fun _ => rfl
  have hany : ∀ j, (w₁ ++ .close k :: w₂).any (hasDataOf j) = (w₁ ++ w₂).any (hasDataOf j) := fun j => by
    simp [hasDataOf]
  have hall : pending (w₁ ++ .close k :: w₂) = pending (w₁ ++ w₂) := by
    rw [pending_append, hpend, pending_append]
  refine { hends with stored := ?_, position_last := ?_, complete := ?_, waits := ?_, close_waits := ?_, close_last := ?_ }
  · rw [hall]
    exact hends.stored
  · rw [hall]
    exact hends.position_last
  · intro l k' data r heq
    rcases split_insert heq with ⟨r', hw, -⟩ | ⟨-, hx, -⟩ | ⟨l', hw, rfl⟩
    · exact hends.complete l k' data (r' ++ w₂) (by rw [hw, append_assoc]; rfl)
    · cases hx
    · have hold := hends.complete (w₁ ++ l') k' data r (by rw [hw, append_assoc])
      rw [pending_append] at hold ⊢
      rw [hpend]
      exact hold
  · intro j hwaits
    rw [hany] at hwaits
    exact hends.waits j hwaits
  · intro j hm
    rcases mem_append.mp hm with hm | hm
    · exact hends.close_waits j (mem_append_left _ hm)
    · rcases mem_cons.mp hm with heq | hm
      · cases heq
        rw [hself]
        exact ⟨hlt, rfl, hclosed⟩
      · exact hends.close_waits j (mem_append_right _ hm)
  · intro l j r heq
    rcases split_insert heq with ⟨r', hw, rfl⟩ | ⟨-, hx, rfl⟩ | ⟨l', hw, -⟩
    · obtain ⟨honce, hnone⟩ := hends.close_last l j (r' ++ w₂) (by rw [hw, append_assoc]; rfl)
      have hjk : j ≠ k := by
        rintro rfl
        exact hclose (by rw [hw]; simp)
      refine ⟨?_, ?_⟩
      · simpa [hjk] using honce
      · simpa [hasDataOf] using hnone
    · cases hx
      exact ⟨fun hm => hclose (mem_append_right _ hm), hdata⟩
    · exact hends.close_last (w₁ ++ l') j r (by rw [hw, append_assoc])

/-! ### Blocks and events -/

theorem runClose_queue (s : MediaBox) (k : Nat) : (runClose s k).queue = s.queue := by
  unfold MediaBox.runClose
  split <;> rfl

theorem disposeFetch_queue (s : MediaBox) : (disposeFetch s).queue = s.queue := by
  unfold MediaBox.disposeFetch
  split
  · rfl
  · dsimp only
    split
    · rfl
    · exact runClose_queue _ _

theorem runResult_queue (handle : Nat) (s : MediaBox) (k : Nat) (data : Bytes) (complete : Bool) :
    (runResult handle s k data complete).queue = s.queue := by
  have hopen : (MediaBox.openFile handle s k).queue = s.queue := by
    unfold MediaBox.openFile
    split <;> rfl
  have hwrite : ∀ s : MediaBox, (MediaBox.write s k data).queue = s.queue := by
    intro s
    unfold MediaBox.write
    split
    · split <;> rfl
    · rfl
  unfold MediaBox.runResult
  dsimp only
  split
  · exact (hwrite _).trans hopen
  · exact hopen

theorem BoxInv.register (h : BoxInv resource s (work s.queue)) (i : Nat) :
    BoxInv resource (register s i) (work (register s i).queue) := by
  have hends : ∀ (subscriptions : Nat → Subscription) (queue : List QueueBlock),
      BoxInv resource { s with subscriptions := subscriptions, queue := queue } (work s.queue) :=
    fun _ _ => h.of_ends rfl rfl rfl rfl (fun _ => ⟨rfl, rfl, rfl, id, id⟩) h.current h.live
  unfold MediaBox.register
  split
  · exact hends _ _
  · exact hends _ _

theorem BoxInv.runSubscribe (h : BoxInv resource s (work s.queue)) {i : Nat}
    (htimely : s.startsFetch (.subscribe i) = true → pending s.queue = []) :
    BoxInv resource (runSubscribe s i) (work (runSubscribe s i).queue) := by
  have hends : ∀ (subscribers : List Nat) (subscriptions : Nat → Subscription),
      BoxInv resource { s with fetchSubscribers := subscribers, subscriptions := subscriptions } (work s.queue) :=
    fun _ _ => h.of_ends rfl rfl rfl rfl (fun _ => ⟨rfl, rfl, rfl, id, id⟩) h.current h.live
  unfold MediaBox.runSubscribe
  by_cases hcompl : s.isComplete = true
  · rw [if_pos hcompl]
    exact hends s.fetchSubscribers _
  · rw [if_neg hcompl]
    by_cases hnone : s.fetchDisposable.isNone = true
    · rw [if_pos hnone]
      have hpend := htimely (by simp [startsFetch, hnone, Bool.eq_false_of_not_eq_true hcompl])
      rw [← pending_work] at hpend
      have hstart := (hends (i :: s.fetchSubscribers) s.subscriptions).startFetch (Option.isNone_iff_eq_none.mp hnone) hpend
      exact hstart.register i
    · rw [if_neg hnone]
      exact (hends (i :: s.fetchSubscribers) s.subscriptions).register i

theorem BoxInv.runBlock {block : QueueBlock} (h : BoxInv resource s (work (block :: s.queue)))
    (hhandle : handle ∉ s.openFiles) (htimely : s.BlockTimely block) :
    BoxInv resource (runBlock handle s block) (work (runBlock handle s block).queue) := by
  have hdispose : ∀ {subscribers : List Nat}, BoxInv resource s (work s.queue) →
      (∀ k ∈ s.fetchDisposable, s.isLive k = true → (s.fetches k).fd.isSome = true → s.dataWaits k = false) →
      BoxInv resource (MediaBox.disposeFetch { s with fetchSubscribers := subscribers })
        (work (MediaBox.disposeFetch { s with fetchSubscribers := subscribers }).queue) := by
    intro subscribers hinv hdata
    rw [disposeFetch_queue]
    have hends : BoxInv resource { s with fetchSubscribers := subscribers } (work s.queue) :=
      hinv.of_ends rfl rfl rfl rfl (fun _ => ⟨rfl, rfl, rfl, id, id⟩) hinv.current hinv.live
    refine hends.disposeFetch fun k hk hlive hfd => ?_
    rw [any_hasDataOf_work]
    exact hdata k hk hlive hfd
  cases block with
  | subscribe i => exact BoxInv.runSubscribe h htimely.2
  | unsubscribe i =>
    have hinv : BoxInv resource s (work s.queue) := h
    show BoxInv resource (MediaBox.runUnsubscribe s i) (work (MediaBox.runUnsubscribe s i).queue)
    unfold MediaBox.runUnsubscribe
    dsimp only
    by_cases hempty : (s.fetchSubscribers.erase i).isEmpty = true
    · rw [if_pos hempty]
      exact hdispose hinv fun k hk => htimely.1 k (by rw [disposedBy, if_pos hempty]; exact hk)
    · rw [if_neg hempty]
      exact hinv.of_ends rfl rfl rfl rfl (fun _ => ⟨rfl, rfl, rfl, id, id⟩) hinv.current hinv.live
  | cancel => exact hdispose h htimely.1
  | result k data complete =>
    show BoxInv resource (MediaBox.runResult handle s k data complete) (work (MediaBox.runResult handle s k data complete).queue)
    rw [runResult_queue]
    exact BoxInv.runResult h hhandle
  | close k =>
    show BoxInv resource (MediaBox.runClose s k) (work (MediaBox.runClose s k).queue)
    rw [runClose_queue]
    exact BoxInv.runClose h

variable {caller : Caller}

theorem BoxInv.dispatch (h : BoxInv resource s (work s.queue)) (block : QueueBlock) (hblock : isWork block = false)
    (htimely : ∀ handle, caller = .dataQueue handle → handle ∉ s.openFiles ∧ s.BlockTimely block) :
    BoxInv resource (s.dispatch block caller) (work (s.dispatch block caller).queue) := by
  cases caller with
  | elsewhere =>
    have hwork : work (s.queue ++ [block]) = work s.queue := by
      rw [work, filter_append, filter_cons, hblock]
      simp [work]
    show BoxInv resource { s with queue := s.queue ++ [block] } (work (s.queue ++ [block]))
    rw [hwork]
    exact h.of_ends rfl rfl rfl rfl (fun _ => ⟨rfl, rfl, rfl, id, id⟩) h.current h.live
  | dataQueue handle =>
    obtain ⟨hhandle, htimely⟩ := htimely handle rfl
    refine BoxInv.runBlock ?_ hhandle htimely
    have hwork : work (block :: s.queue) = work s.queue := by
      rw [work, filter_cons, hblock]
      rfl
    rw [hwork]
    exact h

theorem blockTimely_result (s : MediaBox) (k : Nat) (data : Bytes) (complete : Bool) :
    s.BlockTimely (.result k data complete) := by
  simp [BlockTimely, disposedBy, startsFetch]

theorem blockTimely_close (s : MediaBox) (k : Nat) : s.BlockTimely (.close k) := by
  simp [BlockTimely, disposedBy, startsFetch]

theorem append_slice_begins {bs : Bytes} (h : bs <+: resource) (n : Nat) : bs ++ slice resource bs.length n <+: resource := by
  obtain ⟨rest, rfl⟩ := h
  unfold slice
  rw [drop_left]
  exact (prefix_append_right_inj bs).mpr (List.take_prefix n rest)

theorem append_piece {bs : Bytes} (h : bs <+: resource) {position n : Nat} (hle : position ≤ bs.length)
    (hpos : slice resource position n ≠ [] → position = bs.length) : bs ++ slice resource position n <+: resource ∧
      (resource.length ≤ position + (slice resource position n).length → bs ++ slice resource position n = resource) := by
  have hbegins : bs ++ slice resource position n <+: resource := by
    by_cases hdata : slice resource position n = []
    · rw [hdata, append_nil]
      exact h
    · rw [hpos hdata]
      exact append_slice_begins h n
  refine ⟨hbegins, fun hlen => hbegins.eq_of_length_le ?_⟩
  rw [length_append]
  omega

theorem any_hasDataOf_of_isResultOf {queue : List QueueBlock} (h : queue.any (isResultOf k) = false) :
    queue.any (hasDataOf k) = false := by
  rw [any_eq_false] at h ⊢
  intro block hm
  have hres := h block hm
  cases block with
  | result k' data complete =>
    simp only [isResultOf, decide_eq_true_eq] at hres
    simp [hasDataOf, hres]
  | _ => simp [hasDataOf]

section
variable (h : BoxInv resource s (work s.queue))
include h

theorem BoxInv.yieldResult {n : Nat} (hhandle : ∀ handle, caller = .dataQueue handle → handle ∉ s.openFiles)
    (htimely : slice resource (s.fetches k).position n ≠ [] → k + 1 = s.fetchCount ∧ (s.fetches k).closed = false) :
    BoxInv resource (yieldResult resource s k n complete caller) (work (yieldResult resource s k n complete caller).queue) := by
  unfold MediaBox.yieldResult
  dsimp only
  split
  case isFalse => exact h
  case isTrue hmay =>
    obtain ⟨hmay, -⟩ := hmay
    unfold mayAct at hmay
    simp only [and_eq_true, decide_eq_true_eq, not_eq_true'] at hmay
    obtain ⟨⟨hlt, hrunning⟩, hcaller⟩ := hmay
    generalize hcompl : (complete && decide (resource.length ≤
      (s.fetches k).position + (slice resource (s.fetches k).position n).length)) = complete'
    have hlen : complete' = true → resource.length ≤
        (s.fetches k).position + (slice resource (s.fetches k).position n).length := by
      intro heq
      rw [← hcompl, and_eq_true, decide_eq_true_eq] at heq
      exact heq.2
    have hlast := h.position_last k
    have hearlier := h.position_le k
    cases caller with
    | elsewhere =>
      have hle : (s.fetches k).position ≤ (s.content ++ pending (work s.queue)).length := by
        rcases Nat.lt_or_ge (k + 1) s.fetchCount with hk | hk
        · rw [length_append]
          exact (hearlier hk).trans (Nat.le_add_right _ _)
        · exact (hlast (by omega)).le
      obtain ⟨hbegins, hwhole⟩ := append_piece h.stored hle fun hdata => hlast (htimely hdata).1
      have hinv : BoxInv resource s (work s.queue ++ []) := by
        rw [append_nil]
        exact h
      have hins := BoxInv.insert_result (work s.queue) [] hinv complete' rfl hrunning htimely (fun _ => rfl)
        (by rw [pending_nil, append_nil]; exact hbegins) fun heq => hwhole (hlen heq)
      show BoxInv resource _ (work (s.queue ++ [_]))
      rw [work_snoc rfl]
      exact hins.of_ends rfl rfl rfl rfl (fun _ => ⟨rfl, rfl, rfl, id, id⟩) hins.current hins.live
    | dataQueue handle =>
      have hnone : s.queue.any (hasDataOf k) = false := any_hasDataOf_of_isResultOf (by simpa using hcaller)
      rw [← any_hasDataOf_work] at hnone
      -- Other fetches have no data that waits either, when this one is the last.
      have hempty : k + 1 = s.fetchCount → pending (work s.queue) = [] := by
        intro hk
        refine pending_eq_nil fun j => ?_
        by_contra hwaits
        have hj := (h.waits j (by simpa using hwaits)).1
        have hjk : j = k := by omega
        rw [hjk, hnone] at hwaits
        exact hwaits rfl
      have hpos : k + 1 = s.fetchCount → (s.fetches k).position = s.content.length := by
        intro hk
        rw [hlast hk, hempty hk, append_nil]
      have hle : (s.fetches k).position ≤ s.content.length := by
        rcases Nat.lt_or_ge (k + 1) s.fetchCount with hk | hk
        · exact hearlier hk
        · exact (hpos (by omega)).le
      obtain ⟨hbegins, hwhole⟩ := append_piece ((prefix_append _ _).trans h.stored) hle
        fun hdata => hpos (htimely hdata).1
      have hstor : s.content ++ pending [] ++ slice resource (s.fetches k).position n ++ pending (work s.queue) <+:
          resource := by
        rw [pending_nil, append_nil]
        by_cases hdata : slice resource (s.fetches k).position n = []
        · rw [hdata, append_nil]
          exact h.stored
        · rw [hempty (htimely hdata).1, append_nil]
          exact hbegins
      have hins := BoxInv.insert_result [] (work s.queue) h complete' rfl hrunning htimely
        (fun hdata => hempty (htimely hdata).1) hstor fun heq => by
          rw [pending_nil, append_nil]
          exact hwhole (hlen heq)
      exact BoxInv.runBlock (s := s.updateFetch k _) hins (hhandle handle rfl) (blockTimely_result _ _ _ _)

theorem BoxInv.finish (hhandle : ∀ handle, caller = .dataQueue handle → handle ∉ s.openFiles)
    (hmay : s.mayAct k caller = true) (hdisposed : (s.fetches k).disposed = false) :
    let s' := (s.updateFetch k ({ · with finished := true })).dispatch (.close k) caller
    BoxInv resource s' (work s'.queue) := by
  unfold mayAct at hmay
  simp only [and_eq_true, decide_eq_true_eq, not_eq_true'] at hmay
  obtain ⟨⟨hlt, hrunning⟩, hcaller⟩ := hmay
  have hlive : s.isLive k = true := by
    unfold isLive
    rw [hrunning, hdisposed, decide_eq_true hlt]
    rfl
  cases caller with
  | elsewhere =>
    have hinv : BoxInv resource s (work s.queue ++ []) := by
      rw [append_nil]
      exact h
    have hins := hinv.insert_close hlt hlive rfl
    show BoxInv resource _ (work (s.queue ++ [.close k]))
    rw [work_snoc rfl]
    exact hins.of_ends rfl rfl rfl rfl (fun _ => ⟨rfl, rfl, rfl, id, id⟩) hins.current hins.live
  | dataQueue handle =>
    have hnone : s.queue.any (hasDataOf k) = false := any_hasDataOf_of_isResultOf (by simpa using hcaller)
    rw [← any_hasDataOf_work] at hnone
    have hinv : BoxInv resource s ([] ++ work s.queue) := h
    exact BoxInv.runBlock (s := s.updateFetch k _) (hinv.insert_close hlt hlive hnone) (hhandle handle rfl)
      (blockTimely_close _ k)

theorem BoxInv.step {event : BoxEvent} (htimely : s.Timely resource event) :
    BoxInv resource (stepBox resource s event) (work (stepBox resource s event).queue) := by
  unfold stepBox
  split
  case isTrue => exact h
  case isFalse hfresh =>
    have hhandle : ∀ handle, event.handle = some handle → handle ∉ s.openFiles := fun handle heq hm =>
      hfresh ⟨handle, heq, hm⟩
    obtain ⟨hblock, hres⟩ := htimely
    have hsubscriptions : ∀ (subscriptions : Nat → Subscription) (count : Nat), BoxInv resource
        { s with subscriptions := subscriptions, subscriptionCount := count } (work s.queue) :=
      fun _ _ => h.of_ends rfl rfl rfl rfl (fun _ => ⟨rfl, rfl, rfl, id, id⟩) h.current h.live
    cases event with
    | subscribe caller =>
      have hnew := hsubscriptions (Function.update s.subscriptions s.subscriptionCount .waiting) (s.subscriptionCount + 1)
      refine hnew.dispatch (.subscribe s.subscriptionCount) rfl fun handle heq => ?_
      subst heq
      exact ⟨hhandle handle rfl, hblock _ rfl⟩
    | dispose i caller =>
      dsimp only
      unfold disposeSubscription
      split
      case h_1 => exact hsubscriptions _ _
      case h_2 hreg =>
        have hnew := hsubscriptions (Function.update s.subscriptions i .ended) s.subscriptionCount
        refine hnew.dispatch (.unsubscribe i) rfl fun handle heq => ?_
        subst heq
        exact ⟨hhandle handle rfl, hblock (.unsubscribe i) (by simp [blockRun, hreg])⟩
      case h_3 => exact h
    | cancel caller =>
      refine h.dispatch .cancel rfl fun handle heq => ?_
      subst heq
      exact ⟨hhandle handle rfl, hblock _ rfl⟩
    | result k n complete caller =>
      refine h.yieldResult (fun handle heq => ?_) hres
      subst heq
      exact hhandle handle rfl
    | finish k caller =>
      dsimp only
      split
      case isFalse => exact h
      case isTrue hmay =>
        refine h.finish (fun handle heq => ?_) hmay.1 (by simpa using hmay.2)
        subst heq
        exact hhandle handle rfl
    | run handle =>
      dsimp only
      split
      case h_2 => exact h
      case h_1 block queue hq =>
        have htimely : s.BlockTimely block := hblock block (by rw [blockRun, hq]; rfl)
        rw [hq] at h
        have hinv : BoxInv resource { s with queue := queue } (work (block :: queue)) :=
          h.of_ends rfl rfl rfl rfl (fun _ => ⟨rfl, rfl, rfl, id, id⟩) h.current h.live
        refine hinv.runBlock (hhandle handle rfl) ⟨fun k hk hlive hfd => ?_, fun hstart => ?_⟩
        · have hwaits := htimely.1 k (by cases block <;> exact hk) hlive hfd
          unfold dataWaits at hwaits ⊢
          rw [hq, any_cons, or_eq_false_iff] at hwaits
          exact hwaits.2
        · have hpend := htimely.2 (by cases block <;> exact hstart)
          rw [hq, pending_cons, append_eq_nil_iff] at hpend
          exact hpend.2

end

end

/-! ## Runs -/

theorem boxInv_init (resource : Bytes) : BoxInv resource MediaBox.init [] where
  stored := nil_prefix
  position_last _ h := absurd h (Nat.succ_ne_zero _)
  position_le _ h := absurd h (Nat.not_lt_zero _)
  complete l _ _ _ h := absurd h (by simp)
  linked h := nomatch h
  current _ h := nomatch h
  live k h := by simp [isLive, MediaBox.init] at h
  waits _ h := nomatch h
  fd_open _ _ h := nomatch h
  fd_apart _ _ _ _ h := nomatch h
  closed_ended _ h := nomatch h
  close_waits _ h := nomatch h
  close_last l _ _ h := absurd h (by simp)

/-- In a run in which no data is late the partial file is a beginning of the resource, whose size is an `int32_t`, one fetch
at a time appends to it, and it is the resource when it is linked to the complete path. -/
theorem mediaBox_stored (resource : Bytes) (_hsize : resource.length < 2 ^ 31) (events : List BoxEvent)
    (htimely : AllSteps (stepBox resource) (MediaBox.Timely resource) MediaBox.init events) :
    AllSteps (stepBox resource) (fun s event => StoredWell resource (stepBox resource s event)) MediaBox.init events := by
  have hstep : ∀ s event, BoxInv resource s (work s.queue) → s.Timely resource event →
      BoxInv resource (stepBox resource s event) (work (stepBox resource s event).queue) := fun s event h => h.step
  exact htimely.of_invariant hstep (fun s event h hevent => (hstep s event h hevent).storedWell) (boxInv_init resource)

/-- A fetch is disposed of after its first piece, and another one fetches the rest. -/
theorem mediaBox_stored_three : AllSteps (stepBox [1, 2, 3])
    (fun s event => StoredWell [1, 2, 3] (stepBox [1, 2, 3] s event)) MediaBox.init
    [.subscribe .elsewhere, .run 5, .result 0 2 false .elsewhere, .run 5, .dispose 0 .elsewhere, .run 6,
      .subscribe .elsewhere, .run 5, .result 1 1 true .elsewhere, .run 5, .finish 1 .elsewhere, .run 6] :=
  mediaBox_stored _ (by decide) _ (by decide +kernel)

/-- A result of the first fetch waits while it is disposed of and the second one starts: its byte is stored twice. -/
theorem mediaBox_stored_twice : ¬AllSteps (stepBox [1, 2])
    (fun s event => StoredWell [1, 2] (stepBox [1, 2] s event)) MediaBox.init
    [.subscribe .elsewhere, .run 5, .dispose 0 .elsewhere, .subscribe .elsewhere, .result 0 1 false .elsewhere, .run 5, .run 5,
      .run 5, .result 1 1 false .elsewhere, .run 6] :=
  fun h => absurd h.2.2.2.2.2.2.2.2.2.1.begins (by decide +kernel)

end TelegramClient.Fetch
