import Mathlib.Data.List.Induction
import TelegramClient.Fetch.MultipartFetch

/-!
# What a download in parts delivers

* `wanted` : the bytes of a range of a file;
* `FetchInv` : what holds between two events;
* **`multipartFetch_delivers`** : a download whose range ends well delivers its bytes, in whatever order the parts are answered.
-/

namespace TelegramClient.Fetch
open List
open SortedTable (mem_erase mem_insert)

open FetchManager

def wanted (file : Bytes) (range : NSRange) : Bytes := slice file range.location range.length

def rangeEnd (file : Bytes) (range : NSRange) : Nat := min (range.location + range.length) file.length

def delivered : List Output → Bytes
  | [] => []
  | .partReady _ part :: outputs => part.data ++ delivered outputs
  | .completed :: outputs => delivered outputs
  | .failed :: outputs => delivered outputs

structure Delivers (file : Bytes) (range : NSRange) (s : FetchManager) : Prop where
  not_crashed : s.crashed = false
  begins : delivered s.outputs <+: wanted file range
  completed_once : s.outputs.count .completed ≤ 1
  complete : ∀ before after, s.outputs = before ++ .completed :: after → delivered before = wanted file range

/-- A last part of this length is requested with a limit of the same length. -/
def EndsAtLimit (length : Nat) : Prop := length % defaultPartSize ∈ [0, 4096, 8192, 16384, 32768, 65536]

/-- The offsets are `int32_t`, the end of the range is an `NSUInteger`. -/
def Addressable (fileLength : Nat) (size : Option Nat) (range : NSRange) : Prop :=
  range.location < 2 ^ 31 ∧ min (range.location + range.length) fileLength < 2 ^ 31 ∧ (∀ n ∈ size, n < 2 ^ 31) ∧
    range.location + range.length < 2 ^ 64

/-- The parts end where the range ends, and the last one is as long as its limit or ends with the file. -/
def EndsWell (fileLength : Nat) (size : Option Nat) (range : NSRange) : Prop :=
  Addressable fileLength size range ∧
    match size with
    | none => fileLength ≤ range.location + range.length ∨ EndsAtLimit range.length
    | some size =>
      let upper := min (range.location + min (range.location + range.length) size) size
      let rangeEnd := min (range.location + range.length) fileLength
      (upper ≤ range.location ∧ rangeEnd ≤ range.location) ∨
        (upper = rangeEnd ∧ (fileLength ≤ upper ∨ EndsAtLimit (upper - range.location)))

instance (length : Nat) : Decidable (EndsAtLimit length) := inferInstanceAs (Decidable (_ ∈ [_, _, _, _, _, _]))

instance (fileLength : Nat) (size : Option Nat) (range : NSRange) : Decidable (Addressable fileLength size range) :=
  inferInstanceAs (Decidable (_ ∧ _ ∧ (∀ n ∈ size, _) ∧ _))

instance (fileLength : Nat) : (size : Option Nat) → (range : NSRange) → Decidable (EndsWell fileLength size range)
  | none, _ => inferInstanceAs (Decidable (_ ∧ (_ ∨ _)))
  | some _, _ => inferInstanceAs (Decidable (_ ∧ ((_ ∧ _) ∨ (_ ∧ (_ ∨ EndsAtLimit _)))))

/-- The data that an answer is for the part at `offset`. -/
def answerData (crypto : FetchCrypto) (offset : Nat) : RequestData → Answer → Option Bytes
  | .location, .file bytes => some bytes
  | .cdn fileData, .cdnFile bytes => some (decryptCdn crypto fileData offset bytes)
  | .cdn _, .file bytes => some bytes
  | _, _ => none

def PartRequest.data : PartRequest → Option RequestData
  | .sent data => some data
  | .waiting => none
  | .failed => none

/-- An answer has the bytes of the file from the offset up to the limit. -/
def Serves (crypto : FetchCrypto) (file : Bytes) (s : FetchManager) : FetchEvent → Prop
  | .answer offset answer => ∀ part ∈ s.fetchingParts.lookup offset, ∀ data ∈ part.request.data,
    ∀ bytes ∈ answerData crypto offset data answer, bytes = slice file offset (updatedLimit part.size)
  | _ => True

instance (crypto : FetchCrypto) (file : Bytes) (s : FetchManager) : (event : FetchEvent) →
    Decidable (Serves crypto file s event)
  | .answer offset _ =>
    inferInstanceAs (Decidable (∀ part ∈ s.fetchingParts.lookup offset, ∀ data ∈ part.request.data, ∀ bytes ∈ _, _))
  | .worker | .reuploaded | .originInfo | .cancel => inferInstanceAs (Decidable True)

/-! ## Limits -/

theorem le_updatedLimitFrom (fuel limit : Nat) : limit ≤ updatedLimitFrom fuel limit := by
  induction fuel generalizing limit with
  | zero => exact le_rfl
  | succ fuel ih =>
    unfold updatedLimitFrom
    split
    · exact (Nat.le_succ limit).trans (ih (limit + 1))
    · exact le_rfl

theorem le_updatedLimit (partSize : Nat) : partSize ≤ updatedLimit partSize := le_updatedLimitFrom _ _

theorem updatedLimit_eq {partSize : Nat} (h : partSize % 4096 = 0 ∧ 1048576 % partSize = 0) :
    updatedLimit partSize = partSize := by
  show updatedLimitFrom (131071 + 1) partSize = partSize
  unfold updatedLimitFrom
  rw [if_neg]
  omega

theorem EndsAtLimit.updatedLimit {length : Nat} (h : EndsAtLimit length) (hne : length % defaultPartSize ≠ 0) :
    updatedLimit (length % defaultPartSize) = length % defaultPartSize := by
  apply updatedLimit_eq
  unfold EndsAtLimit at h
  generalize length % defaultPartSize = n at *
  simp only [mem_cons, not_mem_nil, or_false] at h
  rcases h with rfl | rfl | rfl | rfl | rfl | rfl
  · exact absurd rfl hne
  all_goals decide

/-! ## Bytes -/

variable (bs : Bytes) (offset : Nat)

theorem slice_append_slice (m n : Nat) : slice bs offset m ++ slice bs (offset + m) n = slice bs offset (m + n) := by
  unfold slice
  rw [take_add, drop_drop]

theorem length_slice_eq (n : Nat) : (slice bs offset n).length = min n (bs.length - offset) := by
  simp [slice]

theorem slice_length (n : Nat) : slice bs offset (slice bs offset n).length = slice bs offset n := by
  rw [length_slice_eq]
  unfold slice
  rw [take_eq_take_iff]
  simp

theorem delivered_append (outputs outputs' : List Output) :
    delivered (outputs ++ outputs') = delivered outputs ++ delivered outputs' := by
  induction outputs with
  | nil => rfl
  | cons output outputs ih => cases output <;> simp [delivered, ih]

variable {α : Type}

theorem eq_of_append_singleton {x : α} {l l' after : List α} (h : l ++ [x] = l' ++ x :: after) (hnot : x ∉ l) :
    l = l' := by
  induction after using List.reverseRecOn with
  | nil => exact append_cancel_right h
  | append_singleton after y _ =>
    have heq : l ++ [x] = (l' ++ x :: after) ++ [y] := by rw [h, append_assoc, cons_append]
    have hl := (append_inj' heq rfl).1
    exact absurd (hl ▸ by simp) hnot

variable {file : Bytes} {range : NSRange}

theorem slice_eq_wanted {n : Nat} (hle : n ≤ max range.location (rangeEnd file range)) (hge : rangeEnd file range ≤ n) :
    slice file range.location (n - range.location) = wanted file range := by
  unfold wanted slice
  unfold rangeEnd at hle hge
  rw [take_eq_take_iff, length_drop]
  omega

/-! ## The offset of the next part -/

theorem foldl_max_cases (f : α → Nat) (l : List α) (init : Nat) :
    l.foldl (fun next e => max next (f e)) init = init ∨ ∃ e ∈ l, l.foldl (fun next e => max next (f e)) init = f e := by
  induction l generalizing init with
  | nil => exact .inl rfl
  | cons a l ih =>
    rw [foldl_cons]
    rcases ih (max init (f a)) with h | ⟨e, he, h⟩
    · rcases max_choice init (f a) with hmax | hmax
      · exact .inl (h.trans hmax)
      · exact .inr ⟨a, mem_cons_self, h.trans hmax⟩
    · exact .inr ⟨e, mem_cons_of_mem _ he, h⟩

theorem le_foldl_max (f : α → Nat) (l : List α) (init : Nat) :
    init ≤ l.foldl (fun next e => max next (f e)) init ∧ ∀ e ∈ l, f e ≤ l.foldl (fun next e => max next (f e)) init := by
  induction l generalizing init with
  | nil => exact ⟨le_rfl, fun e he => nomatch he⟩
  | cons a l ih =>
    obtain ⟨hinit, hl⟩ := ih (max init (f a))
    refine ⟨(le_max_left _ _).trans hinit, fun e he => ?_⟩
    rcases mem_cons.mp he with rfl | he
    · exact (le_max_right _ _).trans hinit
    · exact hl e he

section
variable (s : FetchManager)

theorem committedOffset_le_nextOffset : s.committedOffset ≤ s.nextOffset :=
  ((le_foldl_max _ _ _).1).trans (le_foldl_max _ _ _).1

theorem fetching_le_nextOffset {e : Nat × PendingPart} (h : e ∈ s.fetchingParts.entries) :
    e.1 + e.2.size ≤ s.nextOffset :=
  ((le_foldl_max (fun e : Nat × PendingPart => e.1 + e.2.size) _ _).2 e h).trans (le_foldl_max _ _ _).1

theorem fetched_le_nextOffset {e : Nat × FetchedPart} (h : e ∈ s.fetchedParts.entries) :
    e.1 + e.2.data.length ≤ s.nextOffset :=
  (le_foldl_max (fun e : Nat × FetchedPart => e.1 + e.2.data.length) _ _).2 e h

theorem nextOffset_induction {P : Nat → Prop} (hcommitted : P s.committedOffset)
    (hfetching : ∀ e ∈ s.fetchingParts.entries, P (e.1 + e.2.size))
    (hfetched : ∀ e ∈ s.fetchedParts.entries, P (e.1 + e.2.data.length)) : P s.nextOffset := by
  unfold nextOffset
  dsimp only
  rcases foldl_max_cases (fun e : Nat × FetchedPart => e.1 + e.2.data.length) s.fetchedParts.entries
    (s.fetchingParts.entries.foldl (fun next e => max next (e.1 + e.2.size)) s.committedOffset) with h | ⟨e, he, h⟩
  · rcases foldl_max_cases (fun e : Nat × PendingPart => e.1 + e.2.size) s.fetchingParts.entries s.committedOffset
      with h' | ⟨e, he, h'⟩
    · rw [h, h']
      exact hcommitted
    · rw [h, h']
      exact hfetching e he
  · rw [h]
    exact hfetched e he

theorem isComplete_iff : s.isComplete = true ↔ s.upperBound ≤ s.committedOffset := by
  unfold isComplete upperBound
  split <;> simp [or_comm]

end

/-! ## The invariant -/

section
variable (file : Bytes) (range : NSRange) (committedOffset upperBound : Nat)

/-- A part ends here, when the range begins where it does. -/
def EndsPart (n : Nat) : Prop := (n - range.location) % defaultPartSize = 0 ∨ upperBound ≤ n

structure IsPending (offset size : Nat) : Prop where
  committed_le : committedOffset ≤ offset
  lt : offset < upperBound
  size_eq : size = min (upperBound - offset) defaultPartSize
  aligned : (offset - range.location) % defaultPartSize = 0
  le : offset ≤ max range.location file.length

structure IsFetched (offset : Nat) (data : Bytes) : Prop where
  committed_le : committedOffset ≤ offset
  data_eq : data = slice file offset data.length
  end_le : offset + data.length ≤ max range.location (rangeEnd file range)
  ends : EndsPart range upperBound (offset + data.length)

end

section
variable (file : Bytes) (range : NSRange) (s : FetchManager)

structure FetchInv : Prop where
  not_crashed : s.crashed = false
  no_hashes : s.cdnFilePartHashes = none
  location_eq : s.range.location = range.location
  committed_ge : range.location ≤ s.committedOffset
  committed_le : s.committedOffset ≤ max range.location (rangeEnd file range)
  committed_ends : EndsPart range s.upperBound s.committedOffset
  end_le : rangeEnd file range ≤ max range.location s.upperBound
  ends_well : s.upperBound ≤ range.location ∨ file.length ≤ s.upperBound ∨ EndsAtLimit (s.upperBound - range.location)
  bound_le_range : s.upperBound ≤ range.location + range.length
  bound_le : ∀ completeSize, s.completeSize = some completeSize → s.upperBound ≤ max range.location file.length
  pending : ∀ e ∈ s.fetchingParts.entries,
    IsPending file range s.committedOffset s.upperBound e.1 e.2.size
  fetched : ∀ e ∈ s.fetchedParts.entries,
    IsFetched file range s.committedOffset s.upperBound e.1 e.2.data
  single : s.completeSize = none → s.parallelParts = 1 ∧
    ∀ e ∈ s.fetchingParts.entries, ∀ e' ∈ s.fetchingParts.entries, e.1 = e'.1
  /-- Parts do not overlap. -/
  pending_apart : ∀ e ∈ s.fetchingParts.entries, ∀ e' ∈ s.fetchingParts.entries, e.1 < e'.1 → e.1 + e.2.size ≤ e'.1
  fetched_apart : ∀ e ∈ s.fetchedParts.entries, ∀ e' ∈ s.fetchedParts.entries, e.1 < e'.1 → e.1 + e.2.data.length ≤ e'.1
  apart : ∀ e ∈ s.fetchedParts.entries, ∀ e' ∈ s.fetchingParts.entries,
    e.1 + e.2.data.length ≤ e'.1 ∨ e'.1 + e'.2.size ≤ e.1
  delivered_eq : delivered s.outputs = slice file range.location (s.committedOffset - range.location)
  completed : .completed ∈ s.outputs → s.upperBound ≤ s.committedOffset ∧
    ∃ before, s.outputs = before ++ [.completed] ∧ .completed ∉ before

end

section
variable {file : Bytes} {range : NSRange} {s : FetchManager}

section
variable {committedOffset upperBound offset size : Nat} (h : IsPending file range committedOffset upperBound offset size)
include h

theorem IsPending.pos : 0 < size := by
  have hlt := h.lt
  have heq := h.size_eq
  unfold defaultPartSize at heq
  omega

theorem IsPending.end_le : offset + size ≤ upperBound := by
  have hlt := h.lt
  have heq := h.size_eq
  omega

theorem IsPending.ends (hge : range.location ≤ offset) : EndsPart range upperBound (offset + size) := by
  have hlt := h.lt
  have heq := h.size_eq
  have hal := h.aligned
  unfold EndsPart
  unfold defaultPartSize at *
  omega

end

theorem FetchInv.not_completed_of_pending (h : FetchInv file range s) {e : Nat × PendingPart}
    (he : e ∈ s.fetchingParts.entries) : .completed ∉ s.outputs := by
  intro hm
  have hpend := h.pending e he
  exact absurd (h.completed hm).1 (not_le.mpr (hpend.committed_le.trans_lt hpend.lt))

theorem FetchInv.delivers (h : FetchInv file range s) : Delivers file range s := by
  have hbegins : delivered s.outputs <+: wanted file range := by
    rw [h.delivered_eq]
    have hle := h.committed_le
    rcases le_total (rangeEnd file range) s.committedOffset with hge | hlt
    · exact (slice_eq_wanted hle hge) ▸ prefix_rfl
    · unfold wanted slice
      refine take_prefix_take_left ?_
      unfold rangeEnd at hlt
      omega
  have hall : ∀ before, s.outputs = before ++ [.completed] → s.upperBound ≤ s.committedOffset →
      delivered before = wanted file range := by
    intro before heq hbound
    have hdeliv := h.delivered_eq
    rw [heq, delivered_append] at hdeliv
    simp only [delivered, append_nil] at hdeliv
    rw [hdeliv]
    have hend := h.end_le
    have hge := h.committed_ge
    exact slice_eq_wanted h.committed_le (by omega)
  by_cases hm : .completed ∈ s.outputs
  · obtain ⟨hbound, before, heq, hnot⟩ := h.completed hm
    refine ⟨h.not_crashed, hbegins, ?_, fun before' after heq' => ?_⟩
    · rw [heq, count_append, count_eq_zero.mpr hnot]
      simp
    · rw [heq] at heq'
      obtain rfl := eq_of_append_singleton heq' hnot
      exact hall _ heq hbound
  · refine ⟨h.not_crashed, hbegins, ?_, fun before after heq => ?_⟩
    · rw [count_eq_zero.mpr hm]
      exact Nat.zero_le 1
    · exact absurd (heq ▸ by simp) hm

/-! ### The loops of `checkState` -/

section
variable (h : FetchInv file range s)
include h

theorem FetchInv.deliver (hnot : .completed ∉ s.outputs) {part : FetchedPart}
    (hm : (s.committedOffset, part) ∈ s.fetchedParts.entries) : FetchInv file range { s with
      committedOffset := s.committedOffset + part.data.length
      fetchedParts := s.fetchedParts.erase s.committedOffset
      outputs := s.outputs ++ [.partReady s.committedOffset part] } := by
  have hpart := h.fetched _ hm
  have hge := h.committed_ge
  refine { h with
    committed_ge := hge.trans (Nat.le_add_right _ _)
    committed_le := hpart.end_le
    committed_ends := hpart.ends
    pending := fun e he => ?_
    fetched := fun e he => ?_
    fetched_apart := fun e he e' he' => ?_
    apart := fun e he => ?_
    delivered_eq := ?_
    completed := fun hcompl => ?_ }
  · have hpend := h.pending e he
    refine { hpend with committed_le := ?_ }
    have hpos := hpend.pos
    have hle := hpend.committed_le
    have hapart := h.apart _ hm e he
    simp only at hapart ⊢
    omega
  · obtain ⟨he, hne⟩ := mem_erase _ |>.mp he
    have hfetched := h.fetched e he
    refine { hfetched with committed_le := ?_ }
    have hle := hfetched.committed_le
    exact h.fetched_apart _ hm e he (lt_of_le_of_ne hle (Ne.symm hne))
  · exact h.fetched_apart e (mem_erase _ |>.mp he).1 e' (mem_erase _ |>.mp he').1
  · exact h.apart e (mem_erase _ |>.mp he).1
  · rw [delivered_append, h.delivered_eq]
    simp only [delivered, append_nil]
    have hdata : part.data = slice file (range.location + (s.committedOffset - range.location)) part.data.length := by
      rw [Nat.add_sub_cancel' hge]
      exact hpart.data_eq
    calc slice file range.location (s.committedOffset - range.location) ++ part.data
        = slice file range.location (s.committedOffset - range.location) ++
            slice file (range.location + (s.committedOffset - range.location)) part.data.length := by rw [← hdata]
      _ = slice file range.location (s.committedOffset - range.location + part.data.length) := slice_append_slice ..
      _ = slice file range.location (s.committedOffset + part.data.length - range.location) := by
        rw [Nat.sub_add_comm hge]
  · rcases mem_append.mp hcompl with hmem' | hmem'
    · exact absurd hmem' hnot
    · simp at hmem'

/-- The loop over the parts keeps the invariant, and is not left early. -/
theorem FetchInv.deliverParts (crypto : FetchCrypto) (hnot : .completed ∉ s.outputs)
    {parts : List (Nat × FetchedPart)} (hsorted : parts.Pairwise fun e e' => e.1 < e'.1)
    (hparts : ∀ e ∈ parts, e ∈ s.fetchedParts.entries) :
    ∃ s', deliverParts crypto parts s = (true, s') ∧ FetchInv file range s' ∧ .completed ∉ s'.outputs := by
  induction parts generalizing s with
  | nil => exact ⟨s, rfl, h, hnot⟩
  | cons e parts ih =>
    obtain ⟨offset, part⟩ := e
    obtain ⟨hfirst, hrest⟩ := pairwise_cons.mp hsorted
    obtain ⟨hm, hothers⟩ := forall_mem_cons.mp hparts
    unfold FetchManager.deliverParts
    by_cases hturn : offset = s.committedOffset
    · subst hturn
      have hmatch : ∀ data, hashesMatch crypto s.cdnFilePartHashes s.committedOffset data = true := fun data => by
        rw [h.no_hashes]
        rfl
      rw [if_pos rfl, if_pos (hmatch _)]
      apply ih (h.deliver hnot hm) _ hrest
      · intro e he
        exact (mem_erase _).mpr ⟨hothers e he, ne_of_gt (hfirst e he)⟩
      · simp [hnot]
    · rw [if_neg hturn]
      exact ih h hnot hrest hothers

theorem FetchInv.fetchPart (hfree : s.fetchingParts.entries.length < s.parallelParts)
    (hlt : s.nextOffset < s.upperBound) : FetchInv file range s.fetchPart := by
  have hge := h.committed_ge
  have hcommitted := committedOffset_le_nextOffset s
  have hempty : s.completeSize = none → s.fetchingParts.entries = [] := fun hnone => by
    rw [(h.single hnone).1] at hfree
    exact eq_nil_of_length_eq_zero (by omega)
  have hends : EndsPart range s.upperBound s.nextOffset := nextOffset_induction s h.committed_ends
    (fun e he => (h.pending e he).ends (hge.trans (h.pending e he).committed_le)) fun e he => (h.fetched e he).ends
  have hnew : IsPending file range s.committedOffset s.upperBound s.nextOffset s.partSize := by
    refine ⟨hcommitted, hlt, rfl, hends.resolve_right (not_le.mpr hlt), ?_⟩
    cases hsize : s.completeSize with
    | some completeSize => exact hlt.le.trans (h.bound_le _ hsize)
    | none =>
      have hend : rangeEnd file range ≤ file.length := min_le_right _ _
      apply nextOffset_induction s (P := fun n => n ≤ max range.location file.length)
      · exact h.committed_le.trans (max_le_max le_rfl hend)
      · rw [hempty hsize]
        exact fun e he => nomatch he
      · exact fun e he => (h.fetched e he).end_le.trans (max_le_max le_rfl hend)
  refine { h with
    pending := fun e he => ?_
    single := fun hnone => ⟨(h.single hnone).1, fun e he e' he' => ?_⟩
    pending_apart := fun e he e' he' hlt' => ?_
    apart := fun e he e' he' => ?_ }
  · rcases mem_insert _ |>.mp he with rfl | ⟨he, -⟩
    · exact hnew
    · exact h.pending e he
  · have hkey : ∀ e ∈ s.fetchPart.fetchingParts.entries, e.1 = s.nextOffset := by
      intro e he
      rcases mem_insert _ |>.mp he with rfl | ⟨he, -⟩
      · rfl
      · rw [hempty hnone] at he
        cases he
    rw [hkey e he, hkey e' he']
  · rcases mem_insert _ |>.mp he with rfl | ⟨he, -⟩
    · rcases mem_insert _ |>.mp he' with rfl | ⟨he', -⟩
      · exact absurd hlt' (lt_irrefl _)
      · have hle := fetching_le_nextOffset s he'
        simp only at hlt'
        omega
    · rcases mem_insert _ |>.mp he' with rfl | ⟨he', -⟩
      · exact fetching_le_nextOffset s he
      · exact h.pending_apart e he e' he' hlt'
  · rcases mem_insert _ |>.mp he' with rfl | ⟨he', -⟩
    · exact .inl (fetched_le_nextOffset s he)
    · exact h.apart e he e' he'

theorem FetchInv.fetchParts (fuel : Nat) : FetchInv file range (fetchParts fuel s) := by
  induction fuel generalizing s with
  | zero => exact h
  | succ fuel ih =>
    unfold FetchManager.fetchParts
    split
    case isFalse => exact h
    case isTrue hfree =>
      split
      case isFalse => exact h
      case isTrue hlt => exact ih (h.fetchPart hfree hlt)

theorem FetchInv.checkState (crypto : FetchCrypto) (hnot : .completed ∉ s.outputs) :
    FetchInv file range (checkState crypto s) := by
  obtain ⟨s', heq, h', hnot'⟩ := h.deliverParts crypto hnot s.fetchedParts.sorted fun e he => he
  unfold FetchManager.checkState
  rw [heq]
  dsimp only
  by_cases hcompl : s'.isComplete = true
  · rw [if_pos hcompl]
    refine { h' with delivered_eq := ?_, completed := fun _ => ⟨(isComplete_iff s').mp hcompl, _, rfl, hnot'⟩ }
    rw [delivered_append, h'.delivered_eq]
    simp [delivered]
  · rw [if_neg hcompl]
    exact h'.fetchParts _

end

/-! ### Answers -/

section
variable {committedOffset upperBound offset size : Nat} (h : IsPending file range committedOffset upperBound offset size)
  (hge : range.location ≤ offset)
include h hge

theorem IsPending.answer_le (hends : upperBound ≤ range.location ∨ file.length ≤ upperBound ∨
    EndsAtLimit (upperBound - range.location)) : (slice file offset (updatedLimit size)).length ≤ size := by
  have hlt := h.lt
  have hal := h.aligned
  have hsize := h.size_eq
  rw [length_slice_eq]
  rcases le_or_gt defaultPartSize (upperBound - offset) with hfull | hlast
  · rw [min_eq_right hfull] at hsize
    rw [hsize, updatedLimit_eq (by decide)]
    exact min_le_left _ _
  · rw [min_eq_left hlast.le] at hsize
    rcases hends with hends | hends | hends
    · omega
    · omega
    · have hmod : (upperBound - range.location) % defaultPartSize = size := by
        unfold defaultPartSize at *
        omega
      rw [← hmod, hends.updatedLimit (by omega), hmod]
      exact min_le_left _ _

end

variable {offset : Nat} {part : PendingPart}

theorem FetchInv.store (h : FetchInv file range s) (hm : (offset, part) ∈ s.fetchingParts.entries) {data : Bytes}
    (hle : data.length ≤ part.size) (fromCdn : Bool) (completeSize : Option Nat) :
    let s' : FetchManager := storePart { s with completeSize := completeSize } offset data fromCdn
    (completeSize = s.completeSize ∨ (s.fetchingParts.erase offset).entries = []) →
    (completeSize = none → s.completeSize = none) → s'.upperBound ≤ s.upperBound →
    IsFetched file range s.committedOffset s'.upperBound offset data →
    rangeEnd file range ≤ max range.location s'.upperBound →
    (s'.upperBound ≤ range.location ∨ file.length ≤ s'.upperBound ∨ EndsAtLimit (s'.upperBound - range.location)) →
    (∀ size, completeSize = some size → s'.upperBound ≤ max range.location file.length) → FetchInv file range s' := by
  intro s' hsame hnone hbound hnew hend hwell hbound_le
  have hold : ∀ {e}, e ∈ (s.fetchingParts.erase offset).entries → e ∈ s.fetchingParts.entries ∧ e.1 ≠ offset :=
    fun he => (mem_erase _).mp he
  have hmono : ∀ {n}, EndsPart range s.upperBound n → EndsPart range s'.upperBound n :=
    fun hends => hends.imp_right hbound.trans
  refine { h with
    committed_ends := hmono h.committed_ends
    end_le := hend
    ends_well := hwell
    bound_le_range := hbound.trans h.bound_le_range
    bound_le := hbound_le
    pending := fun e he => ?_
    fetched := fun e he => ?_
    single := fun heq => ⟨(h.single (hnone heq)).1, fun e he e' he' =>
      (h.single (hnone heq)).2 e (hold he).1 e' (hold he').1⟩
    pending_apart := fun e he e' he' => h.pending_apart e (hold he).1 e' (hold he').1
    fetched_apart := fun e he e' he' hlt => ?_
    apart := fun e he e' he' => ?_
    completed := fun hcompl => absurd hcompl (h.not_completed_of_pending hm) }
  · rcases hsame with heq | hempty
    · subst heq
      exact h.pending e (hold he).1
    · have hmem' : e ∈ (s.fetchingParts.erase offset).entries := he
      rw [hempty] at hmem'
      cases hmem'
  · rcases mem_insert _ |>.mp he with rfl | ⟨he, -⟩
    · exact hnew
    · exact { h.fetched e he with ends := hmono (h.fetched e he).ends }
  · rcases mem_insert _ |>.mp he with rfl | ⟨he, -⟩
    · rcases mem_insert _ |>.mp he' with rfl | ⟨he', -⟩
      · exact absurd hlt (lt_irrefl _)
      · have hapart := h.apart e' he' _ hm
        simp only at hlt hapart ⊢
        omega
    · rcases mem_insert _ |>.mp he' with rfl | ⟨he', -⟩
      · have hapart := h.apart e he _ hm
        have hpos := (h.pending _ hm).pos
        simp only at hlt hapart hpos ⊢
        omega
      · exact h.fetched_apart e he e' he' hlt
  · obtain ⟨hmem', hne⟩ := hold he'
    rcases mem_insert _ |>.mp he with rfl | ⟨he, -⟩
    · rcases lt_or_gt_of_ne hne with hlt | hgt
      · exact .inr (h.pending_apart e' hmem' _ hm hlt)
      · have hapart := h.pending_apart _ hm e' hmem' hgt
        simp only at hapart ⊢
        omega
    · exact h.apart e he e' hmem'

theorem FetchInv.partAnswer (h : FetchInv file range s) (crypto : FetchCrypto)
    (hm : (offset, part) ∈ s.fetchingParts.entries) (fromCdn : Bool) :
    FetchInv file range (partAnswer crypto s offset part (slice file offset (updatedLimit part.size)) fromCdn) := by
  have hpend := h.pending _ hm
  have hge : range.location ≤ offset := h.committed_ge.trans hpend.committed_le
  have hle := hpend.answer_le hge h.ends_well
  have hlt := hpend.lt
  have hend := hpend.end_le
  have hrange := h.bound_le_range
  have hnot := h.not_completed_of_pending hm
  have hdata := (slice_length file offset (updatedLimit part.size)).symm
  have hlen := length_slice_eq file offset (updatedLimit part.size)
  have hlimit := le_updatedLimit part.size
  have hpos := hpend.pos
  have hoff := hpend.le
  generalize slice file offset (updatedLimit part.size) = data at *
  simp only at hle hlt hend hpos hoff
  -- A whole part ends before the file and the range do.
  have hwhole : data.length = part.size →
      FetchInv file range (FetchManager.checkState crypto (storePart s offset data fromCdn)) := by
    intro heq
    have hfetched : IsFetched file range s.committedOffset s.upperBound offset data := by
      refine ⟨hpend.committed_le, hdata, ?_, ?_⟩
      · unfold rangeEnd
        omega
      · rw [heq]
        exact hpend.ends hge
    have hstore := h.store hm hle fromCdn s.completeSize (.inl rfl) id le_rfl hfetched h.end_le h.ends_well h.bound_le
    exact hstore.checkState crypto hnot
  cases hsize : s.completeSize with
  | some completeSize =>
    have hfile := h.bound_le _ hsize
    have heq : data.length = part.size := by omega
    have hanswer : FetchManager.partAnswer crypto s offset part data fromCdn =
        FetchManager.checkState crypto (storePart s offset data fromCdn) := by
      simp [FetchManager.partAnswer, hsize, heq]
    rw [hanswer]
    exact hwhole heq
  | none =>
    by_cases hshort : data.length < part.size
    · have hanswer : FetchManager.partAnswer crypto s offset part data fromCdn = FetchManager.checkState crypto
            (storePart { s with completeSize := some (offset + data.length) } offset data fromCdn) := by
        simp [FetchManager.partAnswer, hsize, hshort]
      rw [hanswer]
      -- The file ends in this part.
      have hbound : (storePart { s with completeSize := some (offset + data.length) } offset data fromCdn).upperBound =
          min s.upperBound (offset + data.length) := by
        simp [upperBound, storePart, hsize]
      have hempty : (s.fetchingParts.erase offset).entries = [] := by
        refine eq_nil_iff_forall_not_mem.mpr fun e he => ?_
        obtain ⟨he, hne⟩ := (mem_erase _).mp he
        exact hne ((h.single hsize).2 e he _ hm)
      have hendle := h.end_le
      have hwell := h.ends_well
      unfold rangeEnd at hendle
      have hstore := h.store hm hle fromCdn (some (offset + data.length)) (.inr hempty)
        (fun hnone => nomatch hnone)
      rw [hbound] at hstore
      refine (hstore (min_le_left _ _) ⟨hpend.committed_le, hdata, ?_, .inr (min_le_right _ _)⟩ ?_ ?_ ?_).checkState
        crypto hnot
      · unfold rangeEnd
        omega
      · unfold rangeEnd
        omega
      · rcases le_total s.upperBound (offset + data.length) with hmin | hmin
        · rwa [min_eq_left hmin]
        · rw [min_eq_right hmin]
          omega
      · intro _ _
        omega
    · have hanswer : FetchManager.partAnswer crypto s offset part data fromCdn =
          FetchManager.checkState crypto (storePart s offset data fromCdn) := by
        simp [FetchManager.partAnswer, hsize, hshort]
      rw [hanswer]
      exact hwhole (by omega)

/-! ### Other events -/

def parts (s : FetchManager) : FetchManager :=
  { s with
    fetchingParts := .empty
    requestData := none
    nextRequestData := none
    switchedToCdn := false
    reuploadedToCdn := none
    updatedFileReference := false
    suppliedHashes := []
    cancelled := false }

variable {s' : FetchManager}

section
variable (h : FetchInv file range s)
include h

theorem FetchInv.of_parts (hparts : parts s' = parts s)
    (hsizes : ∀ e ∈ s'.fetchingParts.entries, ∃ part, (e.1, part) ∈ s.fetchingParts.entries ∧ part.size = e.2.size) :
    FetchInv file range s' := by
  obtain ⟨_, _, _, _, fetchingParts, _, _, _, _, _, _, _, _, _, _, _⟩ := s'
  obtain ⟨_, _, _, _, fetchingParts', _, _, _, _, _, _, _, _, _, _, _⟩ := s
  simp only [parts, mk.injEq, true_and] at hparts
  obtain ⟨rfl, rfl, rfl, rfl, rfl, rfl, rfl, rfl⟩ := hparts
  refine { h with
    pending := fun e he => ?_
    single := fun hnone => ⟨(h.single hnone).1, fun e he e' he' => ?_⟩
    pending_apart := fun e he e' he' hlt => ?_
    apart := fun e he e' he' => ?_ }
  · obtain ⟨part, hm, hsize⟩ := hsizes e he
    rw [← hsize]
    exact h.pending _ hm
  · obtain ⟨part, hm, -⟩ := hsizes e he
    obtain ⟨part', hmem', -⟩ := hsizes e' he'
    exact (h.single hnone).2 _ hm (e'.1, part') hmem'
  · obtain ⟨part, hm, hsize⟩ := hsizes e he
    obtain ⟨part', hmem', -⟩ := hsizes e' he'
    rw [← hsize]
    exact h.pending_apart _ hm (e'.1, part') hmem' hlt
  · obtain ⟨part, hm, hsize⟩ := hsizes e' he'
    rw [← hsize]
    exact h.apart e he _ hm

theorem FetchInv.of_parts_eq (hparts : parts s' = parts s) (hfetching : s'.fetchingParts = s.fetchingParts) :
    FetchInv file range s' :=
  h.of_parts hparts fun e he => ⟨e.2, hfetching ▸ he, rfl⟩

theorem FetchInv.setRequest (hm : (offset, part) ∈ s.fetchingParts.entries) (request : PartRequest) :
    FetchInv file range (s.setRequest offset part request) := by
  refine h.of_parts rfl fun e he => ?_
  rcases (mem_insert _).mp he with rfl | ⟨he, -⟩
  · exact ⟨part, hm, rfl⟩
  · exact ⟨e.2, he, rfl⟩

theorem FetchInv.workerReady (data : RequestData) : FetchInv file range (s.workerReady data) := by
  refine h.of_parts rfl fun e he => ?_
  obtain ⟨part, hm, heq⟩ := (SortedTable.mem_mapValues _).mp he
  refine ⟨part, hm, ?_⟩
  rw [heq]
  split <;> rfl

theorem FetchInv.switchToCdn (fileData : CdnFileData) : FetchInv file range (s.switchToCdn fileData) := by
  unfold FetchManager.switchToCdn
  split
  · exact h
  · exact h.of_parts_eq rfl rfl

theorem FetchInv.reuploadToCdn (fileData : CdnFileData) : FetchInv file range (s.reuploadToCdn fileData) := by
  unfold FetchManager.reuploadToCdn
  split
  · exact h
  · exact h.of_parts_eq rfl rfl

theorem FetchInv.handleAnswer (crypto : FetchCrypto) (hm : (offset, part) ∈ s.fetchingParts.entries)
    {data : RequestData} {answer : Answer} (hserves : ∀ bytes, answerData crypto offset data answer = some bytes →
      bytes = slice file offset (updatedLimit part.size)) :
    FetchInv file range (handleAnswer crypto s offset part data answer) := by
  have hdata : ∀ bytes fromCdn, answerData crypto offset data answer = some bytes →
      FetchInv file range (FetchManager.partAnswer crypto s offset part bytes fromCdn) := by
    intro bytes fromCdn hbs
    rw [hserves bytes hbs]
    exact h.partAnswer crypto hm fromCdn
  cases data with
  | location =>
    cases answer with
    | file bytes => exact hdata bytes false rfl
    | fileCdnRedirect fileData fileHashes =>
      have hsupplied : FetchInv file range { s.setRequest offset part .waiting with
          suppliedHashes := s.suppliedHashes ++ fileHashes } := (h.setRequest hm .waiting).of_parts_eq rfl rfl
      exact hsupplied.switchToCdn fileData
    | cdnFile bytes | cdnFileReuploadNeeded => exact h
    | fileReferenceError => exact (h.setRequest hm .waiting).of_parts_eq rfl rfl
    | error => exact h.setRequest hm .failed
  | cdn fileData =>
    cases answer with
    | file bytes => exact hdata bytes true rfl
    | fileCdnRedirect fileData' fileHashes => exact (h.setRequest hm .waiting).switchToCdn fileData'
    | cdnFile bytes => exact hdata _ true rfl
    | cdnFileReuploadNeeded => exact (h.setRequest hm .waiting).reuploadToCdn fileData
    | fileReferenceError | error => exact h.setRequest hm .failed

theorem FetchInv.step (crypto : FetchCrypto) {event : FetchEvent} (hserves : Serves crypto file s event) :
    FetchInv file range (stepFetch crypto s event) := by
  unfold stepFetch
  split
  case isTrue => exact h
  cases event with
  | answer offset answer =>
    dsimp only
    split
    case h_2 => exact h
    case h_1 part hpart =>
      split
      case h_2 => exact h
      case h_1 data hdata =>
        exact h.handleAnswer crypto (s.fetchingParts.lookup_eq_some.mp hpart) fun bytes =>
          hserves part hpart data (by rw [hdata]; rfl) bytes
  | worker =>
    dsimp only
    split
    · exact h.workerReady _
    · exact h
  | reuploaded | originInfo =>
    dsimp only
    split
    · exact h.of_parts_eq rfl rfl
    · exact h
  | cancel => exact h.of_parts_eq rfl rfl

end

end

/-! ## Runs -/

theorem fetchInv_init {size : Option Nat} (hwell : EndsWell file.length size range) :
    FetchInv file range (FetchManager.init size range) := by
  have hends := hwell.2
  have hbound : (FetchManager.init size range).upperBound ≤ range.location + range.length ∧
      rangeEnd file range ≤ max range.location (FetchManager.init size range).upperBound ∧
      ((FetchManager.init size range).upperBound ≤ range.location ∨
        file.length ≤ (FetchManager.init size range).upperBound ∨
        EndsAtLimit ((FetchManager.init size range).upperBound - range.location)) ∧
      ((FetchManager.init size range).completeSize.isSome →
        (FetchManager.init size range).upperBound ≤ max range.location file.length) := by
    unfold rangeEnd
    cases size with
    | none =>
      show range.location + range.length ≤ _ ∧ _
      have hupper : (FetchManager.init none range).upperBound = range.location + range.length := rfl
      have hlen : range.location + range.length - range.location = range.length := Nat.add_sub_cancel_left ..
      rw [hupper, hlen]
      exact ⟨le_rfl, by omega, .inr hends, fun hsome => nomatch hsome⟩
    | some size =>
      have hupper : (FetchManager.init (some size) range).upperBound =
          min (range.location + min (range.location + range.length) size) size := rfl
      rw [hupper]
      dsimp only at hends
      rcases hends with ⟨hle, hend⟩ | ⟨heq, hlast⟩
      · exact ⟨by omega, by omega, .inl hle, fun _ => by omega⟩
      · exact ⟨by omega, by omega, .inr hlast, fun _ => by omega⟩
  obtain ⟨hrange, hend, hwell, hfile⟩ := hbound
  have hlocation : (FetchManager.init size range).range.location = range.location := by cases size <;> rfl
  exact {
    not_crashed := rfl
    no_hashes := rfl
    location_eq := hlocation
    committed_ge := le_rfl
    committed_le := le_max_left _ _
    committed_ends := .inl (by simp [FetchManager.init])
    end_le := hend
    ends_well := hwell
    bound_le_range := hrange
    bound_le := fun _ hsome => hfile (by rw [hsome]; rfl)
    pending := fun _ he => nomatch he
    fetched := fun _ he => nomatch he
    single := fun hnone => ⟨by simp only [FetchManager.init] at hnone ⊢; rw [hnone]; rfl, fun _ he => nomatch he⟩
    pending_apart := fun _ he => nomatch he
    fetched_apart := fun _ he => nomatch he
    apart := fun _ he => nomatch he
    delivered_eq := by simp [FetchManager.init, delivered, slice]
    completed := fun hm => nomatch hm }

/-- A download whose range ends well passes on the bytes of its range, each once and in order, and is complete when all of
them have been passed on. -/
theorem multipartFetch_delivers (crypto : FetchCrypto) (file : Bytes) (size : Option Nat) (range : NSRange)
    (hends : EndsWell file.length size range) (events : List FetchEvent)
    (hserves : AllSteps (stepFetch crypto) (Serves crypto file) (start crypto size range) events) :
    Delivers file range (start crypto size range) ∧
      AllSteps (stepFetch crypto) (fun s event => Delivers file range (stepFetch crypto s event))
        (start crypto size range) events := by
  have hstart : FetchInv file range (start crypto size range) := (fetchInv_init hends).checkState crypto (by simp [FetchManager.init])
  have hstep : ∀ s event, FetchInv file range s → Serves crypto file s event →
      FetchInv file range (stepFetch crypto s event) := fun s event h hevent => h.step crypto hevent
  exact ⟨hstart.delivers, hserves.of_invariant hstep (fun s event h hevent => (hstep s event h hevent).delivers) hstart⟩

/-- A range up to the end of a file of six bytes. -/
theorem multipartFetch_delivers_six :
    let crypto : FetchCrypto := ⟨fun _ => [], fun data _ _ => data⟩
    let range : NSRange := ⟨2, 10⟩
    AllSteps (stepFetch crypto) (fun s event => Delivers [1, 2, 3, 4, 5, 6] range (stepFetch crypto s event))
      (start crypto (some 6) range) [.worker, .answer 2 (.file [3, 4, 5, 6])] :=
  (multipartFetch_delivers _ _ _ _ (by decide) _ (by decide +kernel)).2

/-- With a known size the end of a range is taken for its length: the byte after the range is passed on as well. -/
theorem multipartFetch_misdelivers :
    let crypto : FetchCrypto := ⟨fun _ => [], fun data _ _ => data⟩
    let range : NSRange := ⟨2, 1⟩
    let events : List FetchEvent := [.worker, .answer 2 (.file [3, 4])]
    AllSteps (stepFetch crypto) (Serves crypto [1, 2, 3, 4]) (start crypto (some 4) range) events ∧
      ¬AllSteps (stepFetch crypto) (fun s event => Delivers [1, 2, 3, 4] range (stepFetch crypto s event))
        (start crypto (some 4) range) events :=
  ⟨by decide +kernel, fun h => absurd h.2.1.begins (by decide +kernel)⟩

end TelegramClient.Fetch
