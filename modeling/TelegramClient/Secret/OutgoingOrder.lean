import TelegramClient.Secret.OutgoingQueue
import TelegramClient.Lib.Runs
import Mathlib.Data.List.Pairwise

/-!
# When outgoing messages of a secret chat are not lost

The number `sent_seq_out` stands for all the messages up to it, while the requests are answered in any order.

* `Returned` : every message that was neither completed nor confirmed is read by the next `dequeuePeerOutgoingActions`;
* `OutgoingInv` : what holds along the runs whose steps are in order (`OutgoingInv.step`);
* `outgoing_kept_iff` : `sent_seq_out` never decreases and no message is lost, in exactly these runs.
-/

namespace TelegramClient.Secret
open List
open Int32 (le_refl lt_of_le_of_ne maxValue)

open OutgoingQueue

/-- Every message that was neither completed nor confirmed is still to be sent. -/
def Returned (s : OutgoingQueue) : Prop :=
  ∀ row ∈ s.enqueued, row.actionId ∉ s.completed → row.actionId ∉ s.confirmed → row ∈ s.dequeuePeerOutgoingActions.1

/-- What a step should do to the number and to the messages. -/
def OutgoingKept (s : OutgoingQueue) (event : OutgoingEvent) : Prop :=
  s.currentPeerSentSeqOut ≤ (stepOutgoing s event).currentPeerSentSeqOut ∧ Returned (stepOutgoing s event)

def OutgoingEvent.Sequenced : OutgoingEvent → Prop
  | .enqueue action => 17 ≤ action.layer
  | _ => True

/-- A request for a row is completed only when the stored rows below it are completed and no later one was, and the
numbers do not run out. -/
def CompletedInOrder (s : OutgoingQueue) : OutgoingEvent → Prop
  | .enqueue _ => s.seqOut ≠ some Int32.maxValue
  | .completed index false => ∀ request, s.requests[index]? = some request → request.isResend = false →
      s.currentPeerSentSeqOut ≤ request.seqOut ∧
        ∀ row ∈ s.rows, row.seqOut < request.seqOut → row.actionId ∈ s.completed
  | _ => True

structure OutgoingInv (s : OutgoingQueue) : Prop where
  peerLayer : 17 ≤ s.peerLayer
  layers : ∀ row ∈ s.enqueued, 17 ≤ row.action.layer
  ordered : s.enqueued.Pairwise fun row row' =>
    row.actionId < row'.actionId ∧ row.seqOut.toInt < row'.seqOut.toInt
  ids : ∀ row ∈ s.enqueued, row.actionId < s.nextActionId
  numbers : ∀ row ∈ s.enqueued, 0 ≤ row.seqOut.toInt ∧ ∃ last, s.seqOut = some last ∧ row.seqOut.toInt ≤ last.toInt
  last : ∀ last, s.seqOut = some last → 0 ≤ last.toInt
  sent : ∀ value, s.sentSeqOut = some value → ∃ row ∈ s.enqueued, row.seqOut = value
  rows : ∀ row ∈ s.rows, row ∈ s.enqueued ∧ row.actionId ∉ s.confirmed
  stored : ∀ row ∈ s.enqueued, row ∈ s.rows ∨ row.actionId ∈ s.confirmed
  completed : ∀ id ∈ s.completed, id < s.nextActionId
  confirmed : ∀ id ∈ s.confirmed, id < s.nextActionId
  /-- The rows that the number has passed are completed. -/
  passed : ∀ row ∈ s.rows, row.seqOut ≤ s.currentPeerSentSeqOut → row.actionId ∈ s.completed
  snapshots : ∀ snapshot ∈ s.stageQueue, ∀ row ∈ snapshot.actions, row ∈ s.enqueued
  requests : ∀ request ∈ s.requests, request.isResend = false →
    ∃ row ∈ s.enqueued, request = outgoingRequest request.actor false row

theorem outgoingInv_init {peerLayer : Nat} (h : 17 ≤ peerLayer) : OutgoingInv (initOutgoing peerLayer) where
  peerLayer := h
  layers := by simp [initOutgoing]
  ordered := List.Pairwise.nil
  ids := by simp [initOutgoing]
  numbers := by simp [initOutgoing]
  last := by simp [initOutgoing]
  sent := by simp [initOutgoing]
  rows := by simp [initOutgoing]
  stored := by simp [initOutgoing]
  completed := by simp [initOutgoing]
  confirmed := by simp [initOutgoing]
  passed := by simp [initOutgoing]
  snapshots := by simp [initOutgoing]
  requests := by simp [initOutgoing]

/-! ## Consequences of the invariant -/

section
variable {s : OutgoingQueue}

variable {row : OutgoingRow}

variable {row' : OutgoingRow}

section
variable (h : OutgoingInv s)
include h

theorem OutgoingInv.eq_of_actionId (hrow : row ∈ s.enqueued) (hrow' : row' ∈ s.enqueued)
    (hid : row.actionId = row'.actionId) : row = row' := by
  by_contra hne
  have hsymm : Std.Symm fun row row' : OutgoingRow => row.actionId ≠ row'.actionId := ⟨fun _ _ => Ne.symm⟩
  exact (h.ordered.imp fun hlt => hlt.1.ne).forall hrow hrow' hne hid

theorem OutgoingInv.eq_of_seqOut (hrow : row ∈ s.enqueued) (hrow' : row' ∈ s.enqueued)
    (hseq : row.seqOut = row'.seqOut) : row = row' := by
  by_contra hne
  have hsymm : Std.Symm fun row row' : OutgoingRow => row.seqOut.toInt ≠ row'.seqOut.toInt := ⟨fun _ _ => Ne.symm⟩
  exact (h.ordered.imp fun hlt => hlt.2.ne).forall hrow hrow' hne (congrArg Int32.toInt hseq)

theorem OutgoingInv.dequeue_eq :
    s.dequeuePeerOutgoingActions.1 = s.rows.filter fun row => row.seqOut > s.currentPeerSentSeqOut := by
  unfold dequeuePeerOutgoingActions
  rw [if_neg (not_lt.mpr h.peerLayer)]

/-- In a state of the invariant nothing is lost. -/
theorem OutgoingInv.returned : Returned s := by
  intro row hrow hcompl hconfirmed
  rw [h.dequeue_eq, mem_filter, decide_eq_true_eq]
  rcases h.stored row hrow with hstor | hgone
  · exact ⟨hstor, Int32.not_le.mp fun hle => hcompl (h.passed row hstor hle)⟩
  · exact absurd hgone hconfirmed

theorem OutgoingInv.request {request : OutgoingRequest} (hm : request ∈ s.requests)
    (hresend : request.isResend = false) :
    ∃ row ∈ s.enqueued, row.actionId = request.actionId ∧ row.seqOut = request.seqOut ∧ request.seqOut ≥ 0 ∧
      request.layer ≥ 17 := by
  obtain ⟨row, hrow, heq⟩ := h.requests request hm hresend
  have hlayer := h.layers row hrow
  have hseq : request.seqOut = row.seqOut := by
    rw [heq]
    exact if_pos hlayer
  refine ⟨row, hrow, by rw [heq]; rfl, hseq.symm, ?_, by rw [heq]; exact hlayer⟩
  rw [hseq, ge_iff_le, Int32.le_iff_toInt_le]
  exact (h.numbers row hrow).1

theorem OutgoingInv.sent_le {last : Int32} (hlast : s.seqOut = some last) :
    s.currentPeerSentSeqOut.toInt ≤ last.toInt := by
  unfold currentPeerSentSeqOut
  cases hsent : s.sentSeqOut with
  | none =>
    have h0 := h.last last hlast
    have hneg : (-1 : Int32).toInt = -1 := by decide
    rw [Option.getD_none, hneg]
    omega
  | some value =>
    obtain ⟨row, hrow, hval⟩ := h.sent value hsent
    obtain ⟨-, last', hlast', hle⟩ := h.numbers row hrow
    rw [hlast, Option.some.injEq] at hlast'
    rw [Option.getD_some, ← hval, hlast']
    exact hle

end

/-! ## The steps -/

/-- The rows, the numbers and the ghosts are the same. -/
structure SameRows (s s' : OutgoingQueue) : Prop where
  rows : s'.rows = s.rows
  nextActionId : s'.nextActionId = s.nextActionId
  seqOut : s'.seqOut = s.seqOut
  sentSeqOut : s'.sentSeqOut = s.sentSeqOut
  peerLayer : s'.peerLayer = s.peerLayer
  enqueued : s'.enqueued = s.enqueued
  completed : s'.completed = s.completed
  confirmed : s'.confirmed = s.confirmed

section
variable (h : OutgoingInv s)
include h

theorem OutgoingInv.of_sameRows {s' : OutgoingQueue} (hsame : SameRows s s')
    (hsnaps : ∀ snapshot ∈ s'.stageQueue, ∀ row ∈ snapshot.actions, row ∈ s.enqueued)
    (hreqs : ∀ request ∈ s'.requests, request.isResend = false → ∃ row ∈ s.enqueued, request = outgoingRequest request.actor false row) :
    OutgoingInv s' where
  peerLayer := hsame.peerLayer ▸ h.peerLayer
  layers := hsame.enqueued ▸ h.layers
  ordered := hsame.enqueued ▸ h.ordered
  ids := hsame.nextActionId ▸ hsame.enqueued ▸ h.ids
  numbers := hsame.seqOut ▸ hsame.enqueued ▸ h.numbers
  last := hsame.seqOut ▸ h.last
  sent := hsame.sentSeqOut ▸ hsame.enqueued ▸ h.sent
  rows := hsame.rows ▸ hsame.enqueued ▸ hsame.confirmed ▸ h.rows
  stored := hsame.rows ▸ hsame.enqueued ▸ hsame.confirmed ▸ h.stored
  completed := hsame.nextActionId ▸ hsame.completed ▸ h.completed
  confirmed := hsame.nextActionId ▸ hsame.confirmed ▸ h.confirmed
  passed := by
    unfold currentPeerSentSeqOut
    rw [hsame.rows, hsame.sentSeqOut, hsame.completed]
    exact h.passed
  snapshots := hsame.enqueued ▸ hsnaps
  requests := hsame.enqueued ▸ hreqs

theorem OutgoingInv.poll : OutgoingInv s.poll := by
  refine h.of_sameRows ⟨rfl, rfl, rfl, rfl, rfl, rfl, rfl, rfl⟩ (fun snapshot hm row hrow => ?_) h.requests
  rcases mem_append.mp hm with hm | hm
  · exact h.snapshots snapshot hm row hrow
  · rw [mem_singleton.mp hm] at hrow
    exact (h.rows row (mem_filter.mp hrow).1).1

theorem OutgoingInv.sendRequests {snapshot : OutgoingSnapshot} (hsnap : ∀ row ∈ snapshot.actions, row ∈ s.enqueued) :
    OutgoingInv (s.sendRequests snapshot) := by
  refine h.of_sameRows ⟨rfl, rfl, rfl, rfl, rfl, rfl, rfl, rfl⟩ h.snapshots fun request hm hresend => ?_
  rcases mem_append.mp hm with hm | hm
  · exact h.requests request hm hresend
  · rcases mem_append.mp hm with hm | hm
    · obtain ⟨row, hrow, rfl⟩ := mem_map.mp hm
      exact ⟨row, hsnap row (mem_filter.mp hrow).1, rfl⟩
    · obtain ⟨row, -, rfl⟩ := mem_map.mp hm
      exact nomatch hresend

theorem OutgoingInv.lt_next (hmax : s.seqOut ≠ some maxValue) : s.currentPeerSentSeqOut.toInt < s.peerNextSeqOut.toInt ∧
      ∀ row ∈ s.enqueued, row.seqOut.toInt < s.peerNextSeqOut.toInt := by
  cases hseq : s.seqOut with
  | none =>
    have hempty : ∀ row, row ∉ s.enqueued := by
      intro row hrow
      obtain ⟨-, last, hlast, -⟩ := h.numbers row hrow
      exact Option.some_ne_none last (hlast.symm.trans hseq)
    have hsent : s.sentSeqOut = none := by
      refine Option.eq_none_iff_forall_not_mem.mpr fun value hval => ?_
      obtain ⟨row, hrow, -⟩ := h.sent value hval
      exact hempty row hrow
    refine ⟨?_, fun row hrow => absurd hrow (hempty row)⟩
    rw [currentPeerSentSeqOut, peerNextSeqOut, hseq, hsent]
    decide
  | some last =>
    have hlt : last < maxValue :=
      lt_of_le_of_ne (Int32.le_maxValue last) fun heq => hmax (heq ▸ hseq)
    have hnext : s.peerNextSeqOut.toInt = last.toInt + 1 := by
      rw [peerNextSeqOut, hseq]
      exact toInt_add_one hlt
    have hsent := h.sent_le hseq
    refine ⟨by omega, fun row hrow => ?_⟩
    obtain ⟨-, last', hlast', hle⟩ := h.numbers row hrow
    rw [hseq, Option.some.injEq] at hlast'
    subst hlast'
    omega

theorem OutgoingInv.next_nonneg (hmax : s.seqOut ≠ some maxValue) : 0 ≤ s.peerNextSeqOut.toInt := by
  have hsent := (h.lt_next hmax).1
  cases hseq : s.seqOut with
  | none => rw [peerNextSeqOut, hseq]; decide
  | some last =>
    have hlast := h.last last hseq
    have hlt : last < maxValue :=
      lt_of_le_of_ne (Int32.le_maxValue last) fun heq => hmax (heq ▸ hseq)
    rw [peerNextSeqOut, hseq, toInt_add_one hlt]
    omega

end

variable {action : SecretAction}

theorem enqueue_eq (hlayer : 17 ≤ action.layer) : s.enqueuePeerOutgoingAction action = { s with
      rows := s.rows ++ [⟨s.nextActionId, action, s.seqIn.getD 0, s.peerNextSeqOut⟩]
      nextActionId := s.nextActionId + 1
      seqOut := some s.peerNextSeqOut
      enqueued := s.enqueued ++ [⟨s.nextActionId, action, s.seqIn.getD 0, s.peerNextSeqOut⟩] } := by
  simp only [enqueuePeerOutgoingAction, if_pos hlayer]

theorem OutgoingInv.enqueue (h : OutgoingInv s) (hlayer : 17 ≤ action.layer) (hmax : s.seqOut ≠ some maxValue) :
    OutgoingInv (s.enqueuePeerOutgoingAction action) := by
  obtain ⟨hsent, hrows⟩ := h.lt_next hmax
  have hnonneg := h.next_nonneg hmax
  have hfresh : s.nextActionId ∉ s.confirmed := fun hm => (h.confirmed _ hm).false
  rw [enqueue_eq hlayer]
  constructor
  case peerLayer => exact h.peerLayer
  case layers => exact forall_mem_append.mpr ⟨h.layers, by simpa using hlayer⟩
  case ordered =>
    refine pairwise_append.mpr ⟨h.ordered, pairwise_singleton _ _, fun row hrow row' hrow' => ?_⟩
    rw [mem_singleton.mp hrow']
    exact ⟨h.ids row hrow, hrows row hrow⟩
  case ids =>
    refine forall_mem_append.mpr ⟨fun row hrow => (h.ids row hrow).trans (Nat.lt_succ_self _), ?_⟩
    simp
  case numbers =>
    refine forall_mem_append.mpr ⟨fun row hrow => ⟨(h.numbers row hrow).1, _, rfl, (hrows row hrow).le⟩, ?_⟩
    simpa using hnonneg
  case last =>
    intro last hlast
    exact Option.some.inj hlast ▸ hnonneg
  case sent =>
    intro value hval
    obtain ⟨row, hrow, heq⟩ := h.sent value hval
    exact ⟨row, mem_append_left _ hrow, heq⟩
  case rows =>
    refine forall_mem_append.mpr
      ⟨fun row hrow => ⟨mem_append_left _ (h.rows row hrow).1, (h.rows row hrow).2⟩, ?_⟩
    simpa using hfresh
  case stored =>
    refine forall_mem_append.mpr
      ⟨fun row hrow => (h.stored row hrow).imp (mem_append_left _) id, fun row hrow => ?_⟩
    exact .inl (mem_append_right _ hrow)
  case completed => exact fun id hid => (h.completed id hid).trans (Nat.lt_succ_self _)
  case confirmed => exact fun id hid => (h.confirmed id hid).trans (Nat.lt_succ_self _)
  case passed =>
    refine forall_mem_append.mpr ⟨h.passed, fun row hrow hle => ?_⟩
    rw [mem_singleton.mp hrow, Int32.le_iff_toInt_le] at hle
    exact absurd hsent (not_lt.mpr hle)
  case snapshots =>
    exact fun snapshot hm row hrow => mem_append_left _ (h.snapshots snapshot hm row hrow)
  case requests =>
    intro request hm hresend
    obtain ⟨row, hrow, heq⟩ := h.requests request hm hresend
    exact ⟨row, mem_append_left _ hrow, heq⟩

theorem OutgoingInv.confirm (h : OutgoingInv s) (seqOut : Int32) : OutgoingInv (s.confirmPeerSeqOut seqOut) where
  peerLayer := h.peerLayer
  layers := h.layers
  ordered := h.ordered
  ids := h.ids
  numbers := h.numbers
  last := h.last
  sent := h.sent
  rows := by
    intro row hrow
    obtain ⟨hm, habove⟩ := mem_filter.mp hrow
    refine ⟨(h.rows row hm).1, fun hgone => ?_⟩
    rcases mem_append.mp hgone with hgone | hgone
    · exact (h.rows row hm).2 hgone
    · obtain ⟨row', hrow', hid⟩ := mem_map.mp hgone
      obtain ⟨hmem', hbelow⟩ := mem_filter.mp hrow'
      have heq : row' = row := h.eq_of_actionId (h.rows row' hmem').1 (h.rows row hm).1 hid
      exact (of_decide_eq_true habove) (heq ▸ of_decide_eq_true hbelow)
  stored := by
    intro row hrow
    rcases h.stored row hrow with hm | hgone
    · by_cases hle : row.seqOut ≤ seqOut
      · exact .inr (mem_append_right _
          (mem_map.mpr ⟨row, mem_filter.mpr ⟨hm, decide_eq_true hle⟩, rfl⟩))
      · exact .inl (mem_filter.mpr ⟨hm, decide_eq_true hle⟩)
    · exact .inr (mem_append_left _ hgone)
  completed := h.completed
  confirmed := by
    refine forall_mem_append.mpr ⟨h.confirmed, fun id hid => ?_⟩
    obtain ⟨row, hrow, rfl⟩ := mem_map.mp hid
    exact h.ids row (h.rows row (mem_filter.mp hrow).1).1
  passed := fun row hrow => h.passed row (mem_filter.mp hrow).1
  snapshots := h.snapshots
  requests := h.requests

variable {request : OutgoingRequest}

theorem OutgoingInv.complete (h : OutgoingInv s) (hrow : row ∈ s.enqueued) (hid : row.actionId = request.actionId)
    (hseq : row.seqOut = request.seqOut)
    (hbelow : ∀ row ∈ s.rows, row.seqOut < request.seqOut → row.actionId ∈ s.completed) :
    OutgoingInv { s with completed := s.completed ++ [request.actionId], sentSeqOut := some request.seqOut } where
  peerLayer := h.peerLayer
  layers := h.layers
  ordered := h.ordered
  ids := h.ids
  numbers := h.numbers
  last := h.last
  sent := fun value hval => ⟨row, hrow, hseq.trans (Option.some.inj hval)⟩
  rows := h.rows
  stored := h.stored
  completed := by
    refine forall_mem_append.mpr ⟨h.completed, fun id hm => ?_⟩
    rw [mem_singleton.mp hm, ← hid]
    exact h.ids row hrow
  confirmed := h.confirmed
  passed := by
    intro row' hrow' hle
    have hle : row'.seqOut ≤ request.seqOut := hle
    by_cases heq : row'.seqOut = request.seqOut
    · have hrows : row' = row := h.eq_of_seqOut (h.rows row' hrow').1 hrow (heq.trans hseq.symm)
      exact mem_append_right _ (by rw [hrows, hid]; exact mem_singleton_self _)
    · exact mem_append_left _ (hbelow row' hrow' (lt_of_le_of_ne hle heq))
  snapshots := h.snapshots
  requests := h.requests

/-! ## Completions -/

variable {error : Bool}

theorem sameRows_requestCompleted (h : error = true ∨ request.isResend = true) :
    SameRows s (s.requestCompleted request error) := by
  unfold requestCompleted actionCompletedWithId
  split
  · exact ⟨rfl, rfl, rfl, rfl, rfl, rfl, rfl, rfl⟩
  case isFalse herror =>
    rw [if_pos (h.resolve_left herror)]
    exact ⟨rfl, rfl, rfl, rfl, rfl, rfl, rfl, rfl⟩

theorem requests_requestCompleted (request : OutgoingRequest) (error : Bool) :
    (s.requestCompleted request error).requests = s.requests ∧
      (s.requestCompleted request error).stageQueue = s.stageQueue := by
  unfold requestCompleted actionCompletedWithId
  dsimp only
  split_ifs <;> exact ⟨rfl, rfl⟩

theorem OutgoingInv.requestCompleted_other (h : OutgoingInv s) (hother : error = true ∨ request.isResend = true) :
    OutgoingInv (s.requestCompleted request error) := by
  obtain ⟨hreqs, hstage⟩ := requests_requestCompleted (s := s) request error
  refine h.of_sameRows (sameRows_requestCompleted hother) ?_ ?_
  · rw [hstage]
    exact h.snapshots
  · rw [hreqs]
    exact h.requests

theorem requestCompleted_eq (hresend : request.isResend = false) (hseq : request.seqOut ≥ 0)
    (hlayer : request.layer ≥ 17) : s.requestCompleted request false =
      { s with completed := s.completed ++ [request.actionId], sentSeqOut := some request.seqOut } := by
  unfold requestCompleted actionCompletedWithId
  rw [if_neg Bool.false_ne_true, hresend, if_neg Bool.false_ne_true]
  exact if_pos ⟨hseq, hlayer⟩

theorem OutgoingInv.succeeded (h : OutgoingInv s) (hm : request ∈ s.requests) (hother : ¬(error = true ∨
      request.isResend = true)) : error = false ∧ request.isResend = false ∧
      (∃ row ∈ s.enqueued, row.actionId = request.actionId ∧ row.seqOut = request.seqOut) ∧
      ∀ t : OutgoingQueue, t.requestCompleted request error =
        { t with completed := t.completed ++ [request.actionId], sentSeqOut := some request.seqOut } := by
  obtain ⟨herror, hresend⟩ := not_or.mp hother
  rw [Bool.not_eq_true] at herror hresend
  subst herror
  obtain ⟨row, hrow, hid, hseq, hnonneg, hlayer⟩ := h.request hm hresend
  exact ⟨rfl, hresend, ⟨row, hrow, hid, hseq⟩, fun _ => requestCompleted_eq hresend hnonneg hlayer⟩

theorem OutgoingInv.eraseRequest (h : OutgoingInv s) (index : Nat) :
    OutgoingInv { s with requests := s.requests.eraseIdx index } :=
  h.of_sameRows ⟨rfl, rfl, rfl, rfl, rfl, rfl, rfl, rfl⟩ h.snapshots fun request hm =>
    h.requests request (mem_of_mem_eraseIdx hm)

theorem OutgoingInv.requestCompleted (h : OutgoingInv s) {index : Nat}
    (hcond : CompletedInOrder s (.completed index error)) : OutgoingInv (stepOutgoing s (.completed index error)) := by
  cases hreq : s.requests[index]? with
  | none =>
    simp only [stepOutgoing, hreq]
    exact h
  | some request =>
    simp only [stepOutgoing, hreq]
    have herased := h.eraseRequest index
    by_cases hother : error = true ∨ request.isResend = true
    · exact herased.requestCompleted_other hother
    · obtain ⟨rfl, hresend, ⟨row, hrow, hid, hseq⟩, hrun⟩ := h.succeeded (mem_of_getElem? hreq) hother
      rw [hrun]
      exact herased.complete hrow hid hseq (hcond request hreq hresend).2

/-! ## The condition -/

variable {event : OutgoingEvent}

/-- One step in order keeps the invariant. -/
theorem OutgoingInv.step (h : OutgoingInv s) (hsequenced : event.Sequenced) (hcond : CompletedInOrder s event) :
    OutgoingInv (stepOutgoing s event) := by
  cases event with
  | enqueue action => exact h.enqueue hsequenced hcond
  | enqueueResend fromSeq toSeq =>
    exact h.of_sameRows ⟨rfl, rfl, rfl, rfl, rfl, rfl, rfl, rfl⟩ h.snapshots h.requests
  | applyPeerSeqIn seqIn => exact h.of_sameRows ⟨rfl, rfl, rfl, rfl, rfl, rfl, rfl, rfl⟩ h.snapshots h.requests
  | poll => exact h.poll
  | runStage =>
    cases hstage : s.stageQueue with
    | nil =>
      simp only [stepOutgoing, hstage]
      exact h
    | cons snapshot snapshots =>
      simp only [stepOutgoing, hstage]
      have hsnaps := h.snapshots
      rw [hstage] at hsnaps
      have hrest : OutgoingInv { s with stageQueue := snapshots } :=
        h.of_sameRows ⟨rfl, rfl, rfl, rfl, rfl, rfl, rfl, rfl⟩
          (fun other hm => hsnaps other (mem_cons_of_mem snapshot hm)) h.requests
      exact hrest.sendRequests (hsnaps snapshot mem_cons_self)
  | completed index error => exact h.requestCompleted hcond
  | confirm seqOut => exact h.confirm seqOut
  | restart =>
    have hnew : OutgoingInv { s with actor := s.actor + 1 } :=
      h.of_sameRows ⟨rfl, rfl, rfl, rfl, rfl, rfl, rfl, rfl⟩ h.snapshots h.requests
    exact hnew.poll
  | relaunch =>
    have hnew : OutgoingInv { s with actor := s.actor + 1, stageQueue := [], requests := [] } :=
      h.of_sameRows ⟨rfl, rfl, rfl, rfl, rfl, rfl, rfl, rfl⟩ (by simp) (by simp)
    exact hnew.poll

theorem sent_step_le (h : OutgoingInv s) (hcond : CompletedInOrder s event) :
    s.currentPeerSentSeqOut ≤ (stepOutgoing s event).currentPeerSentSeqOut := by
  cases event with
  | completed index error =>
    cases hreq : s.requests[index]? with
    | none => simp only [stepOutgoing, hreq, le_refl]
    | some request =>
      simp only [stepOutgoing, hreq]
      by_cases hother : error = true ∨ request.isResend = true
      · have hsame := sameRows_requestCompleted (s := { s with requests := s.requests.eraseIdx index }) hother
        unfold currentPeerSentSeqOut
        rw [hsame.sentSeqOut]
        exact le_refl _
      · obtain ⟨rfl, hresend, -, hrun⟩ := h.succeeded (mem_of_getElem? hreq) hother
        rw [hrun]
        exact (hcond request hreq hresend).1
  | runStage =>
    cases hstage : s.stageQueue with
    | nil => simp only [stepOutgoing, hstage, le_refl]
    | cons snapshot snapshots =>
      simp only [stepOutgoing, hstage]
      exact le_refl _
  | _ => exact le_refl _

/-- After the last number comes the smallest one, which is never above `sent_seq_out`. -/
theorem not_returned_of_overflow (h : OutgoingInv s) (hlayer : 17 ≤ action.layer)
    (hmax : s.seqOut = some maxValue) : ¬Returned (s.enqueuePeerOutgoingAction action) := by
  intro hreturned
  rw [enqueue_eq hlayer] at hreturned
  have hm := hreturned ⟨s.nextActionId, action, s.seqIn.getD 0, s.peerNextSeqOut⟩
    (mem_append_right _ (mem_singleton_self _)) (fun hm => (h.completed _ hm).false)
    (fun hm => (h.confirmed _ hm).false)
  unfold dequeuePeerOutgoingActions at hm
  rw [if_neg (not_lt.mpr h.peerLayer), mem_filter, decide_eq_true_eq] at hm
  have hmin : s.peerNextSeqOut = Int32.minValue := by
    rw [peerNextSeqOut, hmax]
    decide
  have hgt : _ < s.peerNextSeqOut := hm.2
  rw [hmin] at hgt
  exact Int32.not_lt.mpr (Int32.minValue_le _) hgt

theorem completedInOrder_of_kept (h : OutgoingInv s) (hsequenced : event.Sequenced) (hkept : OutgoingKept s event) :
    CompletedInOrder s event := by
  cases event with
  | enqueue action => exact fun hmax => not_returned_of_overflow h hsequenced hmax hkept.2
  | completed index error =>
    cases error with
    | true => trivial
    | false =>
      intro request hreq hresend
      obtain ⟨row, hrow, hid, hseq, hnonneg, hlayer⟩ := h.request (mem_of_getElem? hreq) hresend
      obtain ⟨hsent, hreturned⟩ := hkept
      have hs' : stepOutgoing s (.completed index false) =
          { s with requests := s.requests.eraseIdx index, completed := s.completed ++ [request.actionId],
                   sentSeqOut := some request.seqOut } := by
        simp only [stepOutgoing, hreq]
        exact requestCompleted_eq hresend hnonneg hlayer
      rw [hs'] at hsent hreturned
      refine ⟨hsent, fun row' hrow' hlt => ?_⟩
      obtain ⟨henqueued, hunconfirmed⟩ := h.rows row' hrow'
      by_contra hwait
      -- it is none of the completed rows, and so it has to be read again
      have hother : row'.actionId ∉ s.completed ++ [request.actionId] := by
        rw [mem_append, mem_singleton, not_or]
        refine ⟨hwait, fun heq => ?_⟩
        rw [h.eq_of_actionId henqueued hrow (heq.trans hid.symm), hseq] at hlt
        exact Int32.lt_irrefl hlt
      have hm := hreturned row' henqueued hother hunconfirmed
      unfold dequeuePeerOutgoingActions at hm
      rw [if_neg (not_lt.mpr h.peerLayer), mem_filter, decide_eq_true_eq] at hm
      exact Int32.lt_asymm hlt hm.2
  | _ => trivial

end

/-- The number never decreases and no message is lost in exactly the runs whose completions are in order. -/
theorem outgoing_kept_iff (peerLayer : Nat) (hpeerLayer : 17 ≤ peerLayer) (events : List OutgoingEvent)
    (hsequenced : ∀ event ∈ events, event.Sequenced) :
    AllSteps stepOutgoing OutgoingKept (initOutgoing peerLayer) events ↔
      AllSteps stepOutgoing CompletedInOrder (initOutgoing peerLayer) events := by
  have hstep : ∀ s event, event.Sequenced → OutgoingInv s → CompletedInOrder s event →
      OutgoingInv (stepOutgoing s event) := fun _ _ hevent hinv hcond => hinv.step hevent hcond
  have hiff : ∀ s event, event.Sequenced → OutgoingInv s → (OutgoingKept s event ↔ CompletedInOrder s event) :=
    fun s event hevent hinv =>
      ⟨completedInOrder_of_kept hinv hevent, fun hcond =>
        ⟨sent_step_le hinv hcond, (hstep s event hevent hinv hcond).returned⟩⟩
  exact allSteps_iff hstep hiff (outgoingInv_init hpeerLayer) (allSteps_of_forall hsequenced _)

/-- Two messages, and the answer to the second one comes first. -/
def overtakenRun : List OutgoingEvent :=
  [.enqueue ⟨73, 5, [1]⟩, .enqueue ⟨73, 5, [2]⟩, .poll, .runStage, .completed 1 false]

/-- The first message is neither completed nor confirmed and is not read again, also after its request has failed; its
success would move the number back. -/
theorem overtaken_message_lost :
    ¬AllSteps stepOutgoing OutgoingKept (initOutgoing 73) overtakenRun ∧
      (runOutgoing 73 overtakenRun).completed = [2] ∧ (runOutgoing 73 overtakenRun).confirmed = [] ∧
      (runOutgoing 73 (overtakenRun ++ [.completed 0 true])).dequeuePeerOutgoingActions.1.map (·.actionId) = [] ∧
      (runOutgoing 73 overtakenRun).currentPeerSentSeqOut = 1 ∧
      (runOutgoing 73 (overtakenRun ++ [.completed 0 false])).currentPeerSentSeqOut = 0 := by
  refine ⟨fun hkept => ?_, by decide, by decide, by decide, by decide, by decide⟩
  obtain ⟨-, -, -, -, ⟨-, hreturned⟩, -⟩ := hkept
  exact not_mem_nil (hreturned ⟨1, ⟨73, 5, [1]⟩, 0, 0⟩ mem_cons_self (by decide) (by decide))

/-- Answers in the order of the messages. -/
theorem answered_in_order :
    AllSteps stepOutgoing OutgoingKept (initOutgoing 73)
      [.enqueue ⟨73, 5, [1]⟩, .enqueue ⟨73, 5, [2]⟩, .poll, .runStage, .completed 0 false, .completed 0 false] :=
  (outgoing_kept_iff 73 (by decide) _ (by simp [OutgoingEvent.Sequenced])).mpr (by
    refine ⟨?_, ?_, trivial, trivial, ?_, ?_, trivial⟩
    · dsimp only [CompletedInOrder]
      decide
    · dsimp only [CompletedInOrder]
      decide
    · intro request hrequest _
      cases Option.some.inj hrequest
      exact ⟨by decide, by decide⟩
    · intro request hrequest _
      cases Option.some.inj hrequest
      exact ⟨by decide, by decide⟩)

end TelegramClient.Secret
