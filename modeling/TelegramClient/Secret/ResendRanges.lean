import TelegramClient.Secret.IncomingOrder
import TelegramClient.Lib.Runs

/-!
# Which messages of a secret chat are asked for again

A poll that leaves messages for later asks the peer to send again what lies between the next expected number and the
first message that waits. What it asks for comes from the least number of all the messages that it has read, and whether
it asks, from the count of the rows of one table.

* `Waits` : a message that a poll has to leave, told from the messages that it has read;
* `gapAsked_iff` : the polls of a run ask for what they should exactly if they meet the condition.
-/

namespace TelegramClient.Secret
open List

/-! ## Numbers on the way to the peer -/

theorem seqOut_ge (message : DecryptedMessage) : -2 ^ 30 ≤ message.seqOut := by
  have hge : -2 ^ 31 ≤ message.outSeqNo.toInt := by
    have := BitVec.le_toInt message.outSeqNo
    omega
  have hdiv := Int.tdiv_le_tdiv (show (0 : Int) < 2 by decide) hge
  have hhalf : Int.tdiv (-2 ^ 31) 2 = -2 ^ 30 := by decide
  unfold DecryptedMessage.seqOut
  omega

variable {value : Int}

theorem int32_of_lt (h₀ : -2 ^ 31 ≤ value) (h₁ : value < 2 ^ 31) : int32 value = value := by
  unfold int32
  rw [Int.bmod_eq_of_le] <;> omega

theorem int32_of_below (h₀ : -2 ^ 32 ≤ value) (h₁ : value < -2 ^ 31) : int32 value = value + 2 ^ 32 := by
  have hsame : int32 value = int32 (value + 2 ^ 32) := by
    unfold int32
    rw [Int.bmod_def, Int.bmod_def]
    omega
  rw [hsame, int32_of_lt (by omega) (by omega)]

variable {parity : Int}

theorem tdiv_int32_double (h₀ : 0 ≤ value) (h₁ : value < 2 ^ 30) (hparity : 0 ≤ parity ∧ parity ≤ 1) :
    (int32 (value * 2 + parity)).tdiv 2 = value := by
  rw [int32_of_lt (by omega) (by omega), Int.tdiv_eq_ediv_of_nonneg (by omega)]
  omega

theorem tdiv_int32_negative {number : Int} (h₀ : -2 ^ 30 ≤ value + 1) (h₁ : value < 0)
    (hparity : 0 ≤ parity ∧ parity ≤ 1) (hnum : 0 ≤ number) (hbound : number < 2 ^ 30 - 1)
    (h : (int32 (value * 2 + parity)).tdiv 2 = number) : value = -1 ∧ number = 0 := by
  by_cases hlow : value * 2 + parity < -2 ^ 31
  · -- the number wraps to the greatest ones
    rw [int32_of_below (by omega) hlow, Int.tdiv_eq_ediv_of_nonneg (by omega)] at h
    omega
  · rw [int32_of_lt (by omega) (by omega)] at h
    have hneg : value * 2 + parity = -(-(value * 2 + parity)) := by omega
    rw [hneg, Int.neg_tdiv, Int.tdiv_eq_ediv_of_nonneg (by omega)] at h
    omega

/-! ## What a poll leaves -/

section
variable (parseDecryptedAction : DecryptedMessage → Option ServiceAction)

/-- A message that does not ask for messages itself, with a number between the expected one and its own that no message
has. -/
def Waits (n : Int) (merged : List StoredAction) (action : StoredAction) : Prop :=
  isResendAction parseDecryptedAction action.message = false ∧
    ∃ number, n ≤ number ∧ number < action.message.seqOut ∧ ∀ other ∈ merged, other.message.seqOut ≠ number

/-- What the loop has done with the messages that it has considered, from the number `n` on. -/
structure LoopWaits (n : Int) (considered : List StoredAction) (state : PollState) (waiting : List StoredAction) :
    Prop where
  layer : 17 ≤ state.currentPeerLayer
  lower : n ≤ state.nextExpectedSeqOut
  upper : state.nextExpectedSeqOut ≤ 2 ^ 30
  /-- The numbers below the expected one have all come, and that one has not. -/
  filled : ∀ number, n ≤ number → number < state.nextExpectedSeqOut →
    ∃ action ∈ considered, action.message.seqOut = number
  missing : ∀ action ∈ considered, action.message.seqOut ≠ state.nextExpectedSeqOut
  parts : considered.Perm (state.removed ++ waiting)
  removed : ∀ action ∈ state.removed, action.message.seqOut < state.nextExpectedSeqOut ∨
    isResendAction parseDecryptedAction action.message = true
  waiting : ∀ action ∈ waiting, state.nextExpectedSeqOut < action.message.seqOut ∧
    isResendAction parseDecryptedAction action.message = false
  minLocal_le : ∀ action ∈ considered, state.minLocalSeqOut ≤ action.message.seqOut
  minLocal : state.minLocalSeqOut = INT32_MAX ∨ ∃ action ∈ considered, action.message.seqOut = state.minLocalSeqOut

end

section
variable {parseDecryptedAction : DecryptedMessage → Option ServiceAction} {n : Int} {considered : List StoredAction}
  {state : PollState} {waiting : List StoredAction}

theorem LoopWaits.minLocal_concat (h : LoopWaits parseDecryptedAction n considered state waiting)
    (action : StoredAction) :
    (∀ other ∈ considered ++ [action], min state.minLocalSeqOut action.message.seqOut ≤ other.message.seqOut) ∧
      (min state.minLocalSeqOut action.message.seqOut = INT32_MAX ∨ ∃ other ∈ considered ++ [action],
          other.message.seqOut = min state.minLocalSeqOut action.message.seqOut) := by
  constructor
  · intro other hother
    rcases mem_append.mp hother with hm | hm
    · have := h.minLocal_le other hm
      omega
    · rw [mem_singleton.mp hm]
      omega
  · by_cases hle : state.minLocalSeqOut ≤ action.message.seqOut
    · rw [min_eq_left hle]
      rcases h.minLocal with hmax | ⟨other, hother, heq⟩
      · exact .inl hmax
      · exact .inr ⟨other, mem_append_left _ hother, heq⟩
    · rw [min_eq_right (by omega)]
      exact .inr ⟨action, by simp, rfl⟩

variable {action : StoredAction}

section
variable (h : LoopWaits parseDecryptedAction n considered state waiting)
include h

theorem LoopWaits.parts_removed {removed : List StoredAction} (hrem : removed.Perm (action :: state.removed)) :
    (considered ++ [action]).Perm (removed ++ waiting) :=
  perm_append_comm.trans ((h.parts.cons action).trans (hrem.append_right waiting).symm)

/-- A round of the loop. The messages come in the order of their numbers, so that one in turn finds nobody waiting. -/
theorem LoopWaits.takeInSequence (hn : 0 ≤ n)
    (hsorted : ∀ other ∈ considered, other.message.seqOut ≤ action.message.seqOut) :
    ∃ waiting', LoopWaits parseDecryptedAction n (considered ++ [action])
      (takeInSequence parseDecryptedAction action state) waiting' := by
  obtain ⟨hminLocal_le, hminLocal⟩ := h.minLocal_concat action
  have hlower := h.lower
  have hupper := h.upper
  have hlt := seqOut_lt action.message
  have hconcat {P : StoredAction → Prop} (hold : ∀ other ∈ considered, P other) (hnew : P action) :
      ∀ other ∈ considered ++ [action], P other := by
    intro other hother
    rcases mem_append.mp hother with hm | hm
    · exact hold other hm
    · rw [mem_singleton.mp hm]
      exact hnew
  have hfilled (number : Int) (h₀ : n ≤ number) (h₁ : number < state.nextExpectedSeqOut) :
      ∃ other ∈ considered ++ [action], other.message.seqOut = number := by
    obtain ⟨other, hother, heq⟩ := h.filled number h₀ h₁
    exact ⟨other, mem_append_left _ hother, heq⟩
  unfold Secret.takeInSequence
  dsimp only
  split
  next hnext =>
    have hsucc : int32 (state.nextExpectedSeqOut + 1) = state.nextExpectedSeqOut + 1 :=
      int32_of_le (by omega) (by omega)
    have hnobody : ∀ other ∈ waiting, False := by
      intro other hother
      have hm : other ∈ considered := h.parts.mem_iff.mpr (mem_append_right _ hother)
      have := (h.waiting other hother).1
      have := hsorted other hm
      omega
    have hperm : (state.removedActions ++ (state.actionsToProcess ++ [(action, true)]).map Prod.fst).Perm
        (action :: state.removed) := by
      rw [map_append, ← append_assoc]
      exact perm_append_comm
    refine ⟨waiting, h.layer, ?_, ?_, ?_, ?_, h.parts_removed hperm, ?_, ?_, hminLocal_le, hminLocal⟩
    · show n ≤ int32 (state.nextExpectedSeqOut + 1)
      omega
    · show int32 (state.nextExpectedSeqOut + 1) ≤ 2 ^ 30
      omega
    · intro number h₀ h₁
      change number < int32 (state.nextExpectedSeqOut + 1) at h₁
      by_cases heq : number = state.nextExpectedSeqOut
      · exact ⟨action, by simp, by omega⟩
      · exact hfilled number h₀ (by omega)
    · have hmissing : ∀ other ∈ considered ++ [action], other.message.seqOut ≠ state.nextExpectedSeqOut + 1 := by
        apply hconcat
        · intro other hother
          have := hsorted other hother
          omega
        · omega
      rw [hsucc]
      exact hmissing
    · intro other hother
      show other.message.seqOut < int32 (state.nextExpectedSeqOut + 1) ∨ _
      rcases mem_cons.mp (hperm.mem_iff.mp hother) with rfl | hm
      · exact .inl (by omega)
      · rcases h.removed other hm with hless | hresend
        · exact .inl (by omega)
        · exact .inr hresend
    · exact fun other hother => (hnobody other hother).elim
  next hne =>
    have hmissing := hconcat h.missing hne
    split
    next hless =>
      have hperm : (state.removedActions ++ [action] ++ state.actionsToProcess.map Prod.fst).Perm
          (action :: state.removed) := by
        rw [append_assoc]
        exact perm_middle
      refine ⟨waiting, h.layer, hlower, hupper, hfilled, hmissing, h.parts_removed hperm, ?_, h.waiting, hminLocal_le,
        hminLocal⟩
      intro other hother
      rcases mem_cons.mp (hperm.mem_iff.mp hother) with rfl | hm
      · exact .inl hless
      · exact h.removed other hm
    next hge =>
      split
      next hresend =>
        have hperm : (state.removedActions ++ (state.actionsToProcess ++ [(action, false)]).map Prod.fst).Perm
            (action :: state.removed) := by
          rw [map_append, ← append_assoc]
          exact perm_append_comm
        refine ⟨waiting, h.layer, hlower, hupper, hfilled, hmissing, h.parts_removed hperm, ?_, h.waiting,
          hminLocal_le, hminLocal⟩
        intro other hother
        rcases mem_cons.mp (hperm.mem_iff.mp hother) with rfl | hm
        · exact .inr hresend
        · exact h.removed other hm
      next hresend =>
        refine ⟨waiting ++ [action], h.layer, hlower, hupper, hfilled, hmissing, ?_, h.removed, ?_, hminLocal_le,
          hminLocal⟩
        · rw [← append_assoc]
          exact h.parts.append_right [action]
        · intro other hother
          rcases mem_append.mp hother with hm | hm
          · exact h.waiting other hm
          · rw [mem_singleton.mp hm]
            exact ⟨show state.nextExpectedSeqOut < action.message.seqOut by omega, by simpa using hresend⟩

end

variable {peerLayer : Nat}

/-- **The loop** over messages in the order of their numbers. -/
theorem pollLoop_waits (parseDecryptedAction : DecryptedMessage → Option ServiceAction) (hn : 0 ≤ n)
    (hbound : n ≤ 2 ^ 30) (hlayer : 17 ≤ peerLayer) (merged : List StoredAction)
    (hsorted : merged.Pairwise fun action1 action2 => action1.message.seqOut ≤ action2.message.seqOut) :
    ∃ waiting, LoopWaits parseDecryptedAction n merged (pollLoop parseDecryptedAction n peerLayer merged) waiting := by
  induction merged using List.reverseRecOn with
  | nil =>
    refine ⟨[], hlayer, le_refl _, hbound, ?_, by simp, List.Perm.refl _, ?_, by simp, by simp, .inl rfl⟩
    · intro number h₀ h₁
      change number < n at h₁
      omega
    · intro action hact
      cases hact
  | append_singleton merged action ih =>
    obtain ⟨hfront, -, hlast⟩ := pairwise_append.mp hsorted
    obtain ⟨waiting, h⟩ := ih hfront
    have hstep : pollLoop parseDecryptedAction n peerLayer (merged ++ [action]) =
        takeInSequence parseDecryptedAction action (pollLoop parseDecryptedAction n peerLayer merged) := by
      rw [pollLoop, foldl_append]
      exact if_pos h.layer
    rw [hstep]
    exact h.takeInSequence hn fun other hother => hlast other hother action (by simp)

theorem currentPeerLayer_pollLoop (parseDecryptedAction : DecryptedMessage → Option ServiceAction) (n : Int)
    (hlayer : 17 ≤ peerLayer) (merged : List StoredAction) :
    (pollLoop parseDecryptedAction n peerLayer merged).currentPeerLayer = peerLayer := by
  refine foldlRecOn (motive := fun state : PollState => state.currentPeerLayer = peerLayer) merged _ rfl
    fun state hstate action _ => ?_
  rw [considerAction, if_pos (hstate ▸ hlayer)]
  unfold takeInSequence
  dsimp only
  split
  · exact hstate
  · split
    · exact hstate
    · split <;> exact hstate

section
variable (h : LoopWaits parseDecryptedAction n considered state waiting)
include h

theorem LoopWaits.waits_iff (hact : action ∈ considered) :
    Waits parseDecryptedAction n considered action ↔ action ∈ waiting := by
  constructor
  · rintro ⟨hresend, number, h₀, h₁, hnone⟩
    rcases mem_append.mp (h.parts.mem_iff.mp hact) with hm | hm
    · -- the numbers below a message that is in turn or late have all come
      rcases h.removed action hm with hless | htrue
      · obtain ⟨other, hother, heq⟩ := h.filled number h₀ (by omega)
        exact absurd heq (hnone other hother)
      · rw [hresend] at htrue
        cases htrue
    · exact hm
  · intro hm
    obtain ⟨hless, hresend⟩ := h.waiting action hm
    exact ⟨hresend, state.nextExpectedSeqOut, h.lower, hless, h.missing⟩

theorem LoopWaits.not_removed_iff (hact : action ∈ considered) : action ∉ state.removed ↔ action ∈ waiting := by
  constructor
  · intro hnot
    exact (mem_append.mp (h.parts.mem_iff.mp hact)).resolve_left hnot
  · intro hm hrem
    obtain ⟨hless, hresend⟩ := h.waiting action hm
    rcases h.removed action hrem with hlt | htrue
    · omega
    · rw [hresend] at htrue
      cases htrue

end

end

/-! ## What a poll asks for -/

/-- What a poll should ask for, with the next expected number `n`: if a message above it waits, all from `n` to the one
before the first that waits, as the peer reads the range. -/
def AsksForFirstGap (n : Int) (waiting : List StoredAction) (asked : List (Int × Int)) : Prop :=
  (asked ≠ [] ↔ ∃ action ∈ waiting, n < action.message.seqOut) ∧
    ∀ range ∈ asked, ∃ first ∈ waiting, (∀ action ∈ waiting, first.message.seqOut ≤ action.message.seqOut) ∧
      range.1.tdiv 2 = n ∧ range.2.tdiv 2 = first.message.seqOut - 1

section
variable (parseDecryptedAction : DecryptedMessage → Option ServiceAction) (sort : ActionSort)

/-- `mergedActions`, sorted. -/
def mergedActions (decrypt : EncryptedAction → Option DecryptedMessage) (snapshot : Snapshot) : List StoredAction :=
  sort.sort (snapshot.actions ++ decryptActions decrypt snapshot.encryptedActions)

def polled (decrypt : EncryptedAction → Option DecryptedMessage) (peerLayer : Nat) (snapshot : Snapshot) : PollState :=
  pollLoop parseDecryptedAction snapshot.nextExpectedSeqOut peerLayer (mergedActions sort decrypt snapshot)

def asked (s : IncomingQueue) (event : QueueEvent) : List (Int × Int) :=
  (stepQueue parseDecryptedAction sort s event).resendRequests.drop s.resendRequests.length

/-- A poll of a chat with numbers asks for the first gap. -/
def GapAsked (s : IncomingQueue) : QueueEvent → Prop
  | .runStage decrypt peerLayer isCreator => 17 ≤ peerLayer → ∀ snapshot, s.stageQueue.head? = some snapshot →
      let state := polled parseDecryptedAction sort decrypt peerLayer snapshot
      let waiting := (mergedActions sort decrypt snapshot).filter fun action => action ∉ state.removed
      AsksForFirstGap state.nextExpectedSeqOut waiting
        (asked parseDecryptedAction sort s (.runStage decrypt peerLayer isCreator))
  | _ => True

/-- Nothing waits; or there is a message to ask with, a row of the table of readable messages waits, and no message that was
read has a lesser number than all that wait. -/
def FirstWaits (n : Int) (peerLayer : Nat) (merged : List StoredAction) : Prop :=
  (∀ action ∈ merged, ¬Waits parseDecryptedAction n merged action) ∨
    (min peerLayer currentLayer ∈ resendLayers ∧
      (∃ action ∈ merged, Waits parseDecryptedAction n merged action ∧ action.actionId.type = .generic) ∧
      ∃ action ∈ merged, Waits parseDecryptedAction n merged action ∧
        ∀ other ∈ merged, action.message.seqOut ≤ other.message.seqOut)

/-- What is asked of the messages that a poll has read. -/
def GapFirst (s : IncomingQueue) : QueueEvent → Prop
  | .runStage decrypt peerLayer _ => 17 ≤ peerLayer → ∀ snapshot, s.stageQueue.head? = some snapshot →
      FirstWaits parseDecryptedAction snapshot.nextExpectedSeqOut peerLayer (mergedActions sort decrypt snapshot)
  | _ => True

end

def InRange (number : Int) : Prop := 0 ≤ number ∧ number ≤ 2 ^ 30

/-- What a poll reads: a number of the range, and rows of the table of readable messages. -/
structure Snapshot.Readable (snapshot : Snapshot) : Prop where
  number : InRange snapshot.nextExpectedSeqOut
  generic : ∀ action ∈ snapshot.actions, action.actionId.type = .generic

section
variable {parseDecryptedAction : DecryptedMessage → Option ServiceAction} {sort : ActionSort}

theorem mergedActions_sorted (decrypt : EncryptedAction → Option DecryptedMessage) (snapshot : Snapshot) :
    (mergedActions sort decrypt snapshot).Pairwise fun action1 action2 =>
      action1.message.seqOut ≤ action2.message.seqOut := by
  refine (sort.sorted _).imp fun {action1 action2} hle => ?_
  unfold StoredAction.le at hle
  split at hle
  · exact le_of_lt (of_decide_eq_true hle)
  · next heq => omega

variable {snapshot : Snapshot}

theorem asked_runStage {s : IncomingQueue} (hhead : s.stageQueue.head? = some snapshot)
    (decrypt : EncryptedAction → Option DecryptedMessage) (peerLayer : Nat) (isCreator : Bool) :
    asked parseDecryptedAction sort s (.runStage decrypt peerLayer isCreator) =
      (resendRequest isCreator snapshot (polled parseDecryptedAction sort decrypt peerLayer snapshot)
        (polled parseDecryptedAction sort decrypt peerLayer snapshot).removed).toList := by
  obtain ⟨snapshots, hstage⟩ := head?_eq_some_iff.mp hhead
  unfold asked
  simp only [stepQueue, hstage]
  exact drop_left

section
variable (hgeneric : ∀ action ∈ snapshot.actions, action.actionId.type = .generic)
include hgeneric

variable (decrypt : EncryptedAction → Option DecryptedMessage)

theorem actionIdsOf_merged :
    (actionIdsOf .generic (mergedActions sort decrypt snapshot)).length = snapshot.actions.length := by
  have hperm := (sort.perm (snapshot.actions ++ decryptActions decrypt snapshot.encryptedActions)).filterMap fun action =>
    if action.actionId.type = .generic then some action.actionId.value else none
  have hactions : actionIdsOf .generic snapshot.actions = snapshot.actions.map (·.actionId.value) := by
    unfold actionIdsOf
    rw [← filterMap_eq_map]
    apply filterMap_congr
    intro action hact
    rw [if_pos (hgeneric action hact)]
    rfl
  have hdecrypted : actionIdsOf .generic (decryptActions decrypt snapshot.encryptedActions) = [] := by
    unfold actionIdsOf decryptActions
    rw [filterMap_eq_nil_iff]
    intro action hact
    obtain ⟨row, -, hrow⟩ := mem_filterMap.mp hact
    obtain ⟨message, -, rfl⟩ := Option.map_eq_some_iff.mp hrow
    apply if_neg
    intro hty
    cases hty
  have hlen := hperm.length_eq
  rw [filterMap_append, length_append] at hlen
  change (actionIdsOf .generic (mergedActions sort decrypt snapshot)).length =
    (actionIdsOf .generic snapshot.actions).length +
      (actionIdsOf .generic (decryptActions decrypt snapshot.encryptedActions)).length at hlen
  rw [hlen, hactions, hdecrypted, length_map]
  rfl

theorem count_lt_iff {removed waiting : List StoredAction}
    (hparts : (mergedActions sort decrypt snapshot).Perm (removed ++ waiting)) :
    (actionIdsOf .generic removed).length < snapshot.actions.length ↔
      ∃ action ∈ waiting, action.actionId.type = .generic := by
  have hlen := (hparts.filterMap fun action =>
    if action.actionId.type = .generic then some action.actionId.value else none).length_eq
  rw [filterMap_append, length_append] at hlen
  change (actionIdsOf .generic (mergedActions sort decrypt snapshot)).length =
    (actionIdsOf .generic removed).length + (actionIdsOf .generic waiting).length at hlen
  rw [actionIdsOf_merged hgeneric] at hlen
  have hpos : 0 < (actionIdsOf .generic waiting).length ↔ ∃ action ∈ waiting, action.actionId.type = .generic := by
    rw [length_pos_iff_exists_mem]
    constructor
    · rintro ⟨value, hval⟩
      obtain ⟨action, hact, hsome⟩ := mem_filterMap.mp hval
      exact ⟨action, hact, (Option.ite_none_right_eq_some.mp hsome).1⟩
    · rintro ⟨action, hact, hty⟩
      exact ⟨action.actionId.value, mem_filterMap.mpr ⟨action, hact, if_pos hty⟩⟩
  rw [← hpos]
  omega

end

section
variable {n : Int} {merged : List StoredAction} {state : PollState} {waiting : List StoredAction}

variable {action : StoredAction}

section
variable (h : LoopWaits parseDecryptedAction n merged state waiting)
include h

theorem LoopWaits.minLocal_ne (hact : action ∈ waiting) : state.minLocalSeqOut ≠ INT32_MAX := by
  have hle := h.minLocal_le action (h.parts.mem_iff.mpr (mem_append_right _ hact))
  have hlt := seqOut_lt action.message
  unfold INT32_MAX
  omega

theorem LoopWaits.decode_iff (hn : 0 ≤ n) (hact : action ∈ waiting) (hparity : 0 ≤ parity ∧ parity ≤ 1) :
    (int32 ((state.minLocalSeqOut - 1) * 2 + parity)).tdiv 2 = action.message.seqOut - 1 ↔
      state.minLocalSeqOut = action.message.seqOut := by
  have hless := (h.waiting action hact).1
  have hlower := h.lower
  have hlt := seqOut_lt action.message
  obtain ⟨other, hother, hattained⟩ := h.minLocal.resolve_left (h.minLocal_ne hact)
  have hle := h.minLocal_le action (h.parts.mem_iff.mpr (mem_append_right _ hact))
  constructor
  · intro heq
    by_cases hpos : 1 ≤ state.minLocalSeqOut
    · rw [tdiv_int32_double (by omega) (by omega) hparity] at heq
      omega
    · have hge := seqOut_ge other.message
      obtain ⟨hval, hnum⟩ :=
        tdiv_int32_negative (by omega) (by omega) hparity (by omega) (by omega) heq
      -- the message with the number zero would have been in turn
      exact absurd (show other.message.seqOut = state.nextExpectedSeqOut by omega) (h.missing other hother)
  · intro heq
    rw [heq]
    exact tdiv_int32_double (by omega) (by omega) hparity

end

/-- **A poll asks for the first gap** exactly under the condition. -/
theorem asksForFirstGap_iff (hn : 0 ≤ n) (hgeneric : ∀ action ∈ snapshot.actions, action.actionId.type = .generic)
    {decrypt : EncryptedAction → Option DecryptedMessage}
    (h : LoopWaits parseDecryptedAction n (mergedActions sort decrypt snapshot) state waiting) {peerLayer : Nat}
    (hlayer : state.currentPeerLayer = peerLayer) (isCreator : Bool) :
    AsksForFirstGap state.nextExpectedSeqOut
        ((mergedActions sort decrypt snapshot).filter fun action => action ∉ state.removed)
        (resendRequest isCreator snapshot state state.removed).toList ↔
      FirstWaits parseDecryptedAction n peerLayer (mergedActions sort decrypt snapshot) := by
  set merged := mergedActions sort decrypt snapshot with hmerged
  have hsub {action : StoredAction} (hact : action ∈ waiting) : action ∈ merged :=
    h.parts.mem_iff.mpr (mem_append_right _ hact)
  have hwaits {action : StoredAction} (hact : action ∈ waiting) : Waits parseDecryptedAction n merged action :=
    (h.waits_iff (hsub hact)).mpr hact
  have hleft {action : StoredAction} :
      action ∈ merged.filter (fun action => action ∉ state.removed) ↔ action ∈ waiting := by
    rw [mem_filter, decide_eq_true_eq]
    exact ⟨fun hm => (h.not_removed_iff hm.1).mp hm.2,
      fun hm => ⟨hsub hm, (h.not_removed_iff (hsub hm)).mpr hm⟩⟩
  have hcnt := count_lt_iff hgeneric decrypt h.parts
  have hlower := h.lower
  by_cases hnone : waiting = []
  · -- nothing waits, and nothing is asked for
    subst hnone
    have hreq : resendRequest isCreator snapshot state state.removed = none := by
      unfold resendRequest
      apply if_neg
      rw [hcnt]
      simp
    constructor
    · intro _
      exact .inl fun action hact hwait => not_mem_nil ((h.waits_iff hact).mp hwait)
    · intro _
      rw [hreq]
      refine ⟨⟨fun hne => absurd rfl hne, ?_⟩, fun _ hrange => nomatch hrange⟩
      rintro ⟨action, hact, -⟩
      cases hleft.mp hact
  · obtain ⟨someone, hsomeone⟩ := exists_mem_of_ne_nil waiting hnone
    have hupper : state.nextExpectedSeqOut < 2 ^ 30 := by
      have := (h.waiting someone hsomeone).1
      have := seqOut_lt someone.message
      omega
    have hparity : 0 ≤ (if isCreator then 0 else 1 : Int) ∧ (if isCreator then 0 else 1 : Int) ≤ 1 := by
      cases isCreator <;> decide
    have hreq : resendRequest isCreator snapshot state state.removed =
        if (∃ action ∈ waiting, action.actionId.type = .generic) ∧ min peerLayer currentLayer ∈ resendLayers then
          some (int32 (state.nextExpectedSeqOut * 2 + if isCreator then 0 else 1),
            int32 ((state.minLocalSeqOut - 1) * 2 + if isCreator then 0 else 1)) else none := by
      unfold resendRequest
      simp only [hcnt, hlayer, if_neg (h.minLocal_ne hsomeone)]
    rw [hreq]
    constructor
    · rintro ⟨hasked, hrange⟩
      right
      have hne := hasked.mpr ⟨someone, hleft.mpr hsomeone, (h.waiting someone hsomeone).1⟩
      by_cases hany : (∃ action ∈ waiting, action.actionId.type = .generic) ∧ min peerLayer currentLayer ∈ resendLayers
      · rw [if_pos hany] at hrange
        obtain ⟨first, hfirst, -, -, hend⟩ := hrange _ mem_cons_self
        have hmin := (h.decode_iff hn (hleft.mp hfirst) hparity).mp hend
        obtain ⟨⟨action, hact, hty⟩, hin⟩ := hany
        refine ⟨hin, ⟨action, hsub hact, hwaits hact, hty⟩, first, hsub (hleft.mp hfirst),
          hwaits (hleft.mp hfirst), fun other hother => ?_⟩
        rw [← hmin]
        exact h.minLocal_le other hother
      · rw [if_neg hany] at hne
        exact absurd rfl hne
    · rintro (hnowait | ⟨hin, ⟨action, hact, hwait, hty⟩, first, hfirst, hfirstWaits, hleast⟩)
      · exact absurd (hwaits hsomeone) (hnowait someone (hsub hsomeone))
      · have hgenericWaits : ∃ action ∈ waiting, action.actionId.type = .generic :=
          ⟨action, (h.waits_iff hact).mp hwait, hty⟩
        have hfirstMem := (h.waits_iff hfirst).mp hfirstWaits
        obtain ⟨other, hother, hattained⟩ := h.minLocal.resolve_left (h.minLocal_ne hsomeone)
        have hmin : state.minLocalSeqOut = first.message.seqOut := by
          have := h.minLocal_le first hfirst
          have := hleast other hother
          omega
        rw [if_pos ⟨hgenericWaits, hin⟩]
        refine ⟨⟨fun _ => ⟨someone, hleft.mpr hsomeone, (h.waiting someone hsomeone).1⟩, fun _ => by simp⟩, ?_⟩
        intro range hrange
        rw [mem_singleton.mp hrange]
        exact ⟨first, hleft.mpr hfirstMem, fun other hother => hleast other (hsub (hleft.mp hother)),
          tdiv_int32_double (by omega) hupper hparity, (h.decode_iff hn hfirstMem hparity).mpr hmin⟩

end

end

/-! ## Runs -/

/-- The number that is stored and those that will be are in the range, and so is what polls have read. -/
structure NumbersBounded (s : IncomingQueue) : Prop where
  seqIn : InRange s.seqIn
  writes : ∀ number ∈ s.databaseQueue.flatMap DatabaseJob.writes, InRange number
  snapshots : ∀ snapshot ∈ s.stageQueue, snapshot.Readable

theorem numbersBounded_init : NumbersBounded initQueue where
  seqIn := ⟨le_refl _, by decide⟩
  writes := by simp [initQueue]
  snapshots := by simp [initQueue]

section
variable {parseDecryptedAction : DecryptedMessage → Option ServiceAction} {sort : ActionSort} {s : IncomingQueue}

variable {job : DatabaseJob}

theorem NumbersBounded.enqueue (h : NumbersBounded s) (hjob : job.writes = []) :
    NumbersBounded { s with databaseQueue := s.databaseQueue ++ [job] } where
  seqIn := h.seqIn
  writes := by
    simp only [flatMap_append, flatMap_singleton, hjob, append_nil]
    exact h.writes
  snapshots := h.snapshots

theorem takeSnapshot_readable (sort : ActionSort) (h : NumbersBounded s) : (takeSnapshot sort s).Readable where
  number := h.seqIn
  generic := by
    intro action hact
    have hm := (sort.perm _).mem_iff.mp hact
    obtain ⟨row, -, rfl⟩ := mem_map.mp hm
    rfl

section
variable (h : NumbersBounded s)
include h

theorem NumbersBounded.runDatabaseJob (hjob : ∀ number ∈ job.writes, InRange number) :
    NumbersBounded (runDatabaseJob sort s job) := by
  cases job with
  | enqueueActions actions =>
    exact foldlRecOn actions insertAction h fun _ hs _ _ => ⟨hs.seqIn, hs.writes, hs.snapshots⟩
  | enqueueEncryptedActions actions =>
    exact foldlRecOn actions insertEncryptedAction h fun _ hs _ _ => ⟨hs.seqIn, hs.writes, hs.snapshots⟩
  | dequeue =>
    refine ⟨h.seqIn, h.writes, fun snapshot hsnap => ?_⟩
    rcases mem_append.mp hsnap with hm | hm
    · exact h.snapshots snapshot hm
    · rw [mem_singleton.mp hm]
      exact takeSnapshot_readable sort h
  | deleteActions actionIds | deleteEncryptedActions actionIds => exact ⟨h.seqIn, h.writes, h.snapshots⟩
  | applySeqIn seqIn => exact ⟨hjob seqIn mem_cons_self, h.writes, h.snapshots⟩

theorem NumbersBounded.processSnapshot {snapshot : Snapshot} (hsnap : snapshot.Readable)
    (decrypt : EncryptedAction → Option DecryptedMessage) (peerLayer : Nat) (isCreator : Bool) :
    NumbersBounded (processSnapshot parseDecryptedAction sort decrypt peerLayer isCreator snapshot s) where
  seqIn := h.seqIn
  writes := by
    have hspec := pollLoop_spec parseDecryptedAction hsnap.number.1 hsnap.number.2 peerLayer
      (mergedActions sort decrypt snapshot)
    obtain ⟨count, hcnt, -⟩ := hspec.sequence
    have hlower := hsnap.number.1
    intro number hnum
    simp only [Secret.processSnapshot, flatMap_append, mem_append] at hnum
    rcases hnum with hold | hnew
    · exact h.writes number hold
    · have heq : number = (pollLoop parseDecryptedAction snapshot.nextExpectedSeqOut peerLayer
          (mergedActions sort decrypt snapshot)).nextExpectedSeqOut := by
        simpa [DatabaseJob.writes, mergedActions] using hnew
      rw [heq]
      exact ⟨by omega, hspec.bound⟩
  snapshots := h.snapshots

variable (event : QueueEvent)

theorem NumbersBounded.step : NumbersBounded (stepQueue parseDecryptedAction sort s event) := by
  cases event with
  | enqueueIncomingMessages actions | enqueueIncomingEncryptedMessages actions | poll => exact h.enqueue rfl
  | runDatabase =>
    unfold stepQueue
    cases hq : s.databaseQueue with
    | nil => exact h
    | cons job jobs =>
      have hwrites := h.writes
      rw [hq, flatMap_cons] at hwrites
      have hrest : NumbersBounded { s with databaseQueue := jobs } :=
        ⟨h.seqIn, fun number hnum => hwrites number (mem_append_right _ hnum), h.snapshots⟩
      exact hrest.runDatabaseJob fun number hnum => hwrites number (mem_append_left _ hnum)
  | runStage decrypt peerLayer isCreator =>
    unfold stepQueue
    cases hstage : s.stageQueue with
    | nil => exact h
    | cons snapshot snapshots =>
      have hsnaps := h.snapshots
      rw [hstage] at hsnaps
      have hrest : NumbersBounded { s with stageQueue := snapshots } :=
        ⟨h.seqIn, h.writes, fun other hother => hsnaps other (mem_cons_of_mem _ hother)⟩
      exact hrest.processSnapshot (hsnaps snapshot mem_cons_self) decrypt peerLayer isCreator

theorem gapAsked_step_iff :
    GapAsked parseDecryptedAction sort s event ↔ GapFirst parseDecryptedAction sort s event := by
  cases event with
  | runStage decrypt peerLayer isCreator =>
    refine forall_congr' fun hlayer => forall_congr' fun snapshot => forall_congr' fun hhead => ?_
    have hreadable := h.snapshots snapshot (mem_of_head? hhead)
    obtain ⟨waiting, hwaits⟩ := pollLoop_waits parseDecryptedAction hreadable.number.1 hreadable.number.2 hlayer
      (mergedActions sort decrypt snapshot) (mergedActions_sorted decrypt snapshot)
    dsimp only
    rw [asked_runStage hhead]
    exact asksForFirstGap_iff hreadable.number.1 hreadable.generic hwaits
      (currentPeerLayer_pollLoop parseDecryptedAction _ hlayer _) isCreator
  | _ => exact Iff.rfl

end

end

/-- Every poll of a run asks for the first gap exactly if, at each poll, nothing waits, or there is a message to ask with for
the layer, a readable message waits and no message has a lesser number than those that wait. -/
theorem gapAsked_iff (parseDecryptedAction : DecryptedMessage → Option ServiceAction) (sort : ActionSort)
    (events : List QueueEvent) :
    AllSteps (stepQueue parseDecryptedAction sort) (GapAsked parseDecryptedAction sort) initQueue events ↔
      AllSteps (stepQueue parseDecryptedAction sort) (GapFirst parseDecryptedAction sort) initQueue events := by
  have hstep : ∀ s event, True → NumbersBounded s → GapFirst parseDecryptedAction sort s event →
      NumbersBounded (stepQueue parseDecryptedAction sort s event) := fun _ event _ hs _ => hs.step event
  have hiff : ∀ s event, True → NumbersBounded s →
      (GapAsked parseDecryptedAction sort s event ↔ GapFirst parseDecryptedAction sort s event) :=
    fun _ event _ hs => gapAsked_step_iff hs event
  exact allSteps_iff hstep hiff numbersBounded_init (allSteps_of_forall (fun _ _ => trivial) _)

def gapRun : List QueueEvent :=
  [.enqueueIncomingMessages [textMessage 1, textMessage 5], .poll, .runDatabase, .runDatabase,
    .runStage (fun _ => none) 73 false]

/-- The first is handed on and the second waits for number 1. The range that is sent ends before the first: the peer
reads it as 1 to 0. -/
theorem gap_not_asked :
    ¬AllSteps (stepQueue parseResendAction insertionActionSort) (GapAsked parseResendAction insertionActionSort)
        initQueue gapRun ∧
      (runQueue parseResendAction insertionActionSort gapRun).turns = [0] ∧
      (runQueue parseResendAction insertionActionSort gapRun).resendRequests = [(3, -1)] ∧
      (Int.tdiv 3 2, Int.tdiv (-1) 2) = (1, 0) := by
  refine ⟨fun hall => ?_, by decide +kernel, by decide +kernel, by decide⟩
  obtain ⟨-, -, -, -, hlast, -⟩ := hall
  obtain ⟨-, hranges⟩ := hlast (by decide) _ rfl
  obtain ⟨first, hfirst, -, -, hend⟩ := hranges (3, -1) (by decide +kernel)
  have hnumber : first.message.seqOut = 2 := by
    clear hend
    revert first
    decide +kernel
  rw [hnumber] at hend
  exact absurd hend (by decide)

end TelegramClient.Secret
