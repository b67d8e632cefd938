import TelegramClient.MtProto.Container
import Mathlib.Data.List.Sort

/-!
# Packing messages into containers

The middle of `transportReadyForTransaction:`: the prepared messages are sorted by id, the ones of high priority
are moved to the front, and a loop cuts the list into containers.

* `arrangeMessages` : the order that the loop gets (`highPriorityFirst_arrangeMessages`, `arrangeMessages_perm`);
* `packGroups_spec` : the whole list.
-/

namespace TelegramClient.MtProto
open List

/-- `MTMaxContainerSize`. -/
def maxContainerSize : Nat := 3 * 1024

/-! ## The order of the messages -/

/-- The loop that moves the messages of high priority to `highPriorityMessages`. -/
def hoistLoop (i : Nat) (list highPriorityMessages : List MTPreparedMessage) :
    List MTPreparedMessage × List MTPreparedMessage :=
  if h : i < list.length then
    if (list.get ⟨i, h⟩).hasHighPriority then
      -- the element is removed and `i--` undoes the `i++`
      hoistLoop i (list.eraseIdx i) (highPriorityMessages ++ [list.get ⟨i, h⟩])
    else hoistLoop (i + 1) list highPriorityMessages
  else (list, highPriorityMessages)
  termination_by list.length - i
  decreasing_by
    · rw [length_eraseIdx_of_lt h]
      omega
    · omega

/-- What is done with `transactionMessageList` before it is packed. -/
def arrangeMessages (forceConfirmations : Bool) (list : List MTPreparedMessage) : List MTPreparedMessage :=
  if list.length ≠ 1 then
    let list := list.mergeSort fun a b => decide (a.messageId.toInt ≤ b.messageId.toInt)
    if !forceConfirmations then
      let (list, highPriorityMessages) := hoistLoop 0 list []
      highPriorityMessages ++ list
    else list
  else list

/-- No message of high priority stands behind one of normal priority. -/
def HighPriorityFirst (messages : List MTPreparedMessage) : Prop :=
  messages.Pairwise fun a b => b.hasHighPriority → a.hasHighPriority

theorem hoistLoop_eq (done rest highPriorityMessages : List MTPreparedMessage) :
    hoistLoop done.length (done ++ rest) highPriorityMessages =
      (done ++ rest.filter (!·.hasHighPriority), highPriorityMessages ++ rest.filter (·.hasHighPriority)) := by
  induction rest generalizing done highPriorityMessages with
  | nil =>
    unfold hoistLoop
    simp
  | cons m rest ih =>
    have hlt : done.length < (done ++ m :: rest).length := by simp
    have hget : (done ++ m :: rest).get ⟨done.length, hlt⟩ = m := by simp
    have herase : (done ++ m :: rest).eraseIdx done.length = done ++ rest := by
      rw [eraseIdx_append_of_length_le (Nat.le_refl _), Nat.sub_self, eraseIdx_cons_zero]
    unfold hoistLoop
    rw [dif_pos hlt, hget]
    by_cases hm : m.hasHighPriority
    · rw [if_pos hm, herase, ih]
      simp [hm]
    · have hnext := ih (done ++ [m]) highPriorityMessages
      rw [length_append, length_singleton, append_assoc, singleton_append] at hnext
      rw [if_neg hm, hnext]
      simp [hm]

variable (forceConfirmations : Bool) (list : List MTPreparedMessage)

theorem arrangeMessages_eq : arrangeMessages forceConfirmations list =
      if list.length ≠ 1 then
        let sorted := list.mergeSort fun a b => decide (a.messageId.toInt ≤ b.messageId.toInt)
        if !forceConfirmations then sorted.filter (·.hasHighPriority) ++ sorted.filter (!·.hasHighPriority)
        else sorted
      else list := by
  unfold arrangeMessages
  have h := hoistLoop_eq [] (list.mergeSort fun a b => decide (a.messageId.toInt ≤ b.messageId.toInt)) []
  rw [length_nil, nil_append, nil_append, nil_append] at h
  simp only [h]

theorem arrangeMessages_perm : (arrangeMessages forceConfirmations list).Perm list := by
  rw [arrangeMessages_eq]
  split
  · dsimp only
    split
    · exact (filter_append_perm _ _).trans (mergeSort_perm _ _)
    · exact mergeSort_perm _ _
  · exact List.Perm.refl list

theorem highPriorityFirst_arrangeMessages : HighPriorityFirst (arrangeMessages false list) := by
  rw [arrangeMessages_eq]
  unfold HighPriorityFirst
  split
  · dsimp only
    simp only [Bool.not_false, if_true]
    rw [pairwise_append]
    refine ⟨?_, ?_, ?_⟩
    · apply pairwise_of_forall_mem_list
      intro a ha b _ _
      exact (mem_filter.mp ha).2
    · apply pairwise_of_forall_mem_list
      intro a _ b hb hhigh
      have := (mem_filter.mp hb).2
      simp [hhigh] at this
    · intro a ha b _ _
      exact (mem_filter.mp ha).2
  · next h =>
    obtain ⟨m, rfl⟩ := length_eq_one_iff.mp (not_not.mp h)
    exact pairwise_singleton _ m

/-! ## The packing loop -/

/-- `currentlyProcessingHighPriority` and `breakContainer` after looking at a message. -/
def latchStep (forceConfirmations : Bool) (preparedMessage : MTPreparedMessage)
    (currentlyProcessingHighPriority : Bool) : Bool × Bool :=
  if !forceConfirmations then
    if preparedMessage.hasHighPriority then (true, false)
    else if currentlyProcessingHighPriority then (false, true)
    else (currentlyProcessingHighPriority, false)
  else (currentlyProcessingHighPriority, false)

/-- The inner loop. Returns the container, `i` and `currentlyProcessingHighPriority`. -/
def packContainer (forceConfirmations : Bool) (messages : List MTPreparedMessage) (j i : Nat)
    (currentlyProcessingHighPriority : Bool) (currentContainerMessages : List MTPreparedMessage)
    (currentContainerSize : Nat) : List MTPreparedMessage × Nat × Bool :=
  if h : j < messages.length then
    let preparedMessage := messages.get ⟨j, h⟩
    let (currentlyProcessingHighPriority, breakContainer) :=
      latchStep forceConfirmations preparedMessage currentlyProcessingHighPriority
    if currentContainerSize + preparedMessage.data.length > maxContainerSize ∨
        (breakContainer ∧ currentContainerSize ≠ 0) then
      if currentContainerSize = 0 then
        (currentContainerMessages ++ [preparedMessage], i + 1, currentlyProcessingHighPriority)
      else (currentContainerMessages, i, currentlyProcessingHighPriority)
    else
      packContainer forceConfirmations messages (j + 1) (i + 1) currentlyProcessingHighPriority
        (currentContainerMessages ++ [preparedMessage]) (currentContainerSize + preparedMessage.data.length)
  else (currentContainerMessages, i, currentlyProcessingHighPriority)
  termination_by messages.length - j

/-- The outer loop; `emit` is what is done with each container, and `none` stands for a loop that still runs after
`fuel` rounds. -/
def packLoop {σ : Type} (emit : σ → List MTPreparedMessage → σ) (forceConfirmations : Bool)
    (messages : List MTPreparedMessage) : Nat → Nat → Bool → σ → Option σ
  | fuel, i, currentlyProcessingHighPriority, state =>
    if i < messages.length then
      match fuel with
      | 0 => none
      | fuel + 1 =>
        let (container, i, currentlyProcessingHighPriority) :=
          packContainer forceConfirmations messages i i currentlyProcessingHighPriority [] 0
        packLoop emit forceConfirmations messages fuel i currentlyProcessingHighPriority (emit state container)
    else some state

/-- The containers that the loop makes, one round for each message being enough. -/
def packGroups (forceConfirmations : Bool) (messages : List MTPreparedMessage) :
    Option (List (List MTPreparedMessage)) :=
  packLoop (fun groups container => groups ++ [container]) forceConfirmations messages messages.length 0 false []

/-! ## One container -/

def totalSize (messages : List MTPreparedMessage) : Nat := (messages.map fun m => m.data.length).sum

theorem totalSize_concat (messages : List MTPreparedMessage) (m : MTPreparedMessage) :
    totalSize (messages ++ [m]) = totalSize messages + m.data.length := by
  simp [totalSize]

def Homogeneous (messages : List MTPreparedMessage) : Prop :=
  (∀ m ∈ messages, m.hasHighPriority = true) ∨ ∀ m ∈ messages, m.hasHighPriority = false

structure GroupOk (forceConfirmations : Bool) (group : List MTPreparedMessage) : Prop where
  ne_nil : group ≠ []
  size_le : 2 ≤ group.length → totalSize group ≤ maxContainerSize
  homogeneous : forceConfirmations = false → Homogeneous group

/-- The invariant of the inner loop: the container fits, and while it holds messages of high priority the latch is
set, so that the first normal message ends it. -/
structure Filling (forceConfirmations latch : Bool) (container : List MTPreparedMessage) : Prop where
  size_le : totalSize container ≤ maxContainerSize
  latch : forceConfirmations = false → container ≠ [] →
    (∀ m ∈ container, m.hasHighPriority = true) ∧ latch = true ∨ ∀ m ∈ container, m.hasHighPriority = false

theorem Filling.nil (latch : Bool) : Filling forceConfirmations latch [] :=
  ⟨Nat.zero_le _, fun _ h => absurd rfl h⟩

variable {latch : Bool} {container : List MTPreparedMessage}

theorem Filling.groupOk {forceConfirmations : Bool} (h : Filling forceConfirmations latch container)
    (hne : container ≠ []) : GroupOk forceConfirmations container := by
  refine ⟨hne, fun _ => h.size_le, fun hforce => ?_⟩
  rcases h.latch hforce hne with ⟨hhigh, -⟩ | hlow
  · exact .inl hhigh
  · exact .inr hlow

theorem groupOk_singleton (m : MTPreparedMessage) : GroupOk forceConfirmations [m] := by
  refine ⟨cons_ne_nil m [], fun h => absurd h (by simp), fun _ => ?_⟩
  unfold Homogeneous
  cases hm : m.hasHighPriority with
  | true => exact .inl (by simp [hm])
  | false => exact .inr (by simp [hm])

theorem packContainer_eq (pre rest container : List MTPreparedMessage) (m : MTPreparedMessage) (i : Nat)
    (latch : Bool) (size : Nat) :
    packContainer forceConfirmations (pre ++ m :: rest) pre.length i latch container size =
      let next := latchStep forceConfirmations m latch
      if size + m.data.length > maxContainerSize ∨ (next.2 ∧ size ≠ 0) then
        if size = 0 then (container ++ [m], i + 1, next.1) else (container, i, next.1)
      else packContainer forceConfirmations (pre ++ m :: rest) (pre.length + 1) (i + 1) next.1 (container ++ [m])
        (size + m.data.length) := by
  have hlt : pre.length < (pre ++ m :: rest).length := by simp
  have hget : (pre ++ m :: rest).get ⟨pre.length, hlt⟩ = m := by simp
  conv_lhs => unfold packContainer
  rw [dif_pos hlt, hget]

/-- A message that neither breaks the container nor is too large keeps the invariant. -/
theorem Filling.concat {forceConfirmations : Bool} {m : MTPreparedMessage}
    (h : Filling forceConfirmations latch container) (hdata : container ≠ [] → totalSize container ≠ 0)
    (hfits : totalSize container + m.data.length ≤ maxContainerSize)
    (hbreak : ¬ ((latchStep forceConfirmations m latch).2 = true ∧ totalSize container ≠ 0))
    (hfirst : forceConfirmations = false → ∀ a ∈ container, m.hasHighPriority → a.hasHighPriority) :
    Filling forceConfirmations (latchStep forceConfirmations m latch).1 (container ++ [m]) := by
  refine ⟨by rwa [totalSize_concat], fun hforce _ => ?_⟩
  subst hforce
  unfold latchStep at hbreak ⊢
  cases hm : m.hasHighPriority with
  | true =>
    left
    refine ⟨?_, by simp⟩
    intro a ha
    rcases mem_append.mp ha with ha | ha
    · exact hfirst rfl a ha hm
    · rw [mem_singleton.mp ha, hm]
  | false =>
    right
    have hcont : ∀ a ∈ container, a.hasHighPriority = false := by
      by_cases hne : container = []
      · simp [hne]
      · rcases h.latch rfl hne with ⟨-, hlatch⟩ | hlow
        · exact absurd ⟨by simp [hm, hlatch], hdata hne⟩ hbreak
        · exact hlow
    intro a ha
    rcases mem_append.mp ha with ha | ha
    · exact hcont a ha
    · rw [mem_singleton.mp ha, hm]

/-- The inner loop takes some messages from the front of what is left and moves `i` past them; an empty container
takes at least one. -/
theorem packContainer_takes (forceConfirmations : Bool) (pre rest container : List MTPreparedMessage) (latch : Bool)
    (size : Nat) : ∃ taken left latch', rest = taken ++ left ∧
      packContainer forceConfirmations (pre ++ rest) pre.length pre.length latch container size =
        (container ++ taken, pre.length + taken.length, latch') ∧ (size = 0 → rest ≠ [] → taken ≠ []) := by
  induction rest generalizing pre container latch size with
  | nil =>
    refine ⟨[], [], latch, rfl, ?_, fun _ h => absurd rfl h⟩
    unfold packContainer
    simp
  | cons m rest ih =>
    rw [packContainer_eq]
    dsimp only
    by_cases hbreak : size + m.data.length > maxContainerSize ∨
        ((latchStep forceConfirmations m latch).2 = true ∧ size ≠ 0)
    · rw [if_pos hbreak]
      by_cases hzero : size = 0
      · refine ⟨[m], rest, (latchStep forceConfirmations m latch).1, rfl, ?_, fun _ _ => cons_ne_nil m []⟩
        rw [if_pos hzero]
        rfl
      · refine ⟨[], m :: rest, (latchStep forceConfirmations m latch).1, rfl, ?_, fun h => absurd h hzero⟩
        rw [if_neg hzero, append_nil]
        rfl
    · rw [if_neg hbreak]
      obtain ⟨taken, left, latch', hsplit, hrun, -⟩ := ih (pre ++ [m]) (container ++ [m])
        (latchStep forceConfirmations m latch).1 (size + m.data.length)
      refine ⟨m :: taken, left, latch', by rw [hsplit]; rfl, ?_, fun _ _ => cons_ne_nil m taken⟩
      rw [length_append, length_singleton, append_assoc, singleton_append,
        append_assoc, singleton_append] at hrun
      rw [hrun, length_cons, Nat.add_assoc, Nat.add_comm 1]

/-- **One container** keeps its promise, given that the messages left are not empty and in their order. -/
theorem packContainer_groupOk (forceConfirmations : Bool) (pre rest container : List MTPreparedMessage)
    (latch : Bool) (hfill : Filling forceConfirmations latch container) (hdata : ∀ m ∈ container ++ rest, m.data ≠ [])
    (hfirst : forceConfirmations = false → HighPriorityFirst (container ++ rest)) (hne : container ++ rest ≠ []) :
    GroupOk forceConfirmations (packContainer forceConfirmations (pre ++ rest) pre.length pre.length latch container
      (totalSize container)).1 := by
  induction rest generalizing pre container latch with
  | nil =>
    rw [append_nil] at hne
    unfold packContainer
    simpa using hfill.groupOk hne
  | cons m rest ih =>
    have hsize : container ≠ [] → totalSize container ≠ 0 := by
      intro hc
      obtain ⟨a, as, rfl⟩ := exists_cons_of_ne_nil hc
      have hpos : 0 < a.data.length := length_pos_iff.mpr (hdata a (by simp))
      simp only [totalSize, map_cons, sum_cons]
      omega
    rw [packContainer_eq]
    dsimp only
    by_cases hbreak : totalSize container + m.data.length > maxContainerSize ∨
        ((latchStep forceConfirmations m latch).2 = true ∧ totalSize container ≠ 0)
    · rw [if_pos hbreak]
      by_cases hzero : totalSize container = 0
      · -- an empty container takes a message of any size
        have hnil : container = [] := by
          by_contra hc
          exact hsize hc hzero
        subst hnil
        rw [if_pos hzero]
        exact groupOk_singleton forceConfirmations m
      · rw [if_neg hzero]
        refine hfill.groupOk ?_
        rintro rfl
        exact hzero rfl
    · rw [if_neg hbreak]
      obtain ⟨hfits, hstay⟩ := not_or.mp hbreak
      have hfill' : Filling forceConfirmations (latchStep forceConfirmations m latch).1 (container ++ [m]) := by
        refine hfill.concat hsize (by omega) hstay ?_
        intro hforce a ha hm
        have hpair := hfirst hforce
        unfold HighPriorityFirst at hpair
        rw [pairwise_append] at hpair
        exact hpair.2.2 a ha m (by simp) hm
      have hassoc : container ++ [m] ++ rest = container ++ m :: rest := by simp
      have hrun := ih (pre ++ [m]) (container ++ [m]) (latchStep forceConfirmations m latch).1 hfill'
        (by rwa [hassoc]) (by rwa [hassoc]) (by simp)
      rwa [length_append, length_singleton, append_assoc, singleton_append,
        totalSize_concat] at hrun

/-! ## All containers -/

variable {σ : Type}

/-- The outer loop cuts the rest of the list into containers with the property `Ok` of the inner loop, and passes them
to `emit` in order. -/
theorem packLoop_spec (emit : σ → List MTPreparedMessage → σ) (forceConfirmations : Bool)
    (Ok : List MTPreparedMessage → Prop) (messages pre rest : List MTPreparedMessage) (latch : Bool) (state : σ)
    (fuel : Nat) (hmsgs : messages = pre ++ rest) (hfuel : rest.length ≤ fuel)
    (hok : ∀ pre rest latch, messages = pre ++ rest → rest ≠ [] →
      Ok (packContainer forceConfirmations messages pre.length pre.length latch [] 0).1) :
    ∃ groups : List (List MTPreparedMessage), packLoop emit forceConfirmations messages fuel pre.length latch state =
        some (groups.foldl emit state) ∧ groups.flatten = rest ∧ ∀ group ∈ groups, group ≠ [] ∧ Ok group := by
  induction fuel generalizing pre rest latch state with
  | zero =>
    have hnil : rest = [] := length_eq_zero_iff.mp (by omega)
    subst hnil
    refine ⟨[], ?_, rfl, by simp⟩
    unfold packLoop
    rw [if_neg (by simp [hmsgs])]
    rfl
  | succ fuel ih =>
    by_cases hrest : rest = []
    · subst hrest
      refine ⟨[], ?_, rfl, by simp⟩
      unfold packLoop
      rw [if_neg (by simp [hmsgs])]
      rfl
    · have hlt : pre.length < messages.length := by
        have hpos : 0 < rest.length := length_pos_iff.mpr hrest
        rw [hmsgs, length_append]
        omega
      have hgroup := hok pre rest latch hmsgs hrest
      obtain ⟨taken, left, latch', hsplit, hrun, htaken⟩ :=
        packContainer_takes forceConfirmations pre rest [] latch 0
      rw [← hmsgs, nil_append] at hrun
      rw [hrun] at hgroup
      have hpos : 0 < taken.length := length_pos_iff.mpr (htaken rfl hrest)
      obtain ⟨groups, hloop, hflatten, hgroups⟩ := ih (pre ++ taken) left latch' (emit state taken)
        (by rw [hmsgs, hsplit, append_assoc]) (by
          rw [hsplit, length_append] at hfuel
          omega)
      refine ⟨taken :: groups, ?_, by rw [flatten_cons, hflatten, hsplit], ?_⟩
      · rw [length_append] at hloop
        unfold packLoop
        rw [if_pos hlt, hrun]
        exact hloop
      · intro group hm
        rcases mem_cons.mp hm with rfl | hm
        · exact ⟨htaken rfl hrest, hgroup⟩
        · exact hgroups group hm

theorem foldl_concat {α : Type} (as acc : List α) : as.foldl (fun acc x => acc ++ [x]) acc = acc ++ as := by
  induction as generalizing acc with
  | nil => simp
  | cons a as ih => rw [foldl_cons, ih, append_assoc, singleton_append]

theorem packLoop_emit (emit : σ → List MTPreparedMessage → σ) (forceConfirmations : Bool)
    (messages : List MTPreparedMessage) (fuel i : Nat) (latch : Bool) (groups : List (List MTPreparedMessage))
    (state : σ) : packLoop emit forceConfirmations messages fuel i latch (groups.foldl emit state) =
      (packLoop (fun groups container => groups ++ [container]) forceConfirmations messages fuel i latch groups).map
        fun groups => groups.foldl emit state := by
  induction fuel generalizing i latch groups with
  | zero =>
    unfold packLoop
    split <;> rfl
  | succ fuel ih =>
    unfold packLoop
    split
    · have hemit : emit (groups.foldl emit state) (packContainer forceConfirmations messages i i latch [] 0).1 =
          (groups ++ [(packContainer forceConfirmations messages i i latch [] 0).1]).foldl emit state := by
        simp
      dsimp only
      rw [hemit, ih]
    · rfl

theorem packGroups_flatten (messages : List MTPreparedMessage) :
    ∃ groups, packGroups forceConfirmations messages = some groups ∧ groups.flatten = messages ∧
      ∀ group ∈ groups, group ≠ [] := by
  obtain ⟨groups, hloop, hflatten, hgroups⟩ := packLoop_spec (fun groups container => groups ++ [container])
    forceConfirmations (fun _ => True) messages [] messages false [] messages.length rfl (Nat.le_refl _)
    fun _ _ _ _ _ => trivial
  rw [foldl_concat, nil_append] at hloop
  exact ⟨groups, hloop, hflatten, fun g hg => (hgroups g hg).1⟩

/-- **Container packing.** The loop ends, and its containers are the list cut into pieces: nothing is lost,
repeated or moved, no container is empty, those of two or more messages are within the limit, and without forced
confirmations none mixes the priorities. -/
theorem packGroups_spec (forceConfirmations : Bool) (messages : List MTPreparedMessage)
    (hdata : ∀ m ∈ messages, m.data ≠ [])
    (hfirst : forceConfirmations = false → HighPriorityFirst messages) :
    ∃ groups, packGroups forceConfirmations messages = some groups ∧ groups.flatten = messages ∧
      (∀ group ∈ groups, group ≠ []) ∧
      (∀ group ∈ groups, 2 ≤ group.length → totalSize group ≤ maxContainerSize) ∧
      (forceConfirmations = false → ∀ group ∈ groups, Homogeneous group) := by
  obtain ⟨groups, hloop, hflatten, hgroups⟩ := packLoop_spec (fun groups container => groups ++ [container])
    forceConfirmations (GroupOk forceConfirmations) messages [] messages false [] messages.length rfl (Nat.le_refl _)
    (by
      intro pre rest latch hsplit hne
      have hsub : ∀ m ∈ [] ++ rest, m.data ≠ [] := fun m hm => hdata m (by rw [hsplit]; simpa using Or.inr hm)
      have hpair : forceConfirmations = false → HighPriorityFirst ([] ++ rest) := by
        intro hforce
        have h := hfirst hforce
        unfold HighPriorityFirst at h ⊢
        rw [hsplit, pairwise_append] at h
        exact h.2.1
      rw [hsplit]
      exact packContainer_groupOk forceConfirmations pre rest [] latch (Filling.nil _ _) hsub hpair hne)
  rw [foldl_concat, nil_append] at hloop
  exact ⟨groups, hloop, hflatten, fun g hg => (hgroups g hg).1, fun g hg => (hgroups g hg).2.size_le,
    fun hforce g hg => (hgroups g hg).2.homogeneous hforce⟩

/-- Two messages of high and one of normal priority make two containers. -/
theorem packGroups_spec_three :
    let message (id : Nat) (high : Bool) : MTPreparedMessage := ⟨id, BitVec.ofNat 64 id, 1, 7, [1, 2, 3, 4], true, high⟩
    let messages := [message 1 true, message 2 true, message 3 false]
    packGroups false messages = some [[message 1 true, message 2 true], [message 3 false]] ∧
      ∃ groups, packGroups false messages = some groups ∧ groups.flatten = messages ∧
        ∀ group ∈ groups, Homogeneous group := by
  intro message messages
  have hpacked : packGroups false messages = some [[message 1 true, message 2 true], [message 3 false]] := by
    decide +kernel
  have hdata : ∀ m ∈ messages, m.data ≠ [] := by decide
  have hfirst : HighPriorityFirst messages := by simp [HighPriorityFirst, messages, message]
  obtain ⟨groups, hpack, hflatten, -, -, hgroups⟩ := packGroups_spec false messages hdata fun _ => hfirst
  exact ⟨hpacked, groups, hpack, hflatten, hgroups rfl⟩

theorem arrangeMessages_ready (hdata : ∀ m ∈ list, m.data ≠ []) :
    (∀ m ∈ arrangeMessages forceConfirmations list, m.data ≠ []) ∧
      (forceConfirmations = false → HighPriorityFirst (arrangeMessages forceConfirmations list)) := by
  constructor
  · intro m hm
    exact hdata m ((arrangeMessages_perm forceConfirmations list).mem_iff.mp hm)
  · intro hforce
    rw [hforce]
    exact highPriorityFirst_arrangeMessages list

end TelegramClient.MtProto
