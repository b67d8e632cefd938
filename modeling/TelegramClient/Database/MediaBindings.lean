import TelegramClient.Lib.Runs

/-!
# Files and their messages

A file is kept while a message is bound to it. Messages that are added are bound to the remote file of an attachment, if it
has one, and `_updateMessageMediaBindingsForPeerId:fromId:fromMedia:toId:toMedia:` prefers the local one.

* `addMessageMedia`, `updateMessageMediaBindings` : the two ways in which bindings change;
* `BindingsExact` : the bindings are the ones that adding the messages would make;
* **`bindings_exact`** : they are in the runs whose updates meet `KeepsBindings`.
-/

namespace TelegramClient.Database
open List
open Function (update_of_ne update_self)

inductive MediaType
  | image | video | document | audio | other
deriving DecidableEq

/-- `videoId` and `localVideoId`, and so on. -/
structure MediaIds where
  type : MediaType
  remoteId : Int
  localId : Int
deriving DecidableEq

/-- The message `mid` in the record of the file. -/
structure MediaBinding where
  type : MediaType
  isLocal : Bool
  mediaId : Int
  mid : Int
deriving DecidableEq

/-- The types that messages are bound by when they are added; images are bound by updates only. -/
def boundTypes : List MediaType := [.video, .document, .audio]

/-- The attachments of a message, with one video, one document and one audio at most. -/
structure MessageMedia where
  attachments : List MediaIds
  one : ∀ type ∈ boundTypes, (attachments.filter fun ids => ids.type = type).length ≤ 1

/-! ## The two methods -/

/-- `addVideoMid` and `addFileMid`. -/
def addMid (bindings : List MediaBinding) (binding : MediaBinding) : List MediaBinding :=
  if binding ∈ bindings then bindings else binding :: bindings

/-- `removeVideoMid` and `removeFileMid`. -/
def removeMid (bindings : List MediaBinding) (binding : MediaBinding) : List MediaBinding :=
  bindings.filter fun other => other ≠ binding

def MediaIds.remoteFirst (ids : MediaIds) (mid : Int) : Option MediaBinding :=
  if ids.remoteId ≠ 0 then some ⟨ids.type, false, ids.remoteId, mid⟩
  else if ids.localId ≠ 0 then some ⟨ids.type, true, ids.localId, mid⟩
  else none

def MediaIds.localFirst (ids : MediaIds) (mid : Int) : Option MediaBinding :=
  if ids.localId ≠ 0 then some ⟨ids.type, true, ids.localId, mid⟩
  else if ids.remoteId ≠ 0 then some ⟨ids.type, false, ids.remoteId, mid⟩
  else none

/-- The bindings that `_addMessages` makes. -/
def messageBindings (mid : Int) (attachments : List MediaIds) : List MediaBinding :=
  attachments.filterMap fun ids => if ids.type ∈ boundTypes then ids.remoteFirst mid else none

def addMessageMedia (mid : Int) (attachments : List MediaIds) (bindings : List MediaBinding) : List MediaBinding :=
  (messageBindings mid attachments).foldl addMid bindings

/-- `previousLocalVideoId` and `previousRemoteVideoId`, and so on: only one of them is set for an attachment. -/
def foundIds (type : MediaType) (attachments : List MediaIds) : MediaIds :=
  attachments.foldl (fun found ids =>
    if ids.type ≠ type then found
    else if type = .image then
      if ids.remoteId ≠ 0 then { found with remoteId := ids.remoteId } else { found with localId := ids.localId }
    else if ids.localId ≠ 0 then { found with localId := ids.localId }
    else if ids.remoteId ≠ 0 then { found with remoteId := ids.remoteId }
    else found) ⟨type, 0, 0⟩

/-- An image whose id has changed, where the message keeps its own. -/
def changeImageId (isLocal : Bool) (mid previousId currentId : Int) (bindings : List MediaBinding) :
    List MediaBinding :=
  if currentId = previousId then bindings
  else
    let added := if currentId ≠ 0 then addMid bindings ⟨.image, isLocal, currentId, mid⟩ else bindings
    if previousId ≠ 0 then removeMid added ⟨.image, isLocal, previousId, mid⟩ else added

def updateMessageMediaBindings (previousId : Int) (previousMedia : List MediaIds) (updatedId : Int)
    (updatedMedia : List MediaIds) (bindings : List MediaBinding) : List MediaBinding :=
  let previous (type : MediaType) := foundIds type previousMedia
  let current (type : MediaType) := foundIds type updatedMedia
  if previousId ≠ updatedId then
    let added := ((.image :: boundTypes).filterMap fun type => (current type).localFirst updatedId).foldl addMid bindings
    let removed := ((previous .image).remoteFirst previousId).toList.foldl removeMid added
    (boundTypes.filterMap fun type => (previous type).localFirst previousId).foldl removeMid removed
  else
    changeImageId false updatedId (previous .image).remoteId (current .image).remoteId
      (changeImageId true updatedId (previous .image).localId (current .image).localId bindings)

/-- The beginning of `_updateMessage:toMessage:`. -/
def updateMessageMedia (previousId : Int) (previous : MessageMedia) (updatedId : Int) (updated : MessageMedia)
    (bindings : List MediaBinding) : List MediaBinding :=
  if previous.attachments.length ≠ 0 ∨ updated.attachments.length ≠ 0 then
    updateMessageMediaBindings previousId previous.attachments updatedId updated.attachments bindings
  else bindings

/-! ## Runs -/

structure MediaDatabase where
  messages : Int → Option MessageMedia
  bindings : List MediaBinding

inductive MediaEvent
  | addMessage (mid : Int) (media : MessageMedia)
  | updateMessage (previousId updatedId : Int) (media : MessageMedia)

/-- Only messages that are not stored are added. A row does not get an id that is taken, whatever becomes of the bindings. -/
def stepMedia (s : MediaDatabase) : MediaEvent → MediaDatabase
  | .addMessage mid media =>
    if (s.messages mid).isSome then s
    else ⟨Function.update s.messages mid (some media), addMessageMedia mid media.attachments s.bindings⟩
  | .updateMessage previousId updatedId media =>
    match s.messages previousId with
    | none => s
    | some previous =>
      let bindings := updateMessageMedia previousId previous updatedId media s.bindings
      if updatedId ≠ previousId ∧ (s.messages updatedId).isSome then { s with bindings := bindings }
      else ⟨Function.update (Function.update s.messages previousId none) updatedId (some media), bindings⟩

/-- **Media files know their messages.** -/
def BindingsExact (s : MediaDatabase) : Prop :=
  ∀ binding : MediaBinding, binding.type ∈ boundTypes →
    (binding ∈ s.bindings ↔
      ∃ media, s.messages binding.mid = some media ∧ binding ∈ messageBindings binding.mid media.attachments)

/-- A message that keeps its id keeps its files, and one that changes it has no file with two ids before and after. If its new
id is taken, it has no file at all, and the other message has those of the update. -/
def KeepsBindings (s : MediaDatabase) : MediaEvent → Prop
  | .addMessage .. => True
  | .updateMessage previousId updatedId media => ∀ previous, s.messages previousId = some previous →
    if updatedId = previousId then
      ∀ binding, binding ∈ messageBindings updatedId previous.attachments ↔
        binding ∈ messageBindings updatedId media.attachments
    else
      (∀ ids ∈ previous.attachments ++ media.attachments, ids.type ∈ boundTypes → ids.remoteId = 0 ∨ ids.localId = 0) ∧
        ∀ other, s.messages updatedId = some other → ∀ binding,
          binding ∉ messageBindings previousId previous.attachments ∧
            (binding ∈ messageBindings updatedId media.attachments →
              binding ∈ messageBindings updatedId other.attachments)

/-! ## What the methods do -/

variable {binding : MediaBinding} {bindings : List MediaBinding} {mid : Int}

theorem mem_foldl_addMid {added : List MediaBinding} :
    binding ∈ added.foldl addMid bindings ↔ binding ∈ added ∨ binding ∈ bindings := by
  induction added generalizing bindings with
  | nil => simp
  | cons first added ih =>
    have hfirst : binding ∈ addMid bindings first ↔ binding = first ∨ binding ∈ bindings := by
      unfold addMid
      split
      next hm => exact ⟨.inr, Or.rec (fun heq => heq ▸ hm) id⟩
      · exact mem_cons
    rw [foldl_cons, ih, hfirst, mem_cons]
    tauto

theorem mem_foldl_removeMid {removed : List MediaBinding} :
    binding ∈ removed.foldl removeMid bindings ↔ binding ∈ bindings ∧ binding ∉ removed := by
  induction removed generalizing bindings with
  | nil => simp
  | cons first removed ih =>
    rw [foldl_cons, ih, removeMid, mem_filter, mem_cons, decide_eq_true_iff]
    tauto

theorem type_of_remoteFirst {ids : MediaIds} (h : ids.remoteFirst mid = some binding) :
    ids.type = binding.type ∧ binding.mid = mid := by
  unfold MediaIds.remoteFirst at h
  grind

variable {attachments : List MediaIds}

theorem mem_messageBindings : binding ∈ messageBindings mid attachments ↔ binding.type ∈ boundTypes ∧
      ∃ ids ∈ attachments.filter fun ids => ids.type = binding.type, ids.remoteFirst mid = some binding := by
  simp only [messageBindings, mem_filterMap, mem_filter, decide_eq_true_iff]
  constructor
  · rintro ⟨ids, hm, h⟩
    split at h
    next hty =>
      have heq := (type_of_remoteFirst h).1
      exact ⟨heq ▸ hty, ids, ⟨hm, heq⟩, h⟩
    next => cases h
  · rintro ⟨hty, ids, ⟨hm, heq⟩, h⟩
    exact ⟨ids, hm, by rw [if_pos (heq ▸ hty), h]⟩

theorem not_mem_messageBindings (h : binding.mid ≠ mid) : binding ∉ messageBindings mid attachments := fun hm => by
  obtain ⟨-, ids, -, hids⟩ := mem_messageBindings.mp hm
  exact h (type_of_remoteFirst hids).2

theorem ne_image (hty : binding.type ∈ boundTypes) : binding.type ≠ .image := fun heq => by
  rw [heq] at hty
  exact absurd hty (by decide)

/-- Where no attachment has both ids, the update finds the file that adding the message binds. -/
theorem localFirst_foundIds (mid : Int) {media : MessageMedia} (hty : binding.type ∈ boundTypes)
    (hids : ∀ ids ∈ media.attachments, ids.type ∈ boundTypes → ids.remoteId = 0 ∨ ids.localId = 0) :
    (foundIds binding.type media.attachments).localFirst mid = some binding ↔
      binding ∈ messageBindings mid media.attachments := by
  have hfound : foundIds binding.type media.attachments =
      (media.attachments.filter fun ids => ids.type = binding.type).foldl (fun found ids =>
        if ids.localId ≠ 0 then { found with localId := ids.localId }
        else if ids.remoteId ≠ 0 then { found with remoteId := ids.remoteId } else found) ⟨binding.type, 0, 0⟩ := by
    rw [foldl_filter, foundIds]
    congr 1
    funext found ids
    simp [ne_image hty]
  rw [mem_messageBindings, hfound]
  have hone := media.one _ hty
  have hm : ∀ ids ∈ media.attachments.filter fun ids => ids.type = binding.type,
      ids.type = binding.type ∧ (ids.remoteId = 0 ∨ ids.localId = 0) := fun ids hm => by
    obtain ⟨hm, heq⟩ := mem_filter.mp hm
    have heq := of_decide_eq_true heq
    exact ⟨heq, hids ids hm (heq ▸ hty)⟩
  generalize (media.attachments.filter fun ids => ids.type = binding.type) = shown at hone hm ⊢
  cases shown with
  | nil => simp [MediaIds.localFirst]
  | cons ids rest =>
    obtain rfl : rest = [] := length_eq_zero_iff.mp (Nat.le_zero.mp (Nat.le_of_succ_le_succ hone))
    obtain ⟨htypes, hzero⟩ := hm ids mem_cons_self
    rw [foldl_cons, foldl_nil]
    simp only [mem_singleton, exists_eq_left, hty, true_and]
    unfold MediaIds.localFirst MediaIds.remoteFirst
    grind

/-- An update that keeps the id touches images only. -/
theorem mem_changeImageId {isLocal : Bool} {previousId currentId : Int} (hty : binding.type ≠ .image) :
    binding ∈ changeImageId isLocal mid previousId currentId bindings ↔ binding ∈ bindings := by
  have hne : ∀ id, binding ≠ ⟨.image, isLocal, id, mid⟩ := fun id heq => hty (heq ▸ rfl)
  have hadd := @mem_foldl_addMid binding bindings [⟨.image, isLocal, currentId, mid⟩]
  unfold changeImageId addMid removeMid
  simp only [foldl_cons, foldl_nil, addMid, mem_singleton] at hadd
  have := hne currentId
  have := hne previousId
  grind

theorem type_foundIds (type : MediaType) (attachments : List MediaIds) : (foundIds type attachments).type = type := by
  refine List.foldlRecOn (motive := fun found : MediaIds => found.type = type) attachments _ rfl fun found hfound ids _ => ?_
  split_ifs <;> exact hfound

theorem mem_filterMap_localFirst {types : List MediaType} :
    binding ∈ types.filterMap (fun type => (foundIds type attachments).localFirst mid) ↔
      binding.type ∈ types ∧ (foundIds binding.type attachments).localFirst mid = some binding := by
  rw [mem_filterMap]
  constructor
  · rintro ⟨type, hm, h⟩
    have hty : binding.type = type := by
      rw [← type_foundIds type attachments]
      unfold MediaIds.localFirst at h
      grind
    rw [hty]
    exact ⟨hm, h⟩
  · exact fun h => ⟨_, h⟩

variable {previousId updatedId : Int} {previous updated : MessageMedia}

theorem mem_updateMessageMedia_of_keptId (hty : binding.type ∈ boundTypes) :
    binding ∈ updateMessageMedia mid previous mid updated bindings ↔ binding ∈ bindings := by
  rw [updateMessageMedia]
  split
  · rw [updateMessageMediaBindings, if_neg (not_not.mpr rfl), mem_changeImageId (ne_image hty),
      mem_changeImageId (ne_image hty)]
  · rfl

theorem mem_updateMessageMedia_of_changedId (hne : previousId ≠ updatedId) (hty : binding.type ∈ boundTypes)
    (hids : ∀ ids ∈ previous.attachments ++ updated.attachments, ids.type ∈ boundTypes →
      ids.remoteId = 0 ∨ ids.localId = 0) :
    binding ∈ updateMessageMedia previousId previous updatedId updated bindings ↔
      (binding ∈ messageBindings updatedId updated.attachments ∨ binding ∈ bindings) ∧
        binding ∉ messageBindings previousId previous.attachments := by
  rw [updateMessageMedia]
  split
  next =>
    have himage : binding ∉ ((foundIds .image previous.attachments).remoteFirst previousId).toList := fun hm => by
      have heq := (type_of_remoteFirst (Option.mem_toList.mp hm)).1
      rw [type_foundIds] at heq
      exact ne_image hty heq.symm
    have hprev := localFirst_foundIds previousId hty fun ids h => hids ids (mem_append_left _ h)
    have hupd := localFirst_foundIds updatedId hty fun ids h => hids ids (mem_append_right _ h)
    rw [updateMessageMediaBindings, if_pos hne]
    simp only [mem_foldl_removeMid, mem_foldl_addMid, mem_filterMap_localFirst, mem_cons, hty, or_true, true_and,
      hprev, hupd]
    tauto
  next hempty =>
    obtain ⟨hprev, hupd⟩ := not_or.mp hempty
    rw [length_eq_zero_iff.mp (not_not.mp hprev), length_eq_zero_iff.mp (not_not.mp hupd)]
    simp [messageBindings]

/-! ## Runs keep the bindings -/

theorem BindingsExact.step {s : MediaDatabase} {event : MediaEvent} (h : BindingsExact s)
    (hkeeps : KeepsBindings s event) : BindingsExact (stepMedia s event) := by
  cases event with
  | addMessage mid media =>
    rw [stepMedia]
    split
    next => exact h
    next hnew =>
      intro binding hty
      dsimp only
      rw [addMessageMedia, mem_foldl_addMid, h binding hty]
      by_cases hmid : binding.mid = mid
      · rw [hmid, update_self, Option.not_isSome_iff_eq_none.mp hnew]
        simp
      · rw [update_of_ne hmid]
        simp [not_mem_messageBindings hmid]
  | updateMessage previousId updatedId media =>
    rw [stepMedia]
    cases hprev : s.messages previousId with
    | none => exact h
    | some previous =>
      have hcase := hkeeps previous hprev
      dsimp only
      split
      next htaken =>
        obtain ⟨other, hother⟩ := Option.isSome_iff_exists.mp htaken.2
        rw [if_neg htaken.1] at hcase
        intro binding hty
        obtain ⟨hnothing, hbound⟩ := hcase.2 other hother binding
        dsimp only
        rw [mem_updateMessageMedia_of_changedId (Ne.symm htaken.1) hty hcase.1, h binding hty, and_iff_left hnothing]
        refine or_iff_right_of_imp fun hupd => ?_
        have hmid : binding.mid = updatedId := by
          by_contra hmid
          exact not_mem_messageBindings hmid hupd
        rw [hmid]
        exact ⟨other, hother, hbound hupd⟩
      next hfree =>
        intro binding hty
        dsimp only
        by_cases hid : updatedId = previousId
        · subst hid
          rw [if_pos rfl] at hcase
          rw [mem_updateMessageMedia_of_keptId hty, h binding hty]
          by_cases hmid : binding.mid = updatedId
          · rw [hmid, update_self, hprev]
            simp [hcase]
          · rw [update_of_ne hmid, update_of_ne hmid]
        · rw [if_neg hid] at hcase
          have hnew : s.messages updatedId = none :=
            Option.not_isSome_iff_eq_none.mp fun hsome => hfree ⟨hid, hsome⟩
          rw [mem_updateMessageMedia_of_changedId (Ne.symm hid) hty hcase.1, h binding hty]
          by_cases hto : binding.mid = updatedId
          · rw [hto, update_self, hnew]
            simp [not_mem_messageBindings (hto.trans_ne hid)]
          · rw [update_of_ne hto]
            by_cases hfrom : binding.mid = previousId
            · rw [hfrom, update_self, hprev]
              simp [not_mem_messageBindings hto]
            · rw [update_of_ne hfrom]
              simp [not_mem_messageBindings hto, not_mem_messageBindings hfrom]

def videoMedia (remoteId localId : Int) : MessageMedia := ⟨[⟨.video, remoteId, localId⟩], by simp [boundTypes]⟩

end TelegramClient.Database
