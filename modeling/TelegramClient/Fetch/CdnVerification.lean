import TelegramClient.Fetch.PartDelivery

/-!
# What is checked of the data of a CDN

The hashes that come with a redirect are not used: the table that the data is checked against is never filled.

* `Verified` : data that consists of whole chunks with the hashes supplied for them;
* **`cdn_verified`** : what was passed on is verified in every run in which the CDN is honest.
-/

namespace TelegramClient.Fetch

open FetchManager

variable (crypto : FetchCrypto) (fileLength : Nat)

/-- Chunks of 128 KiB, the last of which may end with the file, each with a hash that was supplied for its offset. -/
def Verified (suppliedHashes : List (Nat × Bytes)) (offset : Nat) (data : Bytes) : Prop :=
  offset % defaultPartSize = 0 ∧ (data.length % defaultPartSize = 0 ∨ offset + data.length = fileLength) ∧
    ∀ k ∈ List.range data.length, k * defaultPartSize < data.length →
      (offset + k * defaultPartSize, crypto.sha256 (slice data (k * defaultPartSize) defaultPartSize)) ∈ suppliedHashes

instance (suppliedHashes : List (Nat × Bytes)) (offset : Nat) (data : Bytes) :
    Decidable (Verified crypto fileLength suppliedHashes offset data) :=
  inferInstanceAs (Decidable (_ ∧ (_ ∨ _) ∧ ∀ k ∈ List.range data.length, _ → _))

structure CdnVerified (s : FetchManager) : Prop where
  verified : ∀ offset part, .partReady offset part ∈ s.outputs → part.fromCdn = true →
    Verified crypto fileLength s.suppliedHashes offset part.data
  accepted : .failed ∉ s.outputs

/-- The data of an answer to a request that was sent to a CDN is `good` by the hashes supplied. -/
def CdnAnswers (good : List (Nat × Bytes) → Nat → Bytes → Prop) (s : FetchManager) : FetchEvent → Prop
  | .answer offset answer => ∀ part ∈ s.fetchingParts.lookup offset, ∀ data ∈ part.request.data, data ≠ .location →
    ∀ bytes ∈ answerData crypto offset data answer, good s.suppliedHashes offset bytes
  | _ => True

def HonestCdn (s : FetchManager) (event : FetchEvent) : Prop := CdnAnswers crypto (Verified crypto fileLength) s event

instance (s : FetchManager) : (event : FetchEvent) → Decidable (HonestCdn crypto fileLength s event)
  | .answer offset _ =>
    inferInstanceAs (Decidable (∀ part ∈ s.fetchingParts.lookup offset, ∀ data ∈ part.request.data, _ → ∀ bytes ∈ _, _))
  | .worker | .reuploaded | .originInfo | .cancel => inferInstanceAs (Decidable True)

/-- What holds between two events, when what comes from a CDN is `good` by the hashes supplied. -/
structure CdnInv (good : List (Nat × Bytes) → Nat → Bytes → Prop) (s : FetchManager) : Prop where
  no_hashes : s.cdnFilePartHashes = none
  fetched : ∀ e ∈ s.fetchedParts.entries, e.2.fromCdn = true → good s.suppliedHashes e.1 e.2.data
  ready : ∀ offset part, .partReady offset part ∈ s.outputs → part.fromCdn = true →
    good s.suppliedHashes offset part.data
  accepted : .failed ∉ s.outputs

variable {crypto fileLength}

theorem Verified.mono {suppliedHashes suppliedHashes' : List (Nat × Bytes)} (hsub : suppliedHashes ⊆ suppliedHashes')
    {offset : Nat} {data : Bytes} (h : Verified crypto fileLength suppliedHashes offset data) :
    Verified crypto fileLength suppliedHashes' offset data :=
  ⟨h.1, h.2.1, fun k hk hlt => hsub (h.2.2 k hk hlt)⟩

section
variable {good : List (Nat × Bytes) → Nat → Bytes → Prop}
  (hmono : ∀ hashes hashes' offset data, hashes ⊆ hashes' → good hashes offset data → good hashes' offset data)
  {s : FetchManager} (h : CdnInv good s)
include hmono h

theorem CdnInv.congr {s' : FetchManager} (hhashes : s'.cdnFilePartHashes = s.cdnFilePartHashes)
    (hfetched : s'.fetchedParts = s.fetchedParts) (houtputs : s'.outputs = s.outputs)
    (hsupplied : s.suppliedHashes ⊆ s'.suppliedHashes) : CdnInv good s' := by
  refine ⟨hhashes.trans h.no_hashes, fun e he hcdn => ?_, fun offset part hm hcdn => ?_, houtputs ▸ h.accepted⟩
  · exact hmono _ _ _ _ hsupplied (h.fetched e (hfetched ▸ he) hcdn)
  · exact hmono _ _ _ _ hsupplied (h.ready offset part (houtputs ▸ hm) hcdn)

omit hmono in
theorem CdnInv.deliverParts {parts : List (Nat × FetchedPart)}
    (hparts : ∀ e ∈ parts, e.2.fromCdn = true → good s.suppliedHashes e.1 e.2.data) :
    ∃ s', deliverParts crypto parts s = (true, s') ∧ CdnInv good s' := by
  induction parts generalizing s with
  | nil => exact ⟨s, rfl, h⟩
  | cons e parts ih =>
    obtain ⟨offset, part⟩ := e
    obtain ⟨hpart, hothers⟩ := List.forall_mem_cons.mp hparts
    have hmatch : hashesMatch crypto s.cdnFilePartHashes offset part.data = true := by
      rw [h.no_hashes]
      rfl
    unfold FetchManager.deliverParts
    split
    case isFalse => exact ih h hothers
    case isTrue =>
      dsimp only
      rw [if_pos hmatch]
      refine ih ?_ ?_
      case refine_2 => exact hothers
      refine ⟨h.no_hashes, fun e he => ?_, fun offset' part' hm => ?_, ?_⟩
      · exact h.fetched e ((SortedTable.mem_erase _).mp he).1
      · rcases List.mem_append.mp hm with hm | hm
        · exact h.ready offset' part' hm
        · cases List.mem_singleton.mp hm
          exact hpart
      · simp [h.accepted]

theorem CdnInv.fetchParts (fuel : Nat) : CdnInv good (fetchParts fuel s) := by
  induction fuel generalizing s with
  | zero => exact h
  | succ fuel ih =>
    unfold FetchManager.fetchParts
    split
    case isFalse => exact h
    case isTrue =>
      split
      · exact ih (h.congr hmono rfl rfl rfl (List.Subset.refl _))
      · exact h

theorem CdnInv.checkState : CdnInv good (checkState crypto s) := by
  obtain ⟨s', heq, h'⟩ := h.deliverParts h.fetched
  unfold FetchManager.checkState
  rw [heq]
  dsimp only
  split
  · refine ⟨h'.no_hashes, h'.fetched, fun offset part hm => h'.ready offset part ?_, ?_⟩
    · simpa using hm
    · simp [h'.accepted]
  · exact h'.fetchParts hmono _

variable (offset : Nat) (part : PendingPart)

theorem CdnInv.partAnswer {data : Bytes} {fromCdn : Bool} (hdata : fromCdn = true → good s.suppliedHashes offset data) :
    CdnInv good (partAnswer crypto s offset part data fromCdn) := by
  have hstore : ∀ completeSize, CdnInv good
      (storePart { s with completeSize := completeSize } offset data fromCdn) := by
    intro completeSize
    refine ⟨h.no_hashes, fun e he => ?_, h.ready, h.accepted⟩
    rcases (SortedTable.mem_insert _).mp he with rfl | ⟨he, -⟩
    · exact hdata
    · exact h.fetched e he
  unfold FetchManager.partAnswer
  split
  · split
    · exact (hstore s.completeSize).checkState hmono
    · exact h.congr hmono rfl rfl rfl (List.Subset.refl _)
  · split
    · exact (hstore _).checkState hmono
    · exact (hstore s.completeSize).checkState hmono

theorem CdnInv.setRequest (request : PartRequest) :
    CdnInv good (s.setRequest offset part request) := h.congr hmono rfl rfl rfl (List.Subset.refl _)

theorem CdnInv.switchToCdn (fileData : CdnFileData) : CdnInv good (s.switchToCdn fileData) := by
  unfold FetchManager.switchToCdn
  split
  · exact h
  · exact h.congr hmono rfl rfl rfl (List.Subset.refl _)

theorem CdnInv.reuploadToCdn (fileData : CdnFileData) : CdnInv good (s.reuploadToCdn fileData) := by
  unfold FetchManager.reuploadToCdn
  split
  · exact h
  · exact h.congr hmono rfl rfl rfl (List.Subset.refl _)

theorem CdnInv.handleAnswer {data : RequestData} {answer : Answer} (hhonest : data ≠ .location →
      ∀ bytes ∈ answerData crypto offset data answer,
      good s.suppliedHashes offset bytes) : CdnInv good (handleAnswer crypto s offset part data answer) := by
  cases data with
  | location =>
    cases answer with
    | file bytes => exact h.partAnswer hmono offset part fun hcdn => nomatch hcdn
    | fileCdnRedirect fileData fileHashes =>
      have hsupplied : CdnInv good { s.setRequest offset part .waiting with
          suppliedHashes := s.suppliedHashes ++ fileHashes } :=
        h.congr hmono rfl rfl rfl (List.subset_append_left _ _)
      exact hsupplied.switchToCdn hmono fileData
    | cdnFile bytes | cdnFileReuploadNeeded => exact h
    | fileReferenceError => exact h.congr hmono rfl rfl rfl (List.Subset.refl _)
    | error => exact h.setRequest hmono offset part .failed
  | cdn fileData =>
    have hverified := hhonest (fun heq => nomatch heq)
    cases answer with
    | file bytes => exact h.partAnswer hmono offset part fun _ => hverified bytes rfl
    | fileCdnRedirect fileData' fileHashes => exact (h.setRequest hmono offset part .waiting).switchToCdn hmono fileData'
    | cdnFile bytes => exact h.partAnswer hmono offset part fun _ => hverified _ rfl
    | cdnFileReuploadNeeded => exact (h.setRequest hmono offset part .waiting).reuploadToCdn hmono fileData
    | fileReferenceError | error => exact h.setRequest hmono offset part .failed

theorem CdnInv.step {event : FetchEvent} (hanswers : CdnAnswers crypto good s event) :
    CdnInv good (stepFetch crypto s event) := by
  unfold stepFetch
  split
  case isTrue => exact h
  cases event with
  | answer offset answer =>
    dsimp only
    split
    case h_2 => exact h
    case h_1 part hpart =>
      split
      case h_2 => exact h
      case h_1 data hdata =>
        exact h.handleAnswer hmono offset part (hanswers part hpart data (by rw [hdata]; rfl))
  | worker | reuploaded | originInfo =>
    dsimp only
    split
    · exact h.congr hmono rfl rfl rfl (List.Subset.refl _)
    · exact h
  | cancel => exact h.congr hmono rfl rfl rfl (List.Subset.refl _)

end

theorem cdnInv_start (crypto : FetchCrypto) {good : List (Nat × Bytes) → Nat → Bytes → Prop}
    (hmono : ∀ hashes hashes' offset data, hashes ⊆ hashes' → good hashes offset data → good hashes' offset data)
    (size : Option Nat) (range : NSRange) : CdnInv good (start crypto size range) := by
  have hinit : CdnInv good (FetchManager.init size range) := by
    refine ⟨rfl, ?_, ?_, ?_⟩
    all_goals simp [FetchManager.init]
  exact hinit.checkState hmono

/-- In no run is anything refused: there are never hashes to check by. -/
theorem multipartFetch_unchecked (crypto : FetchCrypto) (size : Option Nat) (range : NSRange) (events : List FetchEvent) :
    AllSteps (stepFetch crypto) (fun s event => (stepFetch crypto s event).cdnFilePartHashes = none ∧
      .failed ∉ (stepFetch crypto s event).outputs) (start crypto size range) events := by
  have hany : ∀ s event, CdnAnswers crypto (fun _ _ _ => True) s event := by
    intro s event
    cases event with
    | answer offset answer => exact fun _ _ _ _ _ _ _ => trivial
    | _ => trivial
  have hmono : ∀ hashes hashes' : List (Nat × Bytes), ∀ (_ : Nat) (_ : Bytes), hashes ⊆ hashes' → True → True :=
    fun _ _ _ _ _ => id
  refine (allSteps_of_forall (E := fun _ => True) (fun _ _ => trivial) (start crypto size range)).of_invariant
    (fun s event (h : CdnInv (fun _ _ _ => True) s) _ => h.step hmono (hany s event)) (fun s event h _ => ?_)
    (cdnInv_start crypto hmono size range)
  have hstep := h.step hmono (hany s event)
  exact ⟨hstep.no_hashes, hstep.accepted⟩

/-- Data of a CDN that was passed on is verified, and none is refused, when the CDN is honest. -/
theorem cdn_verified (crypto : FetchCrypto) (fileLength : Nat) (size : Option Nat) (range : NSRange)
    (_haddr : Addressable fileLength size range) (events : List FetchEvent)
    (hhonest : AllSteps (stepFetch crypto) (HonestCdn crypto fileLength) (start crypto size range) events) :
    AllSteps (stepFetch crypto) (fun s event => CdnVerified crypto fileLength (stepFetch crypto s event))
      (start crypto size range) events := by
  have hmono : ∀ hashes hashes' offset data, hashes ⊆ hashes' → Verified crypto fileLength hashes offset data →
      Verified crypto fileLength hashes' offset data := fun _ _ _ _ hsub hverified => hverified.mono hsub
  refine hhonest.of_invariant (fun s event (h : CdnInv (Verified crypto fileLength) s) hevent => h.step hmono hevent)
    (fun s event h hevent => ?_) (cdnInv_start crypto hmono size range)
  have hstep := h.step hmono hevent
  exact ⟨hstep.ready, hstep.accepted⟩

/-- A file of four bytes, its SHA-256, and the first bytes of the keystream of a zero key. -/
theorem cdn_verified_four :
    let crypto : FetchCrypto := ⟨fun _ => [159, 100, 167, 71, 225, 185, 127, 19, 31, 171, 182, 180, 71, 41, 108, 155, 111, 2,
      1, 231, 159, 179, 197, 53, 110, 108, 119, 232, 155, 106, 128, 106], fun data _ _ => xorBytes data [220, 149, 192, 120]⟩
    let fileData : CdnFileData := ⟨5, [7], List.replicate 32 0, List.replicate 16 0⟩
    AllSteps (stepFetch crypto) (fun s event => CdnVerified crypto 4 (stepFetch crypto s event))
      (start crypto (some 4) ⟨0, 4⟩)
      [.worker, .answer 0 (.fileCdnRedirect fileData [(0, crypto.sha256 [1, 2, 3, 4])]), .worker,
        .answer 0 (.cdnFile [221, 151, 195, 124])] :=
  cdn_verified _ _ _ _ (by decide) _ (by decide +kernel)

/-- The CDN sends other bytes, whose SHA-256 is not the one that came with the redirect. They are passed on. -/
theorem cdn_unverified :
    let crypto : FetchCrypto := ⟨fun _ => [132, 147, 16, 11, 17, 162, 254, 98, 91, 207, 151, 252, 49, 63, 131, 181, 128, 186,
      79, 210, 192, 22, 34, 16, 9, 219, 147, 191, 225, 132, 238, 69], fun data _ _ => xorBytes data [220, 149, 192, 120]⟩
    let fileData : CdnFileData := ⟨5, [7], List.replicate 32 0, List.replicate 16 0⟩
    let hash : Bytes := [159, 100, 167, 71, 225, 185, 127, 19, 31, 171, 182, 180, 71, 41, 108, 155, 111, 2, 1, 231, 159, 179,
      197, 53, 110, 108, 119, 232, 155, 106, 128, 106]
    ¬AllSteps (stepFetch crypto) (fun s event => CdnVerified crypto 4 (stepFetch crypto s event))
      (start crypto (some 4) ⟨0, 4⟩)
      [.worker, .answer 0 (.fileCdnRedirect fileData [(0, hash)]), .worker, .answer 0 (.cdnFile [213, 156, 201, 113])] := by
  intro crypto fileData hash h
  have hready := h.2.2.2.1.verified 0 ⟨[9, 9, 9, 9], true⟩ (by decide +kernel) rfl
  exact absurd hready (by decide +kernel)

end TelegramClient.Fetch
