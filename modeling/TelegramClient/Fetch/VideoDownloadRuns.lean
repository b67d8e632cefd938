import TelegramClient.Fetch.PartDelivery
import TelegramClient.Fetch.VideoDownload
import TelegramClient.Upload.PartSizes

/-!
# A video that is downloaded with interruptions

The position of an actor is the length of the partial file. The iv that belongs to the position is not kept: an actor that
goes on with an encrypted video decrypts with the first iv.

* `Video.file` : what the video is;
* **`videoDownload_intact`** : then the file is intact in every state, in whatever order the parts are answered.
-/

namespace TelegramClient.Fetch
open List (cons_append foldl_cons mem_cons_self take_of_length_le)
open Nat (succ_mul zero_mul)
open Vector (replicate)

open MtProto Upload TGVideoDownloadActor

section
variable (aes : Aes (Block 32)) (v : Video)

/-- The content, or the decryption of all of it, cut to the final size. -/
def Video.file : Bytes :=
  match v.encryption with
  | none => v.content
  | some k =>
    if 0 < v.finalSize then (igePlaintext aes k.key k.iv v.content).take v.finalSize.toNat
    else igePlaintext aes k.key k.iv v.content

/-- What is in the store is the video, all of it. -/
def Intact (s : VideoState) : Prop := ∀ file ∈ s.files.storeFile, file = v.file aes

def Video.CutsLastPart : Prop :=
  v.encryption.isSome → 0 < v.finalSize →
    (((v.content.length - 1) / defaultPartSize * defaultPartSize : Nat) : Int) ≤ v.finalSize

instance : Decidable v.CutsLastPart := inferInstanceAs (Decidable (_ → _ → _))

/-- An encrypted video is begun at its first byte. -/
def StartsAfresh (s : VideoState) : VideoEvent → Prop
  | .start => v.encryption.isSome → (partialFile v s.files.tempStoreFile).2 = 0
  | _ => True

/-- A part behind the first `c`. The last one may be requested with a length that is too large. -/
def IsPart (length c : Nat) (offset partLength : Int) : Prop :=
  ∃ i, c ≤ i ∧ offset = (i * defaultPartSize : Nat) ∧ i * defaultPartSize < length ∧
    (partLength = defaultPartSize ∨ partLength = (length : Int) - (i * defaultPartSize : Nat) ∧ partLength ≤ defaultPartSize)

/-- The actor has written `c` parts. -/
structure Working (c : Nat) (files : VideoFiles) (a : TGVideoDownloadActor) : Prop where
  storeFile : files.storeFile = none
  tempStoreFile : files.tempStoreFile = some ((v.file aes).take (c * defaultPartSize))
  encryptionKey : a.encryptionKey = v.encryption.map VideoKey.key
  runningEncryptionIv : ∀ k ∈ v.encryption, a.runningEncryptionIv =
    some (decryptIvAt aes k.key k.iv v.content (min (c * defaultPartSize) v.content.length / 16))
  finalSize : a.finalSize = v.finalSize
  videoFileLength : a.videoFileLength = v.content.length
  downloadedFileSize : a.downloadedFileSize = (min (c * defaultPartSize) v.content.length : Nat)
  parts : ∀ e ∈ a.downloadingParts.entries, IsPart v.content.length c e.1 e.2.partLength
  downloadedData : ∀ e ∈ a.downloadingParts.entries, ∀ data ∈ e.2.downloadedData,
    data = slice v.content e.1.toNat defaultPartSize
  explicitDownloadParts : c * defaultPartSize < v.content.length → a.explicitDownloadParts = []
  requests : ∀ r ∈ a.requests,
    slice v.content r.offset.toNat r.limit = slice v.content r.offset.toNat defaultPartSize

structure VideoInv (s : VideoState) : Prop where
  intact : Intact aes v s
  partialFile : s.files.storeFile = none → s.files.tempStoreFile = none ∨
    ∃ c, c * defaultPartSize < v.content.length ∧
      s.files.tempStoreFile = some ((v.file aes).take (c * defaultPartSize))
  working : s.files.storeFile = none → ∀ a ∈ s.actor, ∃ c, Working aes v c s.files a

end

/-! ## Slices -/

theorem slice_eq_slice_of_le {bs : Bytes} {offset m n : Nat} (hm : bs.length ≤ offset + m) (hn : bs.length ≤ offset + n) :
    slice bs offset m = slice bs offset n := by
  unfold slice
  rw [take_of_length_le (by rw [List.length_drop]; omega), take_of_length_le (by rw [List.length_drop]; omega)]

theorem slice_take (bs : Bytes) (m offset n : Nat) : slice (bs.take m) offset n = (slice bs offset n).take (m - offset) := by
  unfold slice
  rw [List.drop_take, List.take_take, List.take_take, Nat.min_comm]

theorem take_append_slice (bs : Bytes) (m n : Nat) : bs.take m ++ slice bs m n = bs.take (m + n) := by
  rw [slice, ← List.take_add]

section
variable {aes : Aes (Block 32)} {v : Video} {c : Nat} {files : VideoFiles} {a : TGVideoDownloadActor}

theorem length_file_le (aes : Aes (Block 32)) (v : Video) : (v.file aes).length ≤ v.content.length := by
  unfold Video.file
  cases v.encryption with
  | none => exact le_rfl
  | some k =>
    have hlength : (igePlaintext aes k.key k.iv v.content).length ≤ v.content.length := by
      rw [length_igePlaintext]
      omega
    dsimp only
    split
    · exact (List.length_take_le' _ _).trans hlength
    · exact hlength

/-! ## A part is written -/

theorem decrypt_part (aes : Aes (Block 32)) (key iv : Block 32) {content : Bytes} (hblocks : content.length % 16 = 0)
    (hlt : c * defaultPartSize < content.length) :
    mtAesDecryptInplaceAndModifyIv aes (slice content (c * defaultPartSize) defaultPartSize) key
        (decryptIvAt aes key iv content (min (c * defaultPartSize) content.length / 16)) =
      (slice (igePlaintext aes key iv content) (c * defaultPartSize) defaultPartSize,
        decryptIvAt aes key iv content (min ((c + 1) * defaultPartSize) content.length / 16)) := by
  obtain ⟨l, hl⟩ : ∃ l, 16 * l = min defaultPartSize (content.length - c * defaultPartSize) := by
    refine ⟨min defaultPartSize (content.length - c * defaultPartSize) / 16, ?_⟩
    unfold defaultPartSize at *
    omega
  have hpos : 0 < l := by
    unfold defaultPartSize at hl hlt
    omega
  have hoff : 16 * (c * 8192) = c * defaultPartSize := by
    unfold defaultPartSize
    omega
  have hiv : min (c * defaultPartSize) content.length / 16 = c * 8192 := by omega
  have hnext : min ((c + 1) * defaultPartSize) content.length / 16 = c * 8192 + l := by
    rw [succ_mul]
    omega
  have hpart {bs : Bytes} (hbs : bs.length = content.length) :
      slice bs (16 * (c * 8192)) (16 * l) = slice bs (c * defaultPartSize) defaultPartSize := by
    rw [hoff, hl]
    rcases le_total defaultPartSize (content.length - c * defaultPartSize) with hle | hle
    · rw [min_eq_left hle]
    · exact slice_eq_slice_of_le (by omega) (by omega)
  have hlength : (igePlaintext aes key iv content).length = content.length := by
    rw [length_igePlaintext]
    omega
  have hdecrypt := mtAesDecryptInplaceAndModifyIv_slice aes key iv hblocks (m := c * 8192) (l := l) hpos (by omega)
  rw [hpart rfl, hpart hlength] at hdecrypt
  rw [hiv, hnext, hdecrypt]

theorem Video.CutsLastPart.begin_le (h : v.CutsLastPart) (henc : v.encryption.isSome) (hpos : 0 < v.finalSize)
    (hlt : c * defaultPartSize < v.content.length) : ((c * defaultPartSize : Nat) : Int) ≤ v.finalSize := by
  have hle : c * defaultPartSize ≤ (v.content.length - 1) / defaultPartSize * defaultPartSize :=
    Nat.mul_le_mul_right _ ((Nat.le_div_iff_mul_le (by decide)).mpr (by omega))
  exact (Int.ofNat_le.mpr hle).trans (h henc hpos)

/-- **What is written for the next part** is this part of the file, and its iv is the one of the part after it. -/
theorem Working.dataToWrite (h : Working aes v c files a) (hcut : v.CutsLastPart)
    (hlt : c * defaultPartSize < v.content.length) :
    (dataToWrite aes a (slice v.content (c * defaultPartSize) defaultPartSize)).1 =
        slice (v.file aes) (c * defaultPartSize) defaultPartSize ∧
      ∀ k ∈ v.encryption, (dataToWrite aes a (slice v.content (c * defaultPartSize) defaultPartSize)).2 =
        some (decryptIvAt aes k.key k.iv v.content (min ((c + 1) * defaultPartSize) v.content.length / 16)) := by
  have hkey := h.encryptionKey
  have hiv := h.runningEncryptionIv
  have hsize := h.downloadedFileSize
  have hfinal := h.finalSize
  have hbound := v.size_lt
  have hfinalBound := v.finalSize_lt
  have hblocks := v.blocks
  cases henc : v.encryption with
  | none =>
    rw [henc] at hkey
    refine ⟨?_, fun k hk => nomatch hk⟩
    simp [Fetch.dataToWrite, Video.file, henc, show a.encryptionKey = none from hkey]
  | some k =>
    rw [henc] at hkey
    have hwhole : v.content.length % 16 = 0 := hblocks (by rw [henc]; rfl)
    have hpart := decrypt_part aes k.key k.iv hwhole hlt
    have hlength : (igePlaintext aes k.key k.iv v.content).length = v.content.length := by
      rw [length_igePlaintext]
      omega
    have hend : int32 (a.downloadedFileSize +
        ((slice (igePlaintext aes k.key k.iv v.content) (c * defaultPartSize) defaultPartSize).length : Nat)) =
        (min ((c + 1) * defaultPartSize) v.content.length : Nat) := by
      rw [hsize, length_slice_eq, hlength, succ_mul, int32_of_lt] <;> omega
    have hfile : v.file aes = if 0 < v.finalSize then (igePlaintext aes k.key k.iv v.content).take v.finalSize.toNat
        else igePlaintext aes k.key k.iv v.content := by
      rw [Video.file, henc]
    rw [Fetch.dataToWrite, show a.encryptionKey = some k.key from hkey, hiv k (by rw [henc]; rfl)]
    dsimp only
    rw [hpart]
    dsimp only
    rw [hend, hfinal]
    split
    · rename_i hover
      have hpos : 0 < v.finalSize := by omega
      have hrest : int32 (v.finalSize - a.downloadedFileSize) = v.finalSize - a.downloadedFileSize :=
        int32_of_lt (by omega) (by omega)
      refine ⟨?_, fun k' hk' => ?_⟩
      · rw [hfile, if_pos hpos, slice_take, hrest]
        dsimp only
        congr 1
        omega
      · obtain rfl : k = k' := by simpa using hk'
        rfl
    · rename_i hover
      refine ⟨?_, fun k' hk' => ?_⟩
      · rw [hfile]
        split
        · rename_i hpos
          have hbegin := hcut.begin_le (by rw [henc]; rfl) hpos hlt
          have hle : ((min ((c + 1) * defaultPartSize) v.content.length : Nat) : Int) ≤ v.finalSize :=
            not_lt.mp fun hgt => hover ⟨hpos.ne', by rw [hsize, min_eq_left hlt.le]; exact hbegin, hgt⟩
          rw [succ_mul] at hle
          rw [slice_take, take_of_length_le]
          rw [length_slice_eq, hlength]
          clear hover
          generalize defaultPartSize = partSize at *
          omega
        · rfl
      · obtain rfl : k = k' := by simpa using hk'
        rfl

variable {offset : Int}

variable {length : Nat} {partLength : Int}

theorem IsPart.partLength_le (h : IsPart length c offset partLength) : partLength ≤ defaultPartSize := by
  obtain ⟨i, _, _, _, hlength | ⟨_, hle⟩⟩ := h
  · exact hlength.le
  · exact hle

theorem IsPart.behind (h : IsPart length c offset partLength) (hne : offset ≠ (c * defaultPartSize : Nat)) :
    IsPart length (c + 1) offset partLength := by
  obtain ⟨i, hi, hoff, hlt, hlength⟩ := h
  have hic : i ≠ c := fun heq => hne (heq ▸ hoff)
  exact ⟨i, by omega, hoff, hlt, hlength⟩

variable {part : TGVideoPartData}

section
variable (h : Working aes v c files a)
include h

/-- **A part whose turn it is** is written, and the actor has written one more. -/
theorem Working.commitPart (hcut : v.CutsLastPart) {data : Bytes}
    (hlook : a.downloadingParts.lookup a.downloadedFileSize = some part) (hdata : part.downloadedData = some data) :
    Working aes v (c + 1) (commitPart aes a.downloadedFileSize part.partLength data files a).1
      (commitPart aes a.downloadedFileSize part.partLength data files a).2 := by
  have hm := a.downloadingParts.lookup_eq_some.mp hlook
  have hsize := h.downloadedFileSize
  have hbound := v.size_lt
  -- The part is the next one, and not the end of the file.
  have hlt : c * defaultPartSize < v.content.length := by
    obtain ⟨i, _, hoff, hlt, _⟩ := h.parts _ hm
    dsimp only at hoff
    omega
  have hoff : a.downloadedFileSize = (c * defaultPartSize : Nat) := by rw [hsize, min_eq_left hlt.le]
  have hslice : data = slice v.content (c * defaultPartSize) defaultPartSize := by
    have hdata := h.downloadedData _ hm data hdata
    dsimp only at hdata
    rw [hdata, hoff, Int.toNat_natCast]
  have hnext : int32 (a.downloadedFileSize + (data.length : Nat)) = (min ((c + 1) * defaultPartSize) v.content.length : Nat) := by
    rw [hoff, hslice, length_slice_eq, succ_mul, int32_of_lt] <;> omega
  obtain ⟨hwritten, hiv⟩ := h.dataToWrite hcut hlt
  rw [← hslice] at hwritten hiv
  exact {
    storeFile := h.storeFile
    tempStoreFile := by
      show files.tempStoreFile.map (· ++ (Fetch.dataToWrite aes a data).1) = _
      rw [h.tempStoreFile, hwritten, Option.map_some, take_append_slice, succ_mul]
    encryptionKey := h.encryptionKey
    runningEncryptionIv := hiv
    finalSize := h.finalSize
    videoFileLength := h.videoFileLength
    downloadedFileSize := hnext
    parts := by
      intro e he
      obtain ⟨he, hne⟩ := a.downloadingParts.mem_erase.mp he
      exact (h.parts e he).behind (hoff ▸ hne)
    downloadedData := fun e he => h.downloadedData e (a.downloadingParts.mem_erase.mp he).1
    explicitDownloadParts := by
      intro hmore
      show a.explicitDownloadParts ++ _ = []
      rw [h.explicitDownloadParts hlt, List.nil_append, if_neg]
      -- A part before the last one is as long as it can be.
      have hlength : data.length = defaultPartSize := by
        rw [succ_mul] at hmore
        rw [hslice, length_slice_eq]
        omega
      have hle := (h.parts _ hm).partLength_le
      dsimp only at hle
      omega
    requests := h.requests }

theorem Working.commitParts (hcut : v.CutsLastPart) (offsets : List Int) :
    ∃ c', Working aes v c' (commitParts aes offsets files a).2.1 (commitParts aes offsets files a).2.2 := by
  induction offsets generalizing c files a with
  | nil => exact ⟨c, h⟩
  | cons offset offsets ih =>
    unfold Fetch.commitParts
    split
    · rename_i hoff
      subst hoff
      split
      · rename_i hlook
        exact ih (h.commitPart hcut hlook rfl)
      · exact ⟨c, h⟩
    · exact ih h

theorem Working.commitLoop (hcut : v.CutsLastPart) (fuel : Nat) (offsets : List Int) :
    ∃ c', Working aes v c' (commitLoop aes fuel offsets files a).1 (commitLoop aes fuel offsets files a).2 := by
  induction fuel generalizing c files a with
  | zero => exact ⟨c, h⟩
  | succ fuel ih =>
    obtain ⟨c', hc'⟩ := h.commitParts hcut offsets
    unfold Fetch.commitLoop
    split
    · rename_i hparts
      rw [hparts] at hc'
      exact ih hc'
    · rename_i hparts
      rw [hparts] at hc'
      exact ⟨c', hc'⟩

theorem Working.commitAll (hcut : v.CutsLastPart) :
    ∃ c', Working aes v c' (commitAll aes files a).1 (commitAll aes files a).2 :=
  h.commitLoop hcut _ _

end

/-! ## Requests -/

theorem int32_of_nonneg {x : Int} (h : 0 ≤ int32 x) (hlow : 0 ≤ x) (hhigh : x < 2 ^ 32) : int32 x = x := by
  unfold int32 at *
  rw [Int.bmod_def] at *
  omega

theorem foldl_greater_cases {α : Type} (f : α → Int) (l : List α) (init : Int) :
    init ≤ l.foldl (fun next e => if f e > next then f e else next) init ∧
      (l.foldl (fun next e => if f e > next then f e else next) init = init ∨
        ∃ e ∈ l, l.foldl (fun next e => if f e > next then f e else next) init = f e) := by
  induction l generalizing init with
  | nil => exact ⟨le_rfl, .inl rfl⟩
  | cons a l ih =>
    rw [foldl_cons]
    obtain ⟨hle, hcases⟩ := ih (if f a > init then f a else init)
    have hinit : init ≤ if f a > init then f a else init := by
      split
      · rename_i hgt
        exact hgt.le
      · exact le_rfl
    refine ⟨hinit.trans hle, ?_⟩
    rcases hcases with h | ⟨e, he, h⟩
    · rw [h]
      split
      · exact .inr ⟨a, mem_cons_self, rfl⟩
      · exact .inl rfl
    · exact .inr ⟨e, List.mem_cons_of_mem _ he, h⟩

/-- The next part begins where the actor is, or where another part ends. Where the end of the last part is too large for
an `int`, it counts as negative. -/
theorem Working.nextDownloadOffset (h : Working aes v c files a) (hlt : c * defaultPartSize < v.content.length)
    (hnext : a.nextDownloadOffset < a.videoFileLength) :
    ∃ j, c ≤ j ∧ a.nextDownloadOffset = (j * defaultPartSize : Nat) ∧ j * defaultPartSize < v.content.length := by
  have hbound := v.size_lt
  have hsize : a.downloadedFileSize = (c * defaultPartSize : Nat) := by rw [h.downloadedFileSize, min_eq_left hlt.le]
  rw [h.videoFileLength] at hnext
  obtain ⟨hge, hcases⟩ := foldl_greater_cases (fun e : Int × TGVideoPartData => int32 (e.1 + e.2.partLength))
    a.downloadingParts.entries a.downloadedFileSize
  change a.downloadedFileSize ≤ a.nextDownloadOffset at hge
  change a.nextDownloadOffset = a.downloadedFileSize ∨ ∃ e ∈ a.downloadingParts.entries,
    a.nextDownloadOffset = int32 (e.1 + e.2.partLength) at hcases
  rcases hcases with heq | ⟨e, he, heq⟩
  · exact ⟨c, le_rfl, heq.trans hsize, hlt⟩
  · obtain ⟨i, hi, hoff, hilt, hlength⟩ := h.parts e he
    have hend : a.nextDownloadOffset = e.1 + e.2.partLength := by
      rw [heq]
      refine int32_of_nonneg (by omega) ?_ ?_
      · rcases hlength with hlength | ⟨hlength, _⟩ <;> omega
      · rcases hlength with hlength | ⟨hlength, _⟩ <;> unfold defaultPartSize at * <;> omega
    rcases hlength with hlength | ⟨hlength, _⟩
    · have hsucc : a.nextDownloadOffset = ((i + 1) * defaultPartSize : Nat) := by
        rw [succ_mul, hend, hoff, hlength, Nat.cast_add]
      exact ⟨i + 1, by omega, hsucc, by omega⟩
    · omega

theorem Working.requestPart (h : Working aes v c files a) (hlt : c * defaultPartSize < v.content.length)
    (hnext : a.nextDownloadOffset < a.videoFileLength) : Working aes v c files (a.requestPart a.nextDownloadOffset
      (min preferredPartSize (int32 (a.videoFileLength - a.downloadedFileSize)))) := by
  have hbound := v.size_lt
  have hsize : a.downloadedFileSize = (c * defaultPartSize : Nat) := by rw [h.downloadedFileSize, min_eq_left hlt.le]
  have hrest : int32 (a.videoFileLength - a.downloadedFileSize) = v.content.length - (c * defaultPartSize : Nat) := by
    rw [h.videoFileLength, hsize, int32_of_lt] <;> omega
  obtain ⟨j, hj, hoff, hjlt⟩ := h.nextDownloadOffset hlt hnext
  rw [hrest, hoff]
  generalize hlength : min preferredPartSize ((v.content.length : Int) - (c * defaultPartSize : Nat)) = length
  have hpart : length = defaultPartSize ∨
      length = (v.content.length : Int) - (j * defaultPartSize : Nat) ∧ length ≤ defaultPartSize := by
    rw [show preferredPartSize = (defaultPartSize : Nat) from rfl] at hlength
    rcases le_total ((defaultPartSize : Nat) : Int) ((v.content.length : Int) - (c * defaultPartSize : Nat)) with hle | hle
    · rw [min_eq_left hle] at hlength
      exact .inl hlength.symm
    · rw [min_eq_right hle] at hlength
      -- Only the last part is left.
      obtain rfl : c = j := by
        by_contra hne
        have hbehind := Nat.mul_le_mul_right defaultPartSize (show c + 1 ≤ j by omega)
        rw [succ_mul] at hbehind
        omega
      exact .inr ⟨hlength.symm, hlength ▸ hle⟩
  have hlimit : slice v.content (j * defaultPartSize) (updatedLimit length.toNat) =
      slice v.content (j * defaultPartSize) defaultPartSize := by
    rcases hpart with hpart | ⟨hpart, hle⟩
    · rw [hpart, Int.toNat_natCast, updatedLimit_eq (by decide)]
    · have hge := le_updatedLimit length.toNat
      exact slice_eq_slice_of_le (by omega) (by omega)
  exact {
    h with
    parts := by
      intro e he
      rcases (a.downloadingParts.mem_insert).mp he with rfl | ⟨he, _⟩
      · exact ⟨j, hj, rfl, hjlt, hpart⟩
      · exact h.parts e he
    downloadedData := by
      intro e he
      rcases (a.downloadingParts.mem_insert).mp he with rfl | ⟨he, _⟩
      · exact fun data hdata => nomatch hdata
      · exact h.downloadedData e he
    requests := by
      intro r hr
      rcases List.mem_append.mp hr with hr | hr
      · exact h.requests r hr
      · obtain rfl := List.mem_singleton.mp hr
        exact hlimit }

theorem Working.requestParts (h : Working aes v c files a) (hlt : c * defaultPartSize < v.content.length) (free : Nat) :
    Working aes v c files (requestParts free a) := by
  induction free generalizing a with
  | zero => exact h
  | succ free ih =>
    unfold TGVideoDownloadActor.requestParts
    rw [h.explicitDownloadParts hlt]
    dsimp only
    split
    · exact h
    · rename_i hnext
      exact ih (h.requestPart hlt (not_le.mp hnext))

/-! ## Steps -/

variable {s : VideoState}

theorem downloadFileParts_of_lt (h : a.downloadedFileSize < a.videoFileLength) (hworker : a.worker1 = true) :
    downloadFileParts s a = { s with actor := some (requestParts (4 - a.activeDownloadingParts) a) } := by
  rw [downloadFileParts, if_neg (not_le.mpr h), if_pos hworker]

theorem downloadFileParts_of_ge (h : a.videoFileLength ≤ a.downloadedFileSize)
    (hmove : s.files.moveItem = some files) :
    downloadFileParts s a = { files := files, actor := some a, results := s.results ++ [.completed] } := by
  rw [downloadFileParts, if_pos h, hmove]

theorem Working.videoInv (h : Working aes v c s.files a) (hlt : c * defaultPartSize < v.content.length) :
    VideoInv aes v { s with actor := some a } where
  intact file hfile := by
    have hnone := h.storeFile
    rw [show s.files.storeFile = some file from hfile] at hnone
    nomatch hnone
  partialFile _ := .inr ⟨c, hlt, h.tempStoreFile⟩
  working _ a' ha' := by
    obtain rfl : a = a' := Option.some.inj ha'
    exact ⟨c, h⟩

theorem Working.downloadFileParts (h : Working aes v c s.files a) : VideoInv aes v (downloadFileParts s a) := by
  have hsize := h.downloadedFileSize
  have hlength := h.videoFileLength
  rcases lt_or_ge (c * defaultPartSize) v.content.length with hlt | hge
  · cases hworker : a.worker1 with
    | true =>
      rw [downloadFileParts_of_lt (by omega) hworker]
      exact (h.requestParts hlt _).videoInv hlt
    | false =>
      rw [Fetch.downloadFileParts, if_neg (by omega), if_neg (by rw [hworker]; decide)]
      exact h.videoInv hlt
  · -- All of the file has been written.
    have hall : (v.file aes).take (c * defaultPartSize) = v.file aes :=
      take_of_length_le ((length_file_le aes v).trans hge)
    have hmoved : s.files.moveItem = some ⟨none, some (v.file aes)⟩ := by
      rw [VideoFiles.moveItem, h.tempStoreFile, h.storeFile, hall]
    rw [downloadFileParts_of_ge (by omega) hmoved]
    exact {
      intact := fun file hfile => (Option.some.inj hfile).symm
      partialFile := fun hnone => nomatch hnone
      working := fun hnone => nomatch hnone }

theorem Working.setData (h : Working aes v c files a) (hlook : a.downloadingParts.lookup offset = some part) :
    Working aes v c files (a.setData offset part (slice v.content offset.toNat defaultPartSize)) := {
  h with
  parts := by
    intro e he
    rcases (a.downloadingParts.mem_insert).mp he with rfl | ⟨he, _⟩
    · exact h.parts (offset, part) (a.downloadingParts.lookup_eq_some.mp hlook)
    · exact h.parts e he
  downloadedData := by
    intro e he
    rcases (a.downloadingParts.mem_insert).mp he with rfl | ⟨he, _⟩
    · exact fun data hdata => (Option.some.inj hdata).symm
    · exact h.downloadedData e he }

theorem Working.videoPartDownloadSuccess (h : Working aes v c s.files a) (hcut : v.CutsLastPart)
    (hs : VideoInv aes v s) (offset : Int) :
    VideoInv aes v (videoPartDownloadSuccess aes s a offset (slice v.content offset.toNat defaultPartSize)) := by
  unfold Fetch.videoPartDownloadSuccess
  split
  · exact {
      intact := hs.intact
      partialFile := hs.partialFile
      working := fun _ a' ha' => by
        obtain rfl : a = a' := Option.some.inj ha'
        exact ⟨c, h⟩ }
  · rename_i part hlook
    obtain ⟨c', hc'⟩ := (h.setData hlook).commitAll hcut
    exact Working.downloadFileParts (c := c') hc'

/-! ## The file in the store -/

theorem storeFile_commitParts (aes : Aes (Block 32)) (offsets : List Int) (files : VideoFiles) (a : TGVideoDownloadActor) :
    (commitParts aes offsets files a).2.1.storeFile = files.storeFile := by
  induction offsets generalizing files a with
  | nil => rfl
  | cons offset offsets ih =>
    unfold commitParts
    split
    · split
      · exact ih _ _
      · rfl
    · exact ih _ _

theorem storeFile_commitLoop (aes : Aes (Block 32)) (fuel : Nat) (offsets : List Int) (files : VideoFiles)
    (a : TGVideoDownloadActor) : (commitLoop aes fuel offsets files a).1.storeFile = files.storeFile := by
  induction fuel generalizing files a with
  | zero => rfl
  | succ fuel ih =>
    have hparts := storeFile_commitParts aes offsets files a
    unfold commitLoop
    split
    · rename_i heq
      rw [heq] at hparts
      exact (ih _ _).trans hparts
    · rename_i heq
      rw [heq] at hparts
      exact hparts

theorem storeFile_commitAll (aes : Aes (Block 32)) (files : VideoFiles) (a : TGVideoDownloadActor) :
    (commitAll aes files a).1.storeFile = files.storeFile :=
  storeFile_commitLoop aes _ _ files a

variable {file : Bytes}

theorem storeFile_downloadFileParts (h : s.files.storeFile = some file) (a : TGVideoDownloadActor) :
    (downloadFileParts s a).files.storeFile = some file := by
  have hmove : s.files.moveItem = none := by
    unfold VideoFiles.moveItem
    rw [h]
    cases s.files.tempStoreFile <;> rfl
  unfold downloadFileParts
  rw [hmove]
  split
  · exact h
  · split
    · exact h
    · exact h

theorem storeFile_stepVideo (h : s.files.storeFile = some file) (event : VideoEvent) :
    (stepVideo aes v s event).files.storeFile = some file := by
  unfold stepVideo
  split
  · unfold execute
    split
    · exact h
    · rw [if_pos (by rw [h]; rfl)]
      exact h
  · exact h
  · exact h
  · exact storeFile_downloadFileParts h _
  · exact storeFile_downloadFileParts h _
  · split
    · unfold Fetch.videoPartDownloadSuccess
      split
      · exact h
      · refine storeFile_downloadFileParts ?_ _
        exact (storeFile_commitAll aes s.files _).trans h
    · exact h
  · exact h

/-! ## Runs -/

variable {fileSize : Int}

theorem partialFile_some (hround : v.roundMessage = false) {bytes : Bytes}
    (hsize : int32 bytes.length = fileSize) (hdvd : fileSize % 1024 = 0) :
    partialFile v (some bytes) = (bytes, fileSize) := by
  rw [partialFile, hsize, if_neg (not_not.mpr hdvd), if_neg (by rw [hround]; simp)]

theorem partialFile_cases (v : Video) (tempStoreFile : Option Bytes) : partialFile v tempStoreFile = ([], 0) ∨
      ∃ bytes, tempStoreFile = some bytes ∧ partialFile v tempStoreFile = (bytes, int32 bytes.length) := by
  cases tempStoreFile with
  | none => exact .inl rfl
  | some bytes =>
    unfold partialFile
    dsimp only
    split
    · exact .inl rfl
    · split
      · exact .inl rfl
      · exact .inr ⟨bytes, rfl, rfl⟩

theorem VideoInv.begins (h : VideoInv aes v s) (hstore : s.files.storeFile = none) (hcont : v.content.length ≠ 0)
    (hstart : StartsAfresh v s .start) : ∃ c, c * defaultPartSize < v.content.length ∧
      (Fetch.partialFile v s.files.tempStoreFile).1 = (v.file aes).take (c * defaultPartSize) ∧
      (Fetch.partialFile v s.files.tempStoreFile).2 = (c * defaultPartSize : Nat) ∧
      (v.encryption.isSome → c = 0) := by
  have hzero : 0 * defaultPartSize < v.content.length := by
    rw [zero_mul]
    omega
  rcases partialFile_cases v s.files.tempStoreFile with heq | ⟨bytes, htemp, heq⟩
  · exact ⟨0, hzero, by rw [heq, zero_mul, List.take_zero], by rw [heq, zero_mul]; rfl, fun _ => rfl⟩
  · rcases h.partialFile hstore with hnone | ⟨c, hlt, htemp'⟩
    · rw [htemp] at hnone
      nomatch hnone
    obtain rfl : bytes = (v.file aes).take (c * defaultPartSize) := Option.some.inj (htemp.symm.trans htemp')
    have hbound := v.size_lt
    have hlength := (List.length_take_le' (c * defaultPartSize) (v.file aes)).trans (length_file_le aes v)
    have hint : int32 ((v.file aes).take (c * defaultPartSize)).length =
        (((v.file aes).take (c * defaultPartSize)).length : Nat) := int32_of_lt (by omega) (by omega)
    rw [hint] at heq
    cases henc : v.encryption with
    | none =>
      have hfile : v.file aes = v.content := by rw [Video.file, henc]
      refine ⟨c, hlt, by rw [heq], ?_, fun hsome => nomatch hsome⟩
      rw [heq, hfile, List.length_take, min_eq_left hlt.le]
    | some k =>
      have hsize : (Fetch.partialFile v s.files.tempStoreFile).2 = 0 := hstart (by rw [henc]; rfl)
      have hempty : (v.file aes).take (c * defaultPartSize) = [] := by
        rw [heq] at hsize
        exact List.length_eq_zero_iff.mp (Int.natCast_eq_zero.mp hsize)
      exact ⟨0, hzero, by rw [heq, hempty, zero_mul, List.take_zero], by rw [hsize, zero_mul]; rfl, fun _ => rfl⟩

theorem execute_eq (hcont : v.content.length ≠ 0) (hstore : s.files.storeFile = none)
    (hbegin : partialFile v s.files.tempStoreFile = (file, fileSize)) :
    execute v s = { s with files := { s.files with tempStoreFile := some file }, actor := some (.init v fileSize) } := by
  rw [execute, if_neg hcont, if_neg (by rw [hstore]; decide), hbegin]

theorem working_init (hstore : files.storeFile = none)
    (htemp : files.tempStoreFile = some ((v.file aes).take (c * defaultPartSize)))
    (hlt : c * defaultPartSize < v.content.length) (hsize : fileSize = (c * defaultPartSize : Nat))
    (hzero : v.encryption.isSome → c = 0) : Working aes v c files (.init v fileSize) where
  storeFile := hstore
  tempStoreFile := htemp
  encryptionKey := rfl
  runningEncryptionIv := by
    intro k hk
    obtain rfl := hzero (by rw [hk]; rfl)
    rw [zero_mul, Nat.zero_min, Nat.zero_div, decryptIvAt_zero]
    exact congrArg (Option.map VideoKey.iv) hk
  finalSize := rfl
  videoFileLength := rfl
  downloadedFileSize := by
    rw [min_eq_left hlt.le]
    exact hsize
  parts e he := nomatch he
  downloadedData e he := nomatch he
  explicitDownloadParts _ := rfl
  requests r hr := nomatch hr

theorem VideoInv.execute (h : VideoInv aes v s) (hstart : StartsAfresh v s .start) : VideoInv aes v (execute v s) := by
  by_cases hcont : v.content.length = 0
  · rw [Fetch.execute, if_pos hcont]
    exact { h with }
  cases hstore : s.files.storeFile with
  | some file =>
    rw [Fetch.execute, if_neg hcont, if_pos (by rw [hstore]; rfl)]
    exact { h with }
  | none =>
    obtain ⟨c, hlt, hfile, hsize, hzero⟩ := h.begins hstore hcont hstart
    rw [execute_eq hcont hstore rfl]
    exact {
      intact := h.intact
      partialFile := fun _ => .inr ⟨c, hlt, congrArg some hfile⟩
      working := by
        intro _ a ha
        obtain rfl := Option.some.inj ha
        exact ⟨c, working_init hstore (congrArg some hfile) hlt hsize hzero⟩ }

theorem VideoInv.step {event : VideoEvent} (hcut : v.CutsLastPart) (h : VideoInv aes v s)
    (hstart : StartsAfresh v s event) : VideoInv aes v (stepVideo aes v s event) := by
  cases hstore : s.files.storeFile with
  | some file =>
    have hnext : (stepVideo aes v s event).files.storeFile = some file := storeFile_stepVideo hstore event
    have hnot {p : Prop} (hnone : (stepVideo aes v s event).files.storeFile = none) : p := by
      rw [hnext] at hnone
      nomatch hnone
    exact {
      intact := by
        unfold Intact
        rw [hnext, ← hstore]
        exact h.intact
      partialFile := fun hnone => hnot hnone
      working := fun hnone => hnot hnone }
  | none =>
    unfold stepVideo
    split
    · exact h.execute hstart
    · exact h
    · exact h
    · rename_i a hactor
      obtain ⟨c, hc⟩ := h.working hstore a hactor
      exact Working.downloadFileParts (c := c) { hc with }
    · rename_i a hactor
      obtain ⟨c, hc⟩ := h.working hstore a hactor
      exact Working.downloadFileParts (c := c) { hc with }
    · rename_i a request hactor
      obtain ⟨c, hc⟩ := h.working hstore a hactor
      split
      · rename_i hreq
        rw [hc.requests request hreq]
        have hanswered : Working aes v c s.files { a with requests := a.requests.erase request } :=
          { hc with requests := fun r hr => hc.requests r (List.mem_of_mem_erase hr) }
        exact hanswered.videoPartDownloadSuccess hcut h request.offset
      · exact h
    · exact {
        intact := h.intact
        partialFile := h.partialFile
        working := fun _ a ha => nomatch ha }

theorem videoInv_init (aes : Aes (Block 32)) (v : Video) : VideoInv aes v .init where
  intact _ hfile := nomatch hfile
  partialFile _ := .inl rfl
  working _ _ ha := nomatch ha

end

/-! ## An actor and its first part -/

section
variable {aes : Aes (Block 32)} {v : Video} {files : VideoFiles} {a a' : TGVideoDownloadActor} {offset : Int}

/-- The part whose turn it is has no data. -/
def Waits (a : TGVideoDownloadActor) : Prop :=
  ∀ part, a.downloadingParts.lookup a.downloadedFileSize = some part → part.downloadedData = none

theorem Waits.commitParts (h : Waits a) (aes : Aes (Block 32)) (offsets : List Int) (files : VideoFiles) :
    commitParts aes offsets files a = (false, files, a) := by
  induction offsets with
  | nil => rfl
  | cons offset offsets ih =>
    unfold Fetch.commitParts
    split
    · rename_i hoff
      subst hoff
      split
      · rename_i hlook
        nomatch h _ hlook
      · rfl
    · exact ih

theorem Waits.commitLoop (h : Waits a) (aes : Aes (Block 32)) (fuel : Nat) (offsets : List Int) (files : VideoFiles) :
    commitLoop aes fuel offsets files a = (files, a) := by
  cases fuel with
  | zero => rfl
  | succ fuel => rw [Fetch.commitLoop, h.commitParts]

variable {part : TGVideoPartData} {data : Bytes}

section
variable (hlook : a.downloadingParts.lookup a.downloadedFileSize = some part)
include hlook

theorem commitParts_next (hdata : part.downloadedData = some data)
    (hwaits : Waits (commitPart aes a.downloadedFileSize part.partLength data files a).2) {offsets : List Int}
    (hm : a.downloadedFileSize ∈ offsets) :
    commitParts aes offsets files a = (true, commitPart aes a.downloadedFileSize part.partLength data files a) := by
  induction offsets with
  | nil => nomatch hm
  | cons offset offsets ih =>
    unfold commitParts
    obtain ⟨partOffset, partLength, downloadedData⟩ := part
    obtain rfl : downloadedData = some data := hdata
    split
    · rename_i hoff
      subst hoff
      rw [hlook]
      dsimp only
      rw [hwaits.commitParts]
    · rename_i hne
      exact ih (List.mem_of_ne_of_mem (Ne.symm hne) hm)

/-- Where only one part can be written, it is the only one that is. -/
theorem commitAll_next (hdata : part.downloadedData = some data)
    (hwaits : Waits (commitPart aes a.downloadedFileSize part.partLength data files a).2) :
    commitAll aes files a = commitPart aes a.downloadedFileSize part.partLength data files a := by
  have hm := List.mem_map_of_mem (f := Prod.fst) (a.downloadingParts.lookup_eq_some.mp hlook)
  rw [commitAll, commitLoop, commitParts_next hlook hdata hwaits hm]
  exact hwaits.commitLoop aes _ _ _

end

/-- The actor is `a` but for its requests, which `request` is one of, and none of them has been answered. -/
structure Asks (request : VideoPartRequest) (a a' : TGVideoDownloadActor) : Prop where
  dataToWrite : ∀ aes data, dataToWrite aes a' data = dataToWrite aes a data
  downloadedFileSize : a'.downloadedFileSize = a.downloadedFileSize
  videoFileLength : a'.videoFileLength = a.videoFileLength
  asked : request ∈ a'.requests
  part : ∃ part, (request.offset, part) ∈ a'.downloadingParts.entries
  downloadedData : ∀ e ∈ a'.downloadingParts.entries, e.2.downloadedData = none

variable {request : VideoPartRequest}

theorem Asks.requestPart (h : Asks request a a') (offset length : Int) :
    Asks request a (a'.requestPart offset length) := {
  h with
  asked := List.mem_append_left _ h.asked
  part := by
    obtain ⟨part, hpart⟩ := h.part
    by_cases heq : request.offset = offset
    · exact ⟨_, a'.downloadingParts.mem_insert.mpr (.inl (by rw [heq]))⟩
    · exact ⟨part, a'.downloadingParts.mem_insert.mpr (.inr ⟨hpart, heq⟩)⟩
  downloadedData := by
    intro e he
    rcases a'.downloadingParts.mem_insert.mp he with rfl | ⟨he, _⟩
    · rfl
    · exact h.downloadedData e he }

theorem Asks.requestParts (h : Asks request a a') (free : Nat) : Asks request a (requestParts free a') := by
  induction free generalizing a' with
  | zero => exact h
  | succ free ih =>
    unfold TGVideoDownloadActor.requestParts
    split
    · split
      · exact h
      · exact ih (h.requestPart _ _)
    · rename_i explicitDownloadParts _
      have hrest : Asks request a { a' with explicitDownloadParts := explicitDownloadParts } := { h with }
      exact ih (hrest.requestPart _ _)

theorem asks_init {length : Int} (hlt : offset < v.content.length)
    (hlength : min preferredPartSize (int32 (v.content.length - offset)) = length) :
    Asks ⟨offset, length, updatedLimit length.toNat⟩ (.init v offset)
      (requestParts 4 { TGVideoDownloadActor.init v offset with worker1 := true }) := by
  have hnext : nextDownloadOffset { TGVideoDownloadActor.init v offset with worker1 := true } = offset := rfl
  have hexplicit : { TGVideoDownloadActor.init v offset with worker1 := true }.explicitDownloadParts = [] := rfl
  unfold TGVideoDownloadActor.requestParts
  rw [hexplicit, hnext]
  dsimp only
  rw [if_neg (show ¬ offset ≥ (TGVideoDownloadActor.init v offset).videoFileLength from not_le.mpr hlt)]
  refine Asks.requestParts ?_ 3
  exact {
    dataToWrite := fun _ _ => rfl
    downloadedFileSize := rfl
    videoFileLength := rfl
    asked := List.mem_singleton.mpr (by rw [← hlength]; rfl)
    part := ⟨_, mem_cons_self⟩
    downloadedData := fun e he => by rw [List.mem_singleton.mp he] }

variable {s : VideoState}

theorem files_downloadFileParts (s : VideoState) (a : TGVideoDownloadActor) : (downloadFileParts s a).files =
    if a.videoFileLength ≤ a.downloadedFileSize then s.files.moveItem.getD s.files else s.files := by
  unfold downloadFileParts
  split
  · cases s.files.moveItem <;> rfl
  · split <;> rfl

/-- **The first part of an actor** is written as soon as it is answered. -/
theorem Asks.files_answer (h : Asks request (.init v request.offset) a) (hactor : s.actor = some a) {data : Bytes}
    (hdata : slice v.content request.offset.toNat request.limit = data) :
    (stepVideo aes v s (.answer request)).files =
      let files := s.files.writeData (Fetch.dataToWrite aes (.init v request.offset) data).1
      if v.content.length ≤ int32 (request.offset + data.length) then files.moveItem.getD files else files := by
  obtain ⟨part, hpart⟩ := h.part
  unfold stepVideo
  rw [hactor]
  dsimp only
  rw [if_pos h.asked, videoPartDownloadSuccess]
  dsimp only
  rw [a.downloadingParts.lookup_eq_some.mpr hpart, hdata]
  dsimp only
  generalize hanswered : setData { a with requests := a.requests.erase request } request.offset part data = a'
  have hsize : a'.downloadedFileSize = request.offset := hanswered ▸ h.downloadedFileSize
  have hwritten : Fetch.dataToWrite aes a' data = Fetch.dataToWrite aes (.init v request.offset) data := by
    rw [← h.dataToWrite, ← hanswered]
    rfl
  have hlook : a'.downloadingParts.lookup a'.downloadedFileSize = some { part with downloadedData := some data } := by
    rw [hsize, ← hanswered]
    exact (SortedTable.lookup_eq_some _).mpr ((SortedTable.mem_insert _).mpr (.inl rfl))
  have hothers : ∀ e ∈ a'.downloadingParts.entries, e.1 ≠ request.offset → e.2.downloadedData = none := by
    intro e he hne
    rw [← hanswered] at he
    rcases a.downloadingParts.mem_insert.mp he with rfl | ⟨he, _⟩
    · exact absurd rfl hne
    · exact h.downloadedData e he
  have hwaits : Waits (commitPart aes a'.downloadedFileSize part.partLength data s.files a').2 := by
    intro other hother
    obtain ⟨hm, hne⟩ := a'.downloadingParts.mem_erase.mp ((SortedTable.lookup_eq_some _).mp hother)
    exact hothers _ hm (hsize ▸ hne)
  rw [commitAll_next hlook rfl hwaits, files_downloadFileParts]
  have hlength : a'.videoFileLength = v.content.length := hanswered ▸ h.videoFileLength
  simp only [commitPart, hsize, hwritten, hlength]

theorem stepVideo_cancel (aes : Aes (Block 32)) (v : Video) (s : VideoState) :
    stepVideo aes v s .cancel = { s with actor := none } := by
  obtain ⟨files, _ | a, results⟩ := s <;> rfl

/-- **What an actor leaves** that is gone behind the answer to its first request. -/
theorem run_firstPart {file data : Bytes} {length : Int} {limit : Nat} (hcont : v.content.length ≠ 0) (hstore : files.storeFile = none)
    (hbegin : partialFile v files.tempStoreFile = (file, offset)) (hlt : offset < v.content.length)
    (hlength : min preferredPartSize (int32 (v.content.length - offset)) = length)
    (hlimit : updatedLimit length.toNat = limit) (hdata : slice v.content offset.toNat limit = data)
    (results : List VideoResult) :
    ([VideoEvent.start, .worker, .answer ⟨offset, length, limit⟩].foldl (stepVideo aes v) ⟨files, none, results⟩).files =
      let written := file ++ (Fetch.dataToWrite aes (.init v offset) data).1
      if v.content.length ≤ int32 (offset + data.length) then ⟨none, some written⟩ else ⟨some written, none⟩ := by
  have hstart : stepVideo aes v ⟨files, none, results⟩ .start = ⟨⟨some file, none⟩, some (.init v offset), results⟩ :=
    (execute_eq hcont hstore hbegin).trans (by simp only [hstore])
  have hworker : stepVideo aes v ⟨⟨some file, none⟩, some (.init v offset), results⟩ .worker =
      ⟨⟨some file, none⟩, some (requestParts 4 { TGVideoDownloadActor.init v offset with worker1 := true }), results⟩ :=
    downloadFileParts_of_lt hlt rfl
  have hasks := asks_init hlt hlength
  rw [hlimit] at hasks
  rw [foldl_cons, hstart, foldl_cons, hworker, foldl_cons, List.foldl_nil, hasks.files_answer rfl hdata]
  rfl

end

section
variable (k : VideoKey) (content : Bytes) (hlength : content.length = 131088)

/-- A video of two parts, of which the second one is a block. -/
def twoPartVideo : Video where
  content := content
  encryption := some k
  finalSize := 131088
  roundMessage := false
  size_lt := by omega
  finalSize_lt := by decide
  blocks := by omega

/-- The second actor goes on with the second part. -/
def interruptedRun : List VideoEvent :=
  [.start, .worker, .answer ⟨0, 131072, 131072⟩, .cancel, .start, .worker, .answer ⟨131072, 16, 4096⟩]

variable (aes : Aes (Block 32))

theorem file_twoPartVideo : (twoPartVideo k content hlength).file aes = igePlaintext aes k.key k.iv content := by
  have hlast : (igePlaintext aes k.key k.iv content).length ≤ (131088 : Int).toNat := by
    rw [length_igePlaintext]
    omega
  unfold Video.file twoPartVideo
  dsimp only
  rw [if_pos (by decide), take_of_length_le hlast]

/-- The first part is decrypted with the first iv, whichever part it is. -/
theorem dataToWrite_twoPartVideo {offset : Int} {data plain : Bytes} {iv : Block 32}
    (hend : int32 (offset + plain.length) ≤ 131088)
    (hdecrypt : mtAesDecryptInplaceAndModifyIv aes data k.key k.iv = (plain, iv)) :
    (dataToWrite aes (.init (twoPartVideo k content hlength) offset) data).1 = plain := by
  simp only [dataToWrite, TGVideoDownloadActor.init, twoPartVideo, Option.map_some, hdecrypt]
  rw [if_neg (by omega)]

theorem decrypt_block (key iv : Block 32) {block : Bytes} (hblock : block.length = 16) :
    ∃ iv', mtAesDecryptInplaceAndModifyIv aes block key iv = (igePlaintext aes key iv block, iv') := by
  have hmod : block.length % 16 = 0 := by omega
  have hdecrypt := mtAesDecryptInplaceAndModifyIv_slice aes key iv hmod (m := 0) (l := 1) (by omega) (by omega)
  rw [decryptIvAt_zero] at hdecrypt
  have hwhole {bs : Bytes} (hbs : bs.length = 16) : slice bs (16 * 0) (16 * 1) = bs := by
    rw [slice, List.drop_zero, take_of_length_le (by omega)]
  rw [hwhole hblock, hwhole (by rw [length_igePlaintext]; omega)] at hdecrypt
  exact ⟨_, hdecrypt⟩

theorem updatedLimit_block : updatedLimit 16 = 4096 := by decide +kernel

theorem file_interrupted : (runVideo aes (twoPartVideo k content hlength) interruptedRun).files.storeFile =
      some (slice (igePlaintext aes k.key k.iv content) 0 131072 ++
        igePlaintext aes k.key k.iv (slice content 131072 16)) := by
  generalize hvideo : twoPartVideo k content hlength = v
  have hcontent : v.content = content := hvideo ▸ rfl
  have hlast : (v.content.length : Int) = 131088 := by rw [hcontent, hlength]; rfl
  have hdecrypt := decrypt_part (c := 0) aes k.key k.iv (show content.length % 16 = 0 by omega) (by omega)
  rw [zero_mul, Nat.zero_min, Nat.zero_div, decryptIvAt_zero, show defaultPartSize = 131072 from rfl] at hdecrypt
  have hlastPart : (slice content 131072 16).length = 16 := length_slice (by omega)
  obtain ⟨iv, hblock⟩ := decrypt_block aes k.key k.iv hlastPart
  generalize hpart : slice (igePlaintext aes k.key k.iv content) 0 131072 = first at *
  generalize hend : igePlaintext aes k.key k.iv (slice content 131072 16) = last at *
  have hfirst : first.length = 131072 := by
    rw [← hpart, length_slice (by rw [length_igePlaintext]; omega)]
  have hfirstPart : (slice content 0 131072).length = 131072 := length_slice (by omega)
  have hlastLength : last.length = 16 := by
    rw [← hend, length_igePlaintext]
    omega
  have hfiles : ([VideoEvent.start, .worker, .answer ⟨0, 131072, 131072⟩].foldl (stepVideo aes v) .init).files =
      ⟨some first, none⟩ := by
    have hlimit : updatedLimit (131072 : Int).toNat = 131072 := updatedLimit_eq (by decide)
    have hslice : slice v.content (0 : Int).toNat 131072 = slice content 0 131072 := by rw [hcontent, Int.toNat_zero]
    have hwritten : (dataToWrite aes (.init v 0) (slice content 0 131072)).1 = first :=
      hvideo ▸ dataToWrite_twoPartVideo k content hlength aes (by rw [hfirst]; decide) hdecrypt
    refine (run_firstPart (by omega) rfl (show partialFile v none = ([], 0) from rfl) (by omega)
      (by rw [hlast]; decide) hlimit hslice []).trans ?_
    dsimp only
    rw [hlast, hfirstPart, if_neg (by decide), hwritten, List.nil_append]
  have hbegin : partialFile v (some first) = (first, 131072) :=
    partialFile_some (hvideo ▸ rfl) (by rw [hfirst]; decide) (by decide)
  have hslice : slice v.content (131072 : Int).toNat 4096 = slice content 131072 16 := by
    rw [hcontent]
    exact slice_eq_slice_of_le (show content.length ≤ 131072 + 4096 by omega) (by omega)
  have hwritten : (dataToWrite aes (.init v 131072) (slice content 131072 16)).1 = last :=
    hvideo ▸ dataToWrite_twoPartVideo k content hlength aes (by rw [hlastLength]; decide) hblock
  have hagain (results : List VideoResult) : ([VideoEvent.start, .worker, .answer ⟨131072, 16, 4096⟩].foldl
      (stepVideo aes v) ⟨⟨some first, none⟩, none, results⟩).files = ⟨none, some (first ++ last)⟩ := by
    refine (@run_firstPart aes v ⟨some first, none⟩ 131072 first _ 16 4096 (by omega) rfl hbegin (by omega)
      (by rw [hlast]; decide) updatedLimit_block hslice results).trans ?_
    dsimp only
    rw [hlast, hlastPart, if_pos (by decide), hwritten]
  have hrun : interruptedRun = [.start, .worker, .answer ⟨0, 131072, 131072⟩] ++ .cancel ::
      [.start, .worker, .answer ⟨131072, 16, 4096⟩] := rfl
  rw [runVideo, hrun, List.foldl_append, foldl_cons, stepVideo_cancel, hfiles, hagain]

end

def exchangingAes : Aes (Block 32) where
  encryptBlock _ := Equiv.swap (Vector.replicate 16 5) (Vector.replicate 16 7)
  decryptBlock _ := Equiv.swap (Vector.replicate 16 5) (Vector.replicate 16 7)
  decrypt_encrypt _ := Equiv.swap_apply_self _ _

def zerosAndFives : Bytes := ofBlocks (List.replicate 8192 (Vector.replicate 16 0) ++ [Vector.replicate 16 5])

theorem length_zerosAndFives : zerosAndFives.length = 131088 := by
  rw [zerosAndFives, length_ofBlocks, List.length_append, List.length_replicate, List.length_singleton]

def onesKey : VideoKey := ⟨Vector.replicate 32 0, Vector.replicate 32 1⟩

theorem igeDecrypt_zeros (n : Nat) :
    igeDecrypt (exchangingAes.decryptBlock onesKey.key) (replicate 16 0) (replicate 16 0)
      (List.replicate n (replicate 16 0) ++ [replicate 16 5]) =
        List.replicate n (replicate 16 0) ++ [replicate 16 7] := by
  have hzero : xorBlock (exchangingAes.decryptBlock onesKey.key (xorBlock (replicate 16 0) (replicate 16 0)))
      (replicate 16 0) = replicate 16 0 := by decide +kernel
  induction n with
  | zero => decide +kernel
  | succ n ih => rw [List.replicate_succ, cons_append, igeDecrypt, hzero, ih, cons_append]

theorem igePlaintext_zerosAndFives : igePlaintext exchangingAes onesKey.key onesKey.iv zerosAndFives =
    ofBlocks (List.replicate 8192 (replicate 16 0)) ++ ofBlocks [replicate 16 7] := by
  have hfirst : xorBlock (exchangingAes.decryptBlock onesKey.key (xorBlock (replicate 16 0) (ivPlain onesKey.iv)))
      (ivCipher onesKey.iv) = replicate 16 0 := by decide +kernel
  rw [igePlaintext, zerosAndFives, toBlocks_ofBlocks (by decide), List.replicate_succ, cons_append, igeDecrypt, hfirst,
    igeDecrypt_zeros, ← ofBlocks_append, cons_append]

theorem igePlaintext_fives : igePlaintext exchangingAes onesKey.key onesKey.iv (slice zerosAndFives 131072 16) =
    ofBlocks [replicate 16 5] := by
  have hblock : igeDecrypt (exchangingAes.decryptBlock onesKey.key) (ivCipher onesKey.iv) (ivPlain onesKey.iv)
      [replicate 16 5] = [replicate 16 5] := by decide +kernel
  have hslice : slice zerosAndFives (16 * 8192) (16 * 1) = ofBlocks [replicate 16 5] := by
    rw [zerosAndFives, slice_ofBlocks, List.drop_left' List.length_replicate]
    rfl
  rw [show slice zerosAndFives 131072 16 = _ from hslice, igePlaintext, toBlocks_ofBlocks (by decide), hblock]

/-- **A video that is interrupted** is moved to the store as it is, when an encrypted one is never gone on with and its final
size cuts no other part than the last one. -/
theorem videoDownload_intact (aes : Aes (Block 32)) {v : Video} (hcut : v.CutsLastPart) {events : List VideoEvent}
    (h : AllSteps (stepVideo aes v) (StartsAfresh v) .init events) : Intact aes v (runVideo aes v events) :=
  (AllSteps.invariant (fun _ _ hinv hstart => hinv.step hcut hstart) (videoInv_init aes v) h).intact

def plainVideo : Video :=
  { twoPartVideo onesKey zerosAndFives length_zerosAndFives with
    encryption := none
    blocks := fun h => nomatch h }

/-- A video that is not encrypted goes on behind its first part. -/
theorem videoDownload_intact_resumed : Intact exchangingAes plainVideo (runVideo exchangingAes plainVideo interruptedRun) :=
  have hplain {p : Prop} : plainVideo.encryption.isSome → p := fun h => nomatch h
  videoDownload_intact exchangingAes hplain ⟨hplain, trivial, trivial, trivial, hplain, trivial, trivial, trivial⟩

/-- **An encrypted video that is interrupted** behind its first part is not what is moved to the store. -/
theorem interrupted_not_intact :
    ¬ Intact exchangingAes (twoPartVideo onesKey zerosAndFives length_zerosAndFives)
      (runVideo exchangingAes (twoPartVideo onesKey zerosAndFives length_zerosAndFives) interruptedRun) := by
  intro hintact
  have hfile := hintact _ (file_interrupted onesKey zerosAndFives length_zerosAndFives exchangingAes)
  rw [file_twoPartVideo, igePlaintext_fives, igePlaintext_zerosAndFives] at hfile
  have hfirst : slice (ofBlocks (List.replicate 8192 (Vector.replicate 16 0)) ++ ofBlocks [Vector.replicate 16 7]) 0 131072 =
      ofBlocks (List.replicate 8192 (Vector.replicate 16 0)) := by
    rw [slice, List.drop_zero, List.take_left' (by rw [length_ofBlocks, List.length_replicate])]
  rw [hfirst] at hfile
  exact absurd (List.append_cancel_left hfile) (by decide)

end TelegramClient.Fetch
