import TelegramClient.Upload.PartSizes
import Mathlib.Data.List.Nodup

/-!
# What an upload sends

The parts are read from one stream, and encrypted with an iv that is carried from part to part, while the requests are
answered in any order.

* `uploadedBytes`, `pieceAt` : what is sent in parts, and its pieces;
* `Delivers` : what is to hold while the requests succeed; `UploadPlan.delivers_run` : **it does, in every order**;
* `uploadIntegrity_iff` : **for which sizes an upload keeps to such a plan**.
-/

namespace TelegramClient.Upload
open List (length_drop length_replicate map_append map_cons mem_append mem_map mem_singleton not_mem_nil range')

open MtProto

/-! ## Pieces -/

def pieceAt (bytes : Bytes) (partSize i : Nat) : Bytes := slice bytes (i * partSize) partSize

@[simp] theorem length_padData (data : Bytes) :
    (padData data).length = data.length + (16 - data.length % 16) % 16 := by
  simp [padData]

theorem padData_of_dvd {data : Bytes} (h : data.length % 16 = 0) : padData data = data := by
  simp [padData, h]

theorem padData_slice {bytes : Bytes} {a : Nat} (ha : 16 * a ≤ bytes.length) (l : Nat) :
    padData (slice bytes (16 * a) (16 * l)) = slice (padData bytes) (16 * a) (16 * l) := by
  by_cases hl : 16 * a + 16 * l ≤ bytes.length
  · have hlen := length_slice hl
    rw [padData_of_dvd (by omega), padData, slice_append_left _ hl]
  · have hslice : slice bytes (16 * a) (16 * l) = bytes.drop (16 * a) := by
      apply List.take_of_length_le
      rw [length_drop]
      omega
    have hpad : (16 - (bytes.length - 16 * a) % 16) % 16 = (16 - bytes.length % 16) % 16 := by omega
    rw [hslice, slice, padData, padData, length_drop, hpad, List.drop_append_of_le_length ha, List.take_of_length_le]
    rw [List.length_append, length_drop, length_replicate]
    omega

theorem slice_min (bytes : Bytes) (offset n : Nat) :
    slice bytes offset n = slice bytes offset (min n (bytes.length - offset)) := by
  rw [slice, slice, List.take_eq_take_iff, length_drop]
  omega

/-! ## A plan -/

/-- The bytes that are sent in parts: the content, or the encryption of the padded content. -/
def uploadedBytes (crypto : UploadCrypto) (options : UploadOptions) (random : UploadRandom) (bytes : Bytes) : Bytes :=
  if options.encrypt then igeCiphertext crypto.aes random.encryptionKey random.encryptionIv (padData bytes) else bytes

/-- The cut of a content into parts of one size and a last one. -/
structure UploadPlan (bytes : Bytes) where
  partSize : Nat
  count : Nat
  parts : Parts bytes.length partSize count
  divides : partSize ∣ 1024 * 1024
  kibibytes : 1024 ∣ partSize

namespace UploadPlan

variable {bytes : Bytes} (plan : UploadPlan bytes)

def blocks : Nat := plan.partSize / 16

theorem partSize_eq : plan.partSize = 16 * plan.blocks := by
  have hdvd := plan.kibibytes
  rw [blocks]
  omega

theorem blocks_pos : 0 < plan.blocks := by
  have hpos := plan.parts.pos
  have heq := plan.partSize_eq
  omega

theorem start_eq (i : Nat) : i * plan.partSize = 16 * (i * plan.blocks) := by
  rw [plan.partSize_eq]
  ring

section
variable (crypto : UploadCrypto) (options : UploadOptions) (random : UploadRandom)

def piece (i : Nat) : Bytes := pieceAt (uploadedBytes crypto options random bytes) plan.partSize i

def partRequest (i : Nat) : SavePart :=
  ⟨random.fileId, i, if usesBigFileParts bytes.length then some plan.count else none, plan.piece crypto options random i⟩

/-- The result of the upload, with the digest of the parts in the order of their indices. -/
def result : UploadResult :=
  uploadResult crypto options random bytes.length (usesBigFileParts bytes.length) plan.count
    (hexString (crypto.md5 ((List.range plan.count).flatMap (plan.piece crypto options random))))

structure Delivers (u : TGFileUploadActor) : Prop where
  /-- Under every index its piece is sent, and no index twice. -/
  requests : ∀ request ∈ u.requests, ∃ i < plan.count, request = plan.partRequest crypto options random i
  once : (u.requests.map SavePart.filePart).Nodup
  /-- The result is reported once, when every index has succeeded. -/
  completed : u.completed =
    if ∀ i < plan.count, (i : Int) ∈ u.succeeded then [plan.result crypto options random] else []
  /-- Before that, a request is in flight. -/
  waiting : u.completed = [] → u.pending ≠ []

end

/-! ## The pieces of the stream -/

section
variable {plan}

variable {i : Nat}

theorem stream_piece (hi : i < plan.count) :
    (bytes.drop (i * plan.partSize)).take (partAt bytes.length plan.partSize false i).length.toNat =
        pieceAt bytes plan.partSize i ∧
      (bytes.drop (i * plan.partSize)).drop (partAt bytes.length plan.partSize false i).length.toNat =
        bytes.drop ((i + 1) * plan.partSize) := by
  have hlt := plan.parts.lt_size hi
  have hmul : (i + 1) * plan.partSize = i * plan.partSize + plan.partSize := by ring
  have hlen : (partAt bytes.length plan.partSize false i).length.toNat =
      min plan.partSize (bytes.length - i * plan.partSize) := Int.toNat_natCast _
  constructor
  · rw [hlen, pieceAt, slice, List.take_eq_take_iff, length_drop]
    omega
  · rw [hlen, List.drop_drop]
    by_cases hlast : (i + 1) * plan.partSize ≤ bytes.length
    · congr 1
      omega
    · rw [List.drop_of_length_le (by omega), List.drop_of_length_le (by omega)]

/-- **A piece that is padded and encrypted at its iv** is the piece of the whole encryption. If another one follows, the iv
is left for it. -/
theorem encrypted_piece (aes : Aes (Block 32)) (key iv : Block 32) (hi : i < plan.count) :
    let encrypted := mtAesEncryptInplaceAndModifyIv aes (padData (pieceAt bytes plan.partSize i)) key
      (encryptIvAt aes key iv (padData bytes) (i * plan.blocks))
    encrypted.1 = pieceAt (igeCiphertext aes key iv (padData bytes)) plan.partSize i ∧
      (i + 1 < plan.count → encrypted.2 = encryptIvAt aes key iv (padData bytes) ((i + 1) * plan.blocks)) := by
  have hlt := plan.parts.lt_size hi
  have hstart := plan.start_eq i
  have hsize := plan.partSize_eq
  have hpos := plan.blocks_pos
  have hlen := length_padData bytes
  have hwhole : (padData bytes).length % 16 = 0 := by omega
  -- the blocks of this piece, of which the last one may have fewer
  set l := min plan.blocks ((padData bytes).length / 16 - i * plan.blocks)
  have hpiece : padData (pieceAt bytes plan.partSize i) = slice (padData bytes) (16 * (i * plan.blocks)) (16 * l) := by
    rw [pieceAt, hstart, hsize, padData_slice (by omega), slice_min]
    congr 1
    omega
  have hcipher : slice (igeCiphertext aes key iv (padData bytes)) (16 * (i * plan.blocks)) (16 * l) =
      pieceAt (igeCiphertext aes key iv (padData bytes)) plan.partSize i := by
    rw [pieceAt, hstart, hsize, slice_min _ _ (16 * plan.blocks), length_igeCiphertext]
    congr 1
    omega
  have hencrypt := mtAesEncryptInplaceAndModifyIv_slice aes key iv hwhole (m := i * plan.blocks) (l := l) (by omega)
    (by omega)
  rw [hpiece, hencrypt]
  refine ⟨hcipher, fun hnext => ?_⟩
  have hinside := plan.parts.succ_lt_size hnext
  have hmul : (i + 1) * plan.blocks = i * plan.blocks + plan.blocks := by ring
  rw [hmul, show l = plan.blocks by omega]

end

end UploadPlan

/-! ## Parts in flight -/

variable (parts : Nat → FilePart)

theorem takePart_inFlight (hparts : ∀ i, (parts i).uploading = true) (inFlight : List Nat) (rest : List FilePart) :
    takePart (inFlight.map parts ++ rest) =
      (takePart rest).map fun next => (next.1, inFlight.map parts ++ next.2) := by
  induction inFlight with
  | nil => simp
  | cons i inFlight ih =>
    rw [map_cons, List.cons_append, takePart, if_pos (hparts i), ih, Option.map_map]
    rfl

theorem concurrentUploads_of_none {parts : List FilePart} (hparts : ∀ part ∈ parts, part.uploading = false) (k : Nat) :
    concurrentUploads parts k = k := by
  induction parts with
  | nil => rfl
  | cons part parts ih =>
    obtain ⟨hpart, hrest⟩ := List.forall_mem_cons.mp hparts
    rw [concurrentUploads, if_neg (by simp [hpart]), ih hrest]

theorem eraseP_inFlight (hparts : ∀ i, (parts i).index = i) {inFlight : List Nat} {i : Nat} (hi : i ∈ inFlight)
    (rest : List FilePart) : (inFlight.map parts ++ rest).eraseP (fun part => part.index == (i : Int)) =
      (inFlight.erase i).map parts ++ rest := by
  induction inFlight with
  | nil => exact absurd hi not_mem_nil
  | cons j inFlight ih =>
    rw [map_cons, List.cons_append]
    by_cases hj : j = i
    · subst hj
      rw [List.eraseP_cons_of_pos (by simp [hparts]), List.erase_cons_head]
    · have hrest : i ∈ inFlight := (List.mem_cons.mp hi).resolve_left fun heq => hj heq.symm
      have hidx : (j : Int) ≠ i := by omega
      rw [List.eraseP_cons_of_neg (by simp [hparts, hidx]), List.erase_cons_tail (by simpa using hj), ih hrest]
      rfl

namespace UploadPlan

section
variable {bytes : Bytes} (plan : UploadPlan bytes)
variable (crypto : UploadCrypto) (options : UploadOptions) (random : UploadRandom)

/-- The state of an upload that has sent its first `sent` parts, of which those in `inFlight` are not answered. -/
structure Sending (sent : Nat) (inFlight : List Nat) (u : TGFileUploadActor) : Prop where
  options_eq : u.options = options
  random_eq : u.random = random
  fileSize : u.fileSize = bytes.length
  useBigFileParts : u.useBigFileParts = usesBigFileParts bytes.length
  partCount : u.partCount = plan.count
  active : u.cancelled = false
  sent_le : sent ≤ plan.count
  inFlight_lt : ∀ i ∈ inFlight, i < sent
  nodup : inFlight.Nodup
  partsToUpload : u.partsToUpload = inFlight.map (partAt bytes.length plan.partSize true) ++
    (List.range' sent (plan.count - sent)).map (partAt bytes.length plan.partSize false)
  pending : u.pending = inFlight.map Nat.cast
  succeeded : ∀ i < plan.count, (i : Int) ∈ u.succeeded ↔ i < sent ∧ i ∉ inFlight
  stream : u.stream = bytes.drop (sent * plan.partSize)
  runningIv : options.encrypt = true → sent < plan.count → u.encryptionRunningIv =
    encryptIvAt crypto.aes random.encryptionKey random.encryptionIv (padData bytes) (sent * plan.blocks)
  md5Input : u.md5Input = (List.range sent).flatMap (plan.piece crypto options random)
  requests : u.requests = (List.range sent).map (plan.partRequest crypto options random)

namespace Sending

variable {plan crypto options random} {sent : Nat} {inFlight : List Nat} {u : TGFileUploadActor}

section
variable (h : plan.Sending crypto options random sent inFlight u)
include h

theorem takePart_eq (hsent : sent < plan.count) :
    takePart u.partsToUpload = some (partAt bytes.length plan.partSize false sent,
      (inFlight ++ [sent]).map (partAt bytes.length plan.partSize true) ++
        (range' (sent + 1) (plan.count - (sent + 1))).map (partAt bytes.length plan.partSize false)) := by
  have hcnt : plan.count - sent = plan.count - (sent + 1) + 1 := by omega
  rw [h.partsToUpload, takePart_inFlight _ (fun _ => rfl), hcnt, List.range'_succ, map_cons, takePart,
    if_neg (by simp [partAt]), Option.map_some, map_append, List.append_assoc]
  rfl

theorem sent_piece (hsent : sent < plan.count) : let partData := pieceAt bytes plan.partSize sent
    let sentData := if options.encrypt then
        mtAesEncryptInplaceAndModifyIv crypto.aes (padData partData) random.encryptionKey u.encryptionRunningIv
      else (partData, u.encryptionRunningIv)
    sentData.1 = plan.piece crypto options random sent ∧
      (options.encrypt = true → sent + 1 < plan.count → sentData.2 =
        encryptIvAt crypto.aes random.encryptionKey random.encryptionIv (padData bytes) ((sent + 1) * plan.blocks)) := by
  by_cases hencrypt : options.encrypt = true
  · have hpiece := encrypted_piece crypto.aes random.encryptionKey random.encryptionIv hsent
    rw [← h.runningIv hencrypt hsent] at hpiece
    simp only [piece, uploadedBytes, if_pos hencrypt]
    exact ⟨hpiece.1, fun _ => hpiece.2⟩
  · simp only [piece, uploadedBytes, if_neg hencrypt]
    exact ⟨trivial, fun htrue => absurd htrue hencrypt⟩

theorem sendPart (hsent : sent < plan.count) :
    plan.Sending crypto options random (sent + 1) (inFlight ++ [sent]) (sendPart crypto u) := by
  obtain ⟨hdata, hiv⟩ := h.sent_piece hsent
  obtain ⟨htake, hdrop⟩ := stream_piece hsent
  have hnot : sent ∉ inFlight := fun hm => Nat.lt_irrefl sent (h.inFlight_lt sent hm)
  rw [Upload.sendPart, h.takePart_eq hsent]
  dsimp only
  rw [h.stream, h.options_eq, h.random_eq, htake, hdrop]
  refine ⟨rfl, rfl, h.fileSize, h.useBigFileParts, h.partCount, h.active, hsent, ?_, ?_, rfl, ?_, ?_, rfl, hiv, ?_, ?_⟩
  · intro i hi
    rcases mem_append.mp hi with hold | hnew
    · exact Nat.lt_succ_of_lt (h.inFlight_lt i hold)
    · exact Nat.lt_succ_of_le (mem_singleton.mp hnew).le
  · exact h.nodup.append (List.nodup_singleton sent) (List.disjoint_singleton.mpr hnot)
  · show u.pending ++ [(sent : Int)] = _
    rw [h.pending, map_append]
    rfl
  · intro i hi
    rw [h.succeeded i hi, mem_append, mem_singleton]
    constructor
    · rintro ⟨hlt, hnotMem⟩
      exact ⟨Nat.lt_succ_of_lt hlt, fun hor => hor.elim hnotMem fun heq => by omega⟩
    · rintro ⟨hlt, hnotMem⟩
      obtain ⟨hnotMem, hne⟩ := not_or.mp hnotMem
      exact ⟨by omega, hnotMem⟩
  · dsimp only
    rw [List.range_succ, List.flatMap_append, List.flatMap_singleton, ← h.md5Input, ← hdata]
  · dsimp only
    rw [List.range_succ, map_append, ← h.requests, List.map_singleton, partRequest, ← hdata, ← h.useBigFileParts,
      ← h.partCount]
    rfl

end

theorem sendPart_of_all (h : plan.Sending crypto options random plan.count inFlight u) :
    Upload.sendPart crypto u = u := by
  have htake : takePart u.partsToUpload = none := by
    rw [h.partsToUpload, takePart_inFlight _ (fun _ => rfl), Nat.sub_self]
    rfl
  rw [Upload.sendPart, htake]

theorem completed_sendPart (u : TGFileUploadActor) : (Upload.sendPart crypto u).completed = u.completed := by
  rw [Upload.sendPart]
  split <;> rfl

variable (k : Nat)

theorem completed_sendParts (u : TGFileUploadActor) : ((Upload.sendPart crypto)^[k] u).completed = u.completed := by
  induction k generalizing u with
  | zero => rfl
  | succ k ih => rw [Function.iterate_succ_apply, ih, completed_sendPart]

theorem sendParts (h : plan.Sending crypto options random sent inFlight u) :
    ∃ sent' inFlight', plan.Sending crypto options random sent' inFlight' ((Upload.sendPart crypto)^[k] u) ∧
      (inFlight ≠ [] ∨ 0 < k ∧ sent < plan.count → inFlight' ≠ []) := by
  induction k generalizing sent inFlight u with
  | zero => exact ⟨sent, inFlight, h, fun hsome => hsome.resolve_right fun hk => Nat.lt_irrefl 0 hk.1⟩
  | succ k ih =>
    rw [Function.iterate_succ_apply]
    by_cases hsent : sent < plan.count
    · obtain ⟨sent', inFlight', hnext, hsome⟩ := ih (h.sendPart hsent)
      exact ⟨sent', inFlight', hnext, fun _ => hsome (.inl (by simp))⟩
    · obtain rfl : sent = plan.count := Nat.le_antisymm h.sent_le (Nat.le_of_not_lt hsent)
      rw [h.sendPart_of_all]
      obtain ⟨sent', inFlight', hnext, hsome⟩ := ih h
      exact ⟨sent', inFlight', hnext, fun hor => hsome (.inl (hor.resolve_right fun hk => hsent hk.2))⟩

theorem succeed {i : Nat} (h : plan.Sending crypto options random sent inFlight u) (hi : i ∈ inFlight) :
    plan.Sending crypto options random sent (inFlight.erase i)
      { u with
        pending := u.pending.erase i
        succeeded := u.succeeded ++ [(i : Int)]
        partsToUpload := u.partsToUpload.eraseP fun part => part.index == (i : Int) } := by
  refine ⟨h.options_eq, h.random_eq, h.fileSize, h.useBigFileParts, h.partCount, h.active, h.sent_le, ?_, h.nodup.erase i,
    ?_, ?_, ?_, h.stream, h.runningIv, h.md5Input, h.requests⟩
  · exact fun j hj => h.inFlight_lt j (List.mem_of_mem_erase hj)
  · rw [h.partsToUpload]
    exact eraseP_inFlight _ (fun _ => rfl) hi _
  · rw [h.pending, List.map_erase Nat.cast_injective]
  · intro j hj
    rw [mem_append, mem_singleton, h.succeeded j hj, h.nodup.mem_erase_iff]
    have hlt := h.inFlight_lt i hi
    by_cases heq : j = i
    · subst heq
      simp [hlt]
    · simp [heq]

theorem complete (h : plan.Sending crypto options random sent inFlight u) :
    plan.Sending crypto options random sent inFlight (u.complete crypto) := { h with }

theorem completed_complete (h : plan.Sending crypto options random plan.count inFlight u) (hnone : u.completed = []) :
    (u.complete crypto).completed = [plan.result crypto options random] := by
  rw [TGFileUploadActor.complete, hnone, h.options_eq, h.random_eq, h.fileSize, h.useBigFileParts, h.partCount, h.md5Input]
  rfl

end Sending

/-! ## The whole upload -/

/-- Some part is in flight, or everything has been answered and reported. -/
def Going (u : TGFileUploadActor) : Prop :=
  ∃ sent inFlight, plan.Sending crypto options random sent inFlight u ∧
    (inFlight ≠ [] ∧ u.completed = [] ∨
      sent = plan.count ∧ inFlight = [] ∧ u.completed = [plan.result crypto options random])

variable {plan crypto options random} {u : TGFileUploadActor}

theorem Sending.sendAnyPart {sent : Nat} {inFlight : List Nat} (h : plan.Sending crypto options random sent inFlight u)
    (hnone : u.completed = []) : plan.Going crypto options random (sendAnyPart crypto u) := by
  rw [Upload.sendAnyPart, if_neg (by simp [h.active])]
  by_cases hempty : u.partsToUpload = []
  · rw [if_pos (by simp [hempty])]
    have hparts := h.partsToUpload
    rw [hempty] at hparts
    obtain ⟨hflight, hrest⟩ := List.append_eq_nil_iff.mp hparts.symm
    obtain rfl : inFlight = [] := List.map_eq_nil_iff.mp hflight
    obtain rfl : sent = plan.count := by
      have hzero := List.range'_eq_nil_iff.mp (List.map_eq_nil_iff.mp hrest)
      have hle := h.sent_le
      omega
    exact ⟨plan.count, [], h.complete, .inr ⟨rfl, rfl, h.completed_complete hnone⟩⟩
  · rw [if_neg (by simp [hempty])]
    obtain ⟨sent', inFlight', hsending, hsome⟩ := h.sendParts (concurrentUploads u.partsToUpload 16)
    refine ⟨sent', inFlight', hsending, .inl ⟨hsome ?_, by rw [Sending.completed_sendParts, hnone]⟩⟩
    by_cases hflight : inFlight = []
    · -- nothing is in flight, so that all sixteen may begin
      subst hflight
      have hwait : concurrentUploads u.partsToUpload 16 = 16 := by
        apply concurrentUploads_of_none
        rw [h.partsToUpload, List.map_nil, List.nil_append]
        intro part hpart
        obtain ⟨i, -, rfl⟩ := mem_map.mp hpart
        rfl
      have hsent : sent ≠ plan.count := by
        rintro rfl
        rw [h.partsToUpload, Nat.sub_self] at hempty
        exact hempty rfl
      exact .inr ⟨by omega, lt_of_le_of_ne h.sent_le hsent⟩
    · exact .inl hflight

section
variable (h : plan.Going crypto options random u)
include h

theorem Going.success (partId : Int) : plan.Going crypto options random (stepUpload crypto u (.success partId)) := by
  rw [stepUpload]
  obtain ⟨sent, inFlight, hsending, hstate⟩ := h
  by_cases hpend : partId ∈ u.pending
  · rw [if_pos hpend]
    obtain ⟨i, hi, rfl⟩ := mem_map.mp (hsending.pending ▸ hpend)
    have hnone : u.completed = [] := by
      rcases hstate with hsome | hall
      · exact hsome.2
      · rw [hall.2.1] at hi
        exact absurd hi not_mem_nil
    exact (hsending.succeed hi).sendAnyPart hnone
  · rw [if_neg hpend]
    exact ⟨sent, inFlight, hsending, hstate⟩

theorem Going.run (order : List Int) : plan.Going crypto options random (runUpload crypto u (order.map .success)) := by
  induction order generalizing u with
  | nil => exact h
  | cons partId order ih => exact ih (h.success partId)

theorem Going.delivers : plan.Delivers crypto options random u := by
  obtain ⟨sent, inFlight, hsending, hstate⟩ := h
  refine ⟨fun request hreq => ?_, ?_, ?_, fun hnone => ?_⟩
  · rw [hsending.requests] at hreq
    obtain ⟨i, hi, rfl⟩ := mem_map.mp hreq
    exact ⟨i, (List.mem_range.mp hi).trans_le hsending.sent_le, rfl⟩
  · rw [hsending.requests, List.map_map]
    exact List.nodup_range.map Nat.cast_injective
  · rcases hstate with ⟨hsome, hnone⟩ | ⟨rfl, rfl, hres⟩
    · obtain ⟨i, hi⟩ := List.exists_mem_of_ne_nil inFlight hsome
      have hcnt : i < plan.count := (hsending.inFlight_lt i hi).trans_le hsending.sent_le
      rw [hnone, if_neg fun hall => ((hsending.succeeded i hcnt).mp (hall i hcnt)).2 hi]
    · rw [hres, if_pos fun i hi => (hsending.succeeded i hi).mpr ⟨hi, not_mem_nil⟩]
  · rcases hstate with ⟨hsome, -⟩ | ⟨-, -, hres⟩
    · rw [hsending.pending]
      exact fun hnil => hsome (List.map_eq_nil_iff.mp hnil)
    · rw [hnone] at hres
      cases hres

end

end

end UploadPlan

/-! ## The beginning -/

section
variable {crypto : UploadCrypto} {options : UploadOptions} {random : UploadRandom} {bytes : Bytes}

theorem UploadPlan.count_le (plan : UploadPlan bytes) : plan.count ≤ bytes.length := by
  have hpos := plan.parts.pos
  have hcnt := plan.parts.count_pos
  have hlt := plan.parts.lt_size (k := plan.count - 1) (by omega)
  have hle := Nat.le_mul_of_pos_right (plan.count - 1) hpos
  omega

theorem UploadPlan.Going.partCount {plan : UploadPlan bytes} {u : TGFileUploadActor}
    (h : plan.Going crypto options random u) :
    u.partCount = plan.count ∧ u.useBigFileParts = usesBigFileParts bytes.length := by
  obtain ⟨sent, inFlight, hsending, -⟩ := h
  exact ⟨hsending.partCount, hsending.useBigFileParts⟩

variable {small : Int} {fuel : Nat}

theorem beginUpload_eq (crypto : UploadCrypto) (options : UploadOptions) (random : UploadRandom)
    (plan : UploadPlan bytes) (hrange : bytes.length + plan.partSize ≤ 2 ^ 31)
    (hpartSize : partSizeFor small bytes.length = plan.partSize) (hfuel : plan.count < fuel) :
    ∃ u, beginUpload crypto options random small bytes fuel = some (.started u) ∧
      plan.Going crypto options random u := by
  have hpos := plan.parts.pos
  have hle := plan.count_le
  have hsize : int32 bytes.length = bytes.length := int32_of_lt (by omega) (by omega)
  have hcnt : int32 plan.count = plan.count := int32_of_lt (by omega) (by omega)
  have hparts : partList bytes.length plan.partSize fuel 0 (-1) =
      some ((range' 0 plan.count).map (partAt bytes.length plan.partSize false)) := by
    have heq := plan.parts.partList_eq hrange (k := 0) (Nat.zero_le _) (by omega : plan.count < 0 + fuel)
    rw [Nat.zero_mul, Nat.sub_zero] at heq
    exact heq
  rw [beginUpload, hsize, hpartSize, hparts, Option.map_some, List.length_map, List.length_range', hcnt]
  refine ⟨_, rfl, ?_⟩
  have hsending : plan.Sending crypto options random 0 [] {
      options := options
      random := random
      fileSize := bytes.length
      useBigFileParts := usesBigFileParts bytes.length
      partCount := plan.count
      partsToUpload := (range' 0 plan.count).map (partAt bytes.length plan.partSize false)
      stream := bytes
      encryptionRunningIv := random.encryptionIv
      md5Input := []
      cancelled := false
      requests := []
      pending := []
      succeeded := []
      completed := []
      failed := false } := by
    refine ⟨rfl, rfl, rfl, rfl, rfl, rfl, Nat.zero_le _, ?_, List.nodup_nil, rfl, rfl, ?_, ?_, ?_, rfl, rfl⟩
    · exact fun i hi => absurd hi not_mem_nil
    · exact fun i _ => ⟨fun hi => absurd hi not_mem_nil, fun hi => absurd hi.1 (Nat.not_lt_zero i)⟩
    · rw [Nat.zero_mul, List.drop_zero]
    · intro _ _
      rw [Nat.zero_mul, encryptIvAt_zero]
  exact hsending.sendAnyPart rfl

variable {fuel' : Nat}

theorem partList_mono {length partSize : Int} (hfuel : fuel ≤ fuel') {i index : Int} {parts : List FilePart}
    (h : partList length partSize fuel i index = some parts) : partList length partSize fuel' i index = some parts := by
  induction fuel generalizing fuel' i index parts with
  | zero => cases h
  | succ fuel ih =>
    obtain ⟨fuel', rfl⟩ : ∃ k, fuel' = k + 1 := ⟨fuel' - 1, by omega⟩
    rw [partList] at h ⊢
    by_cases hi : i < length
    · rw [if_pos hi] at h ⊢
      obtain ⟨rest, hrest, rfl⟩ := Option.map_eq_some_iff.mp h
      rw [ih (by omega) hrest, Option.map_some]
    · rw [if_neg hi] at h ⊢
      exact h

theorem beginUpload_mono (hfuel : fuel ≤ fuel') {execution : Execution}
    (h : beginUpload crypto options random small bytes fuel = some execution) :
    beginUpload crypto options random small bytes fuel' = some execution := by
  rw [beginUpload] at h ⊢
  obtain ⟨parts, hparts, rfl⟩ := Option.map_eq_some_iff.mp h
  rw [partList_mono hfuel hparts, Option.map_some]

/-! ## The sizes that have a plan -/

theorem exists_uploadPlan (hsmall : small = photoPartSize ∨ small = videoPartSize) (hpos : 0 < bytes.length)
    (hle : bytes.length ≤ 2047 * 2 ^ 20) : ∃ plan : UploadPlan bytes, bytes.length + plan.partSize ≤ 2 ^ 31 ∧
      partSizeFor small bytes.length = plan.partSize ∧
      (usesBigFileParts bytes.length = true → (plan.count ≤ 3000 ↔ ¬ ManyParts bytes.length)) := by
  by_cases hbig : 10 * 1024 * 1024 ≤ bytes.length
  · obtain ⟨m, hm, hm', hpartSize, hquotient, hleast⟩ := partSizeFor_big small hbig (by omega)
    have hpow : 2 ^ m ≤ 2 ^ 20 := Nat.pow_le_pow_right (by omega) hm'
    have hparts := exists_parts hpos (Nat.two_pow_pos m)
    refine ⟨⟨2 ^ m, _, hparts, ?_, ?_⟩, by dsimp only; omega, hpartSize, fun _ => ?_⟩
    · exact pow_dvd_pow 2 hm'
    · exact pow_dvd_pow 2 (by omega : 10 ≤ m)
    · exact hparts.count_le_iff.trans (le_iff_not_manyParts hm hquotient hleast)
  · have hnot : ¬ usesBigFileParts bytes.length = true := by
      rw [usesBigFileParts, decide_eq_true_eq]
      omega
    have hpartSize := partSizeFor_small small (n := bytes.length) (by omega)
    rcases hsmall with rfl | rfl
    · exact ⟨⟨8 * 1024, _, exists_parts hpos (by omega), by decide, by decide⟩, by dsimp only; omega, hpartSize,
        fun hbig' => absurd hbig' hnot⟩
    · exact ⟨⟨64 * 1024, _, exists_parts hpos (by omega), by decide, by decide⟩, by dsimp only; omega, hpartSize,
        fun hbig' => absurd hbig' hnot⟩

end

/-! ## Integrity -/

def UploadSource.bytes : UploadSource → Bytes
  | .data bytes => bytes
  | .file content => content.getD []

/-- The sizes that the content of a file, and data, may have. -/
def UploadSource.InLimits : UploadSource → Prop
  | .data bytes => 0 < bytes.length ∧ bytes.length < 2 ^ 31
  | .file none => False
  | .file (some bytes) => 0 < bytes.length ∧ bytes.length ≤ 512 * 1024 * 3000

section
variable (crypto : UploadCrypto) (options : UploadOptions) (random : UploadRandom) (source : UploadSource)

/-- The upload begins, with at most 3000 parts if they are big ones, and by a plan that it keeps to, in whatever order the
requests succeed. -/
def UploadIntegrity : Prop :=
  ∃ fuel u, execute crypto options random source fuel = some (.started u) ∧
    (u.useBigFileParts = true → u.partCount ≤ 3000) ∧
    ∃ plan : UploadPlan source.bytes, ∀ order : List Int,
      plan.Delivers crypto options random (runUpload crypto u (order.map .success))

variable {crypto options random source}

theorem execute_eq (crypto : UploadCrypto) (options : UploadOptions) (random : UploadRandom) (h : source.InLimits) :
    ∃ small, (small = photoPartSize ∨ small = videoPartSize) ∧
      ∀ fuel, execute crypto options random source fuel = beginUpload crypto options random small source.bytes fuel := by
  match source, h with
  | .data bytes, h =>
    refine ⟨photoPartSize, .inl rfl, fun fuel => ?_⟩
    rw [execute, if_neg]
    · rfl
    · rw [List.isEmpty_iff_length_eq_zero]
      exact Nat.pos_iff_ne_zero.mp h.1
  | .file (some bytes), h =>
    obtain ⟨hpos, hle⟩ := h
    refine ⟨videoPartSize, .inr rfl, fun fuel => ?_⟩
    have hsize : int32 bytes.length = bytes.length := int32_of_lt (by omega) (by omega)
    rw [execute, hsize, if_neg (by omega)]
    rfl

theorem UploadSource.InLimits.length (h : source.InLimits) : 0 < source.bytes.length ∧ source.bytes.length < 2 ^ 31 := by
  match source, h with
  | .data bytes, h => exact h
  | .file (some bytes), h => exact ⟨h.1, lt_of_le_of_lt h.2 (by decide)⟩

/-- The parts of more than 2047 MiB are never listed. -/
theorem UploadIntegrity.length_le (h : UploadIntegrity crypto options random source) (hlimits : source.InLimits) :
    source.bytes.length ≤ 2047 * 2 ^ 20 := by
  by_contra hlong
  obtain ⟨fuel, u, hexecute, -⟩ := h
  obtain ⟨small, -, heq⟩ := execute_eq crypto options random hlimits
  obtain ⟨hpos, hlt⟩ := hlimits.length
  obtain ⟨m, -, hm, hpartSize, hquotient, -⟩ := partSizeFor_big small (n := source.bytes.length) (by omega) hlt
  obtain rfl : m = 20 := by
    by_contra hne
    have hpow : 2 ^ m ≤ 2 ^ 19 := Nat.pow_le_pow_right (by omega) (by omega)
    omega
  have hsize : int32 source.bytes.length = source.bytes.length := int32_of_lt (by omega) (by omega)
  rw [heq, beginUpload, hsize, hpartSize, partList_none (by omega) fuel (Int.dvd_zero _) (by norm_num)] at hexecute
  cases hexecute

theorem UploadIntegrity.not_manyParts (h : UploadIntegrity crypto options random source) (hlimits : source.InLimits) :
    ¬ ManyParts source.bytes.length := by
  have hle := h.length_le hlimits
  obtain ⟨fuel, u, hexecute, hcnt, -⟩ := h
  obtain ⟨small, hsmall, heq⟩ := execute_eq crypto options random hlimits
  obtain ⟨plan, hrange, hpartSize, hiff⟩ := exists_uploadPlan hsmall hlimits.length.1 hle
  have hfuel : plan.count < plan.count + 1 + fuel := by omega
  obtain ⟨u', hbegin, hgoing⟩ := beginUpload_eq crypto options random plan hrange hpartSize hfuel
  rw [heq] at hexecute
  have hsame := (beginUpload_mono (by omega : fuel ≤ plan.count + 1 + fuel) hexecute).symm.trans hbegin
  obtain rfl : u = u' := by injection hsame with hsame; injection hsame
  intro hmany
  have hbig : usesBigFileParts source.bytes.length = true := by
    rw [usesBigFileParts, decide_eq_true_eq]
    by_contra hsmall'
    exact not_manyParts_of_small (by omega) hmany
  have hle' := hcnt (hgoing.partCount.2.trans hbig)
  rw [hgoing.partCount.1] at hle'
  exact (hiff hbig).mp (by exact_mod_cast hle') hmany

/-- **The sizes for which an upload keeps to a plan.** -/
theorem uploadIntegrity_iff (hlimits : source.InLimits) :
    UploadIntegrity crypto options random source ↔
      ¬ ManyParts source.bytes.length ∧ source.bytes.length ≤ 2047 * 2 ^ 20 := by
  constructor
  · exact fun h => ⟨h.not_manyParts hlimits, h.length_le hlimits⟩
  · rintro ⟨hfew, hle⟩
    obtain ⟨small, hsmall, heq⟩ := execute_eq crypto options random hlimits
    obtain ⟨plan, hrange, hpartSize, hiff⟩ := exists_uploadPlan hsmall hlimits.length.1 hle
    obtain ⟨u, hbegin, hgoing⟩ := beginUpload_eq crypto options random plan hrange hpartSize
      (Nat.lt_succ_self plan.count)
    refine ⟨plan.count + 1, u, (heq _).trans hbegin, fun hbig => ?_, plan, fun order => (hgoing.run order).delivers⟩
    rw [hgoing.partCount.1]
    exact_mod_cast (hiff (hgoing.partCount.2.symm.trans hbig)).mpr hfew

end

/-- A cipher that changes nothing, and the same digest for all bytes. -/
def plainCrypto : UploadCrypto := ⟨identityAes (Block 32), fun _ => Vector.replicate 16 0⟩

def plainOptions (encrypt : Bool) : UploadOptions := ⟨false, encrypt, none, 0, 0, 0, 0, none⟩

def plainRandom : UploadRandom := ⟨1, Vector.replicate 32 2, Vector.replicate 32 3⟩

/-- An encrypted file of five parts, the last of which is padded. -/
theorem uploadIntegrity_fiveParts :
    UploadIntegrity plainCrypto (plainOptions true) plainRandom (.file (some (List.replicate 300001 7))) := by
  have hlength : (UploadSource.file (some (List.replicate 300001 7))).bytes.length = 300001 := length_replicate
  have hlimits : (UploadSource.file (some (List.replicate 300001 7))).InLimits := by
    rw [UploadSource.InLimits, length_replicate]
    omega
  refine (uploadIntegrity_iff hlimits).mpr ?_
  rw [hlength]
  exact ⟨not_manyParts_of_small (by decide), by decide⟩

/-- One byte more than 3000 parts of 64 KiB. -/
theorem bytesPastParts_notIntact :
    (UploadSource.file (some (List.replicate (3000 * 2 ^ 16 + 1) 0))).InLimits ∧
      ¬ UploadIntegrity plainCrypto (plainOptions false) plainRandom
        (.file (some (List.replicate (3000 * 2 ^ 16 + 1) 0))) := by
  have hlimits : (UploadSource.file (some (List.replicate (3000 * 2 ^ 16 + 1) 0))).InLimits := by
    rw [UploadSource.InLimits, length_replicate]
    omega
  refine ⟨hlimits, fun h => h.not_manyParts hlimits ⟨16, Nat.le_refl 16, ?_⟩⟩
  rw [UploadSource.bytes, Option.getD_some, length_replicate]
  omega

end TelegramClient.Upload
