import TelegramClient.MtProto.AesStreams

/-!
# The upload of a file

`TGFileUploadActor`: a file is read, encrypted and sent in parts, of which up to sixteen are in flight.

* `partSizeFor`, `partList` : the parts of a file, with the arithmetic of `int`;
* `execute` : what begins an upload; `sendAnyPart`, `filePartUploadSuccess` : what goes on with it;
* `UploadEvent`, `stepUpload`, `runUpload` : the answers to the requests, in any order.

MD5 is an arbitrary function of the bytes that it has been given.
-/

namespace TelegramClient.Upload

open MtProto

/-- The value of an `int`. -/
def int32 (x : Int) : Int := x.bmod (2 ^ 32)

structure UploadCrypto where
  aes : Aes (Block 32)
  md5 : Bytes → Block 16

/-! ## What is uploaded -/

structure UploadOptions where
  secure : Bool
  encrypt : Bool
  thumbnail : Option Bytes
  thumbnailWidth : Int
  thumbnailHeight : Int
  width : Int
  height : Int
  ext : Option String

structure UploadRandom where
  fileId : BitVec 64
  encryptionKey : Block 32
  encryptionIv : Block 32

/-- Data, or the content of the file with a path; `none` is a file that does not exist. -/
inductive UploadSource where
  | data (bytes : Bytes)
  | file (content : Option Bytes)

structure FilePart where
  index : Int
  length : Int
  uploading : Bool
  deriving DecidableEq

/-! ## Parts -/

/-- `PHOTO_PART_SIZE`. -/
def photoPartSize : Int := 8 * 1024

/-- `VIDEO_PART_SIZE`. -/
def videoPartSize : Int := 64 * 1024

/-- `while ((1024 * 1024) % partSize != 0) partSize++`, with a bound on the steps. -/
def roundPartSize : Nat → Int → Int
  | 0, partSize => partSize
  | fuel + 1, partSize => if 1024 * 1024 % partSize ≠ 0 then roundPartSize fuel (partSize + 1) else partSize

def usesBigFileParts (fileSize : Int) : Bool := fileSize ≥ 10 * 1024 * 1024

/-- `partSize`, with the size that smaller files have. -/
def partSizeFor (smallPartSize fileSize : Int) : Int :=
  if usesBigFileParts fileSize then max (roundPartSize (1024 * 1024) (fileSize / 3000)) videoPartSize
  else smallPartSize

/-- The loop over the parts from the offset `i`, after the part `index`. It is bounded, and `none` if it has not ended. -/
def partList (length partSize : Int) : Nat → Int → Int → Option (List FilePart)
  | 0, _, _ => none
  | fuel + 1, i, index =>
    if i < length then
      (partList length partSize fuel (int32 (i + partSize)) (index + 1)).map
        (⟨index + 1, min partSize (int32 (length - i)), false⟩ :: ·)
    else some []

/-! ## The actor -/

inductive InputFile where
  | inputFile (id : BitVec 64) (parts : Int) (name md5Checksum : String)
  | inputFileBig (id : BitVec 64) (parts : Int) (name : String)
  deriving DecidableEq

inductive InputEncryptedFile where
  | inputEncryptedFileUploaded (id : BitVec 64) (parts : Int) (md5Checksum : String) (keyFingerprint : BitVec 32)
  | inputEncryptedFileBigUploaded (id : BitVec 64) (parts : Int) (keyFingerprint : BitVec 32)
  deriving DecidableEq

inductive UploadResult where
  | passportFile (parts : Int) (md5Checksum : String) (fileId : BitVec 64)
  | encryptedFile (file : InputEncryptedFile) (key iv : Block 32) (thumbnail : Bytes)
      (thumbnailWidth thumbnailHeight width height fileSize : Int)
  | file (file : InputFile)
  deriving DecidableEq

/-- `upload.saveFilePart`, and `upload.saveBigFilePart` with the number of all parts. -/
structure SavePart where
  fileId : BitVec 64
  filePart : Int
  fileTotalParts : Option Int
  bytes : Bytes
  deriving DecidableEq

structure TGFileUploadActor where
  options : UploadOptions
  random : UploadRandom
  fileSize : Int
  useBigFileParts : Bool
  partCount : Int
  partsToUpload : List FilePart
  /-- What the stream has yet to give. -/
  stream : Bytes
  encryptionRunningIv : Block 32
  /-- What has gone into `_md5`. -/
  md5Input : Bytes
  cancelled : Bool
  /-- The requests that have been sent, and the parts of the ones that have no answer. -/
  requests : List SavePart
  pending : List Int
  /-- The parts whose requests have succeeded. -/
  succeeded : List Int
  completed : List UploadResult
  failed : Bool

section
variable (crypto : UploadCrypto)

/-- `%02x` of all bytes. -/
def hexString (digest : Block 16) : String :=
  String.ofList (digest.toList.flatMap fun b => [Nat.digitChar (b.toNat / 16), Nat.digitChar (b.toNat % 16)])

def uploadKeyFingerprint (random : UploadRandom) : BitVec 32 :=
  let digest := (crypto.md5 (random.encryptionKey.toList ++ random.encryptionIv.toList)).toList
  ofLeBits 32 (slice digest 0 4) ^^^ ofLeBits 32 (slice digest 4 4)

/-- The result of an upload, with the digest of its parts. -/
def uploadResult (options : UploadOptions) (random : UploadRandom) (fileSize : Int) (useBigFileParts : Bool)
    (partCount : Int) (hash : String) : UploadResult :=
  if options.secure then .passportFile partCount hash random.fileId
  else if options.encrypt then
    let keyFingerprint := uploadKeyFingerprint crypto random
    let inputFile :=
      if useBigFileParts then .inputEncryptedFileBigUploaded random.fileId partCount keyFingerprint
      else .inputEncryptedFileUploaded random.fileId partCount hash keyFingerprint
    .encryptedFile inputFile random.encryptionKey random.encryptionIv (options.thumbnail.getD []) options.thumbnailWidth
      options.thumbnailHeight options.width options.height fileSize
  else
    let name := "file." ++ options.ext.getD "jpg"
    .file (if useBigFileParts then .inputFileBig random.fileId partCount name
      else .inputFile random.fileId partCount name hash)

namespace TGFileUploadActor

def complete (u : TGFileUploadActor) : TGFileUploadActor :=
  { u with completed := u.completed ++ [uploadResult crypto u.options u.random u.fileSize u.useBigFileParts u.partCount
      (hexString (crypto.md5 u.md5Input))] }

end TGFileUploadActor

def padData (data : Bytes) : Bytes := data ++ List.replicate ((16 - data.length % 16) % 16) 0

/-- The part that is next, and the list in which it is marked. -/
def takePart : List FilePart → Option (FilePart × List FilePart)
  | [] => none
  | part :: parts =>
    if part.uploading then (takePart parts).map fun (next, parts) => (next, part :: parts)
    else some (part, { part with uploading := true } :: parts)

/-- One pass of the loop over `concurrentUploads`. -/
def sendPart (u : TGFileUploadActor) : TGFileUploadActor :=
  match takePart u.partsToUpload with
  | none => u
  | some (part, partsToUpload) =>
    let partData := u.stream.take part.length.toNat
    let (partData, encryptionRunningIv) :=
      if u.options.encrypt then
        mtAesEncryptInplaceAndModifyIv crypto.aes (padData partData) u.random.encryptionKey u.encryptionRunningIv
      else (partData, u.encryptionRunningIv)
    { u with
      partsToUpload := partsToUpload
      stream := u.stream.drop part.length.toNat
      encryptionRunningIv := encryptionRunningIv
      md5Input := u.md5Input ++ partData
      requests := u.requests ++
        [⟨u.random.fileId, part.index, if u.useBigFileParts then some u.partCount else none, partData⟩]
      pending := u.pending ++ [part.index] }

/-- The uploads that may still begin, of sixteen. -/
def concurrentUploads : List FilePart → Nat → Nat
  | [], k => k
  | part :: parts, k =>
    if part.uploading then (if k - 1 = 0 then 0 else concurrentUploads parts (k - 1)) else concurrentUploads parts k

def sendAnyPart (u : TGFileUploadActor) : TGFileUploadActor :=
  if u.cancelled then u
  else if u.partsToUpload.isEmpty then u.complete crypto
  else (sendPart crypto)^[concurrentUploads u.partsToUpload 16] u

def filePartUploadSuccess (partId : Int) (u : TGFileUploadActor) : TGFileUploadActor :=
  sendAnyPart crypto { u with partsToUpload := u.partsToUpload.eraseP fun part => part.index == partId }

/-! ## Beginning -/

inductive Execution where
  | started (u : TGFileUploadActor)
  /-- `nodeRetrieveFailed`, `actionFailed`. -/
  | failed

/-- The upload of some bytes. `none` if the list of parts has not been made in `fuel` steps. -/
def beginUpload (options : UploadOptions) (random : UploadRandom) (smallPartSize : Int) (bytes : Bytes) (fuel : Nat) :
    Option Execution :=
  let fileSize := int32 bytes.length
  (partList fileSize (partSizeFor smallPartSize fileSize) fuel 0 (-1)).map fun partsToUpload =>
    .started (sendAnyPart crypto {
      options := options
      random := random
      fileSize := fileSize
      useBigFileParts := usesBigFileParts fileSize
      partCount := int32 partsToUpload.length
      partsToUpload := partsToUpload
      stream := bytes
      encryptionRunningIv := random.encryptionIv
      md5Input := []
      cancelled := false
      requests := []
      pending := []
      succeeded := []
      completed := []
      failed := false })

/-- `execute:`, and the first parts, when there is a worker. -/
def execute (options : UploadOptions) (random : UploadRandom) (source : UploadSource) (fuel : Nat) : Option Execution :=
  match source with
  | .data bytes =>
    if bytes.isEmpty then some .failed else beginUpload crypto options random photoPartSize bytes fuel
  | .file none => some .failed
  | .file (some bytes) =>
    if int32 bytes.length > 512 * 1024 * 3000 ∨ int32 bytes.length = 0 then some .failed
    else beginUpload crypto options random videoPartSize bytes fuel

/-! ## Answers -/

inductive UploadEvent where
  | success (partId : Int)
  | failure (partId : Int)
  | cancel

def stepUpload (u : TGFileUploadActor) : UploadEvent → TGFileUploadActor
  | .success partId =>
    if partId ∈ u.pending then
      filePartUploadSuccess crypto partId
        { u with pending := u.pending.erase partId, succeeded := u.succeeded ++ [partId] }
    else u
  | .failure partId =>
    if partId ∈ u.pending then { u with pending := u.pending.erase partId, failed := true } else u
  | .cancel => { u with cancelled := true }

def runUpload (u : TGFileUploadActor) (events : List UploadEvent) : TGFileUploadActor :=
  events.foldl (stepUpload crypto) u

end

end TelegramClient.Upload
