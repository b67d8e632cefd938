import TelegramClient.Fetch.MultipartFetch
import TelegramClient.Upload.FileUpload

/-!
# The download of a video

`TGVideoDownloadActor` requests a video in parts, up to four at a time, and appends them to a file in the order of their
offsets. The file stays where the actor is cancelled, and the next actor goes on behind it.

* `Video`, `VideoFiles` : what is downloaded, and the two files it is downloaded to;
* `VideoEvent`, `stepVideo`, `runVideo` : answers in any order, and interruptions.

The arithmetic is that of `int`. Every answer has the bytes of the file.
-/

namespace TelegramClient.Fetch

open MtProto Upload

structure VideoKey where
  key : Block 32
  iv : Block 32

structure Video where
  /-- The file on the server. -/
  content : Bytes
  encryption : Option VideoKey
  /-- `decryptedSize`, and 0 without it. -/
  finalSize : Int
  roundMessage : Bool
  /-- `videoFileLength` and `decryptedSize` are of type `int`. -/
  size_lt : content.length < 2 ^ 31
  finalSize_lt : finalSize < 2 ^ 31
  /-- An encrypted file is made of blocks. -/
  blocks : encryption.isSome → content.length % 16 = 0

/-- `_tempStoreFilePath` and `_storeFilePath`. -/
structure VideoFiles where
  tempStoreFile : Option Bytes
  storeFile : Option Bytes

namespace VideoFiles

def writeData (files : VideoFiles) (data : Bytes) : VideoFiles :=
  { files with tempStoreFile := files.tempStoreFile.map (· ++ data) }

def moveItem (files : VideoFiles) : Option VideoFiles :=
  match files.tempStoreFile, files.storeFile with
  | some bytes, none => some ⟨none, some bytes⟩
  | _, _ => none

end VideoFiles

structure TGVideoPartData where
  partOffset : Int
  partLength : Int
  downloadedData : Option Bytes

/-- `upload.getFile`. -/
structure VideoPartRequest where
  offset : Int
  length : Int
  limit : Nat
deriving DecidableEq

structure TGVideoDownloadActor where
  encryptionKey : Option (Block 32)
  runningEncryptionIv : Option (Block 32)
  finalSize : Int
  videoFileLength : Int
  downloadedFileSize : Int
  downloadingParts : SortedTable Int TGVideoPartData
  explicitDownloadParts : List (Int × Int)
  worker1 : Bool
  worker2 : Bool
  /-- The requests that have no answer. -/
  requests : List VideoPartRequest

/-- `actionCompleted`, `actionFailed`. -/
inductive VideoResult where
  | completed
  | failed
deriving DecidableEq

structure VideoState where
  files : VideoFiles
  actor : Option TGVideoDownloadActor
  results : List VideoResult

/-! ## Requests -/

def preferredPartSize : Int := 128 * 1024

namespace TGVideoDownloadActor

def activeDownloadingParts (a : TGVideoDownloadActor) : Nat :=
  (a.downloadingParts.entries.filter fun e => e.2.downloadedData.isNone).length

def nextDownloadOffset (a : TGVideoDownloadActor) : Int :=
  a.downloadingParts.entries.foldl
    (fun next e => if int32 (e.1 + e.2.partLength) > next then int32 (e.1 + e.2.partLength) else next)
    a.downloadedFileSize

/-- A part takes its place in `_downloadingParts`, and is requested. -/
def requestPart (a : TGVideoDownloadActor) (offset length : Int) : TGVideoDownloadActor :=
  { a with
    downloadingParts := a.downloadingParts.insert offset ⟨offset, length, none⟩
    requests := a.requests ++ [⟨offset, length, updatedLimit length.toNat⟩] }

def setData (a : TGVideoDownloadActor) (offset : Int) (part : TGVideoPartData) (data : Bytes) : TGVideoDownloadActor :=
  { a with downloadingParts := a.downloadingParts.insert offset { part with downloadedData := some data } }

/-- The loop that fills the free places, of which there are so many. -/
def requestParts : Nat → TGVideoDownloadActor → TGVideoDownloadActor
  | 0, a => a
  | free + 1, a =>
    match a.explicitDownloadParts with
    | [] =>
      if a.nextDownloadOffset ≥ a.videoFileLength then a
      else requestParts free (a.requestPart a.nextDownloadOffset
        (min preferredPartSize (int32 (a.videoFileLength - a.downloadedFileSize))))
    | (offset, length) :: explicitDownloadParts =>
      requestParts free ({ a with explicitDownloadParts := explicitDownloadParts }.requestPart offset length)

end TGVideoDownloadActor

open TGVideoDownloadActor in
/-- `downloadFileParts` of the actor `a`. -/
def downloadFileParts (s : VideoState) (a : TGVideoDownloadActor) : VideoState :=
  if a.downloadedFileSize ≥ a.videoFileLength then
    match s.files.moveItem with
    | some files => { files := files, actor := some a, results := s.results ++ [.completed] }
    | none => { s with actor := some a, results := s.results ++ [.failed] }
  else if a.worker1 then { s with actor := some (requestParts (4 - a.activeDownloadingParts) a) }
  else { s with actor := some a }

/-! ## Answers -/

section
variable (aes : Aes (Block 32))

/-- What is written for the data of a part, and the iv for the next one. -/
def dataToWrite (a : TGVideoDownloadActor) (data : Bytes) : Bytes × Option (Block 32) :=
  match a.encryptionKey, a.runningEncryptionIv with
  | some key, some iv =>
    let (decryptedData, iv) := mtAesDecryptInplaceAndModifyIv aes data key iv
    if a.finalSize ≠ 0 ∧ a.finalSize ≥ a.downloadedFileSize ∧
        int32 (a.downloadedFileSize + decryptedData.length) > a.finalSize then
      (decryptedData.take (int32 (a.finalSize - a.downloadedFileSize)).toNat, some iv)
    else (decryptedData, some iv)
  | _, iv => (data, iv)

/-- A part whose turn it is. A part that is too short leaves a gap. -/
def commitPart (offset partLength : Int) (data : Bytes) (files : VideoFiles) (a : TGVideoDownloadActor) :
    VideoFiles × TGVideoDownloadActor :=
  let downloadedFileSize := int32 (a.downloadedFileSize + data.length)
  let dataGap :=
    if data.length < partLength ∧ int32 (downloadedFileSize + data.length) < a.videoFileLength then
      [(downloadedFileSize, int32 (partLength - data.length))]
    else []
  (files.writeData (dataToWrite aes a data).1,
    { a with
      runningEncryptionIv := (dataToWrite aes a data).2
      downloadedFileSize := downloadedFileSize
      explicitDownloadParts := a.explicitDownloadParts ++ dataGap
      downloadingParts := a.downloadingParts.erase offset })

/-- One pass over the sorted offsets, and whether a part has been committed. `nextWriteOffset` goes along with
`_downloadedFileSize`. -/
def commitParts : List Int → VideoFiles → TGVideoDownloadActor → Bool × VideoFiles × TGVideoDownloadActor
  | [], files, a => (false, files, a)
  | offset :: offsets, files, a =>
    if offset = a.downloadedFileSize then
      match a.downloadingParts.lookup offset with
      | some ⟨_, partLength, some data⟩ =>
        let (files, a) := commitPart aes offset partLength data files a
        (true, (commitParts offsets files a).2)
      | _ => (false, files, a)
    else commitParts offsets files a

/-- `while (true)`. A pass that goes on has committed a part, so there are at most as many of them as parts, and one
more. -/
def commitLoop : Nat → List Int → VideoFiles → TGVideoDownloadActor → VideoFiles × TGVideoDownloadActor
  | 0, _, files, a => (files, a)
  | fuel + 1, offsets, files, a =>
    match commitParts aes offsets files a with
    | (true, files, a) => commitLoop fuel offsets files a
    | (false, files, a) => (files, a)

/-- All parts whose turn it is, among the parts that there are. -/
def commitAll (files : VideoFiles) (a : TGVideoDownloadActor) : VideoFiles × TGVideoDownloadActor :=
  let sortedDownloadingParts := a.downloadingParts.entries.map Prod.fst
  commitLoop aes (sortedDownloadingParts.length + 1) sortedDownloadingParts files a

/-- `videoPartDownloadSuccess:length:data:` of the actor `a`. -/
def videoPartDownloadSuccess (s : VideoState) (a : TGVideoDownloadActor) (offset : Int) (data : Bytes) : VideoState :=
  match a.downloadingParts.lookup offset with
  | none => { s with actor := some a, results := s.results ++ [.failed] }
  | some part =>
    let (files, a) := commitAll aes s.files (a.setData offset part data)
    downloadFileParts { s with files := files } a

end

/-! ## Beginning -/

/-- The temporary file that the stream appends to, and where it ends. -/
def partialFile (v : Video) (tempStoreFile : Option Bytes) : Bytes × Int :=
  match tempStoreFile with
  | none => ([], 0)
  | some bytes =>
    if int32 bytes.length % 1024 ≠ 0 then ([], 0)
    else if v.encryption.isSome ∧ v.roundMessage then ([], 0)
    else (bytes, int32 bytes.length)

def TGVideoDownloadActor.init (v : Video) (fileSize : Int) : TGVideoDownloadActor where
  encryptionKey := v.encryption.map VideoKey.key
  runningEncryptionIv := v.encryption.map VideoKey.iv
  finalSize := v.finalSize
  videoFileLength := v.content.length
  downloadedFileSize := fileSize
  downloadingParts := .empty
  explicitDownloadParts := []
  worker1 := false
  worker2 := false
  requests := []

/-- `execute:` of an actor for the download. -/
def execute (v : Video) (s : VideoState) : VideoState :=
  if v.content.length = 0 then { s with results := s.results ++ [.failed] }
  else if s.files.storeFile.isSome then { s with results := s.results ++ [.completed] }
  else
    let (file, fileSize) := partialFile v s.files.tempStoreFile
    { s with
      files := { s.files with tempStoreFile := some file }
      actor := some (.init v fileSize) }

/-! ## Runs -/

inductive VideoEvent where
  | start
  | worker
  | additionalWorker
  /-- A request is answered with the bytes of the file that it asks for. -/
  | answer (request : VideoPartRequest)
  /-- The actor is gone, and so are its requests. -/
  | cancel

def stepVideo (aes : Aes (Block 32)) (v : Video) (s : VideoState) (event : VideoEvent) : VideoState :=
  match s.actor, event with
  | none, .start => execute v s
  | none, _ => s
  | some _, .start => s
  | some a, .worker => downloadFileParts s { a with worker1 := true }
  | some a, .additionalWorker => downloadFileParts s { a with worker2 := true }
  | some a, .answer request =>
    if request ∈ a.requests then
      videoPartDownloadSuccess aes s { a with requests := a.requests.erase request } request.offset
        (slice v.content request.offset.toNat request.limit)
    else s
  | some _, .cancel => { s with actor := none }

def VideoState.init : VideoState := ⟨⟨none, none⟩, none, []⟩

def runVideo (aes : Aes (Block 32)) (v : Video) (events : List VideoEvent) : VideoState :=
  events.foldl (stepVideo aes v) .init

end TelegramClient.Fetch
