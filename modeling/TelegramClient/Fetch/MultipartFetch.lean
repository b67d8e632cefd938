import TelegramClient.Lib.Runs
import TelegramClient.Lib.SortedTable
import TelegramClient.Lib.Bytes

/-!
# Downloads in parts

`MultipartFetchManager` requests a range of a file in parts, up to four at a time.

* `updatedLimit` : the limit a part is requested with;
* `stepFetch` : an event on its queue.
-/

namespace TelegramClient.Fetch

/-- `_defaultPartSize`, and the length of the chunks that are hashed. -/
def defaultPartSize : Nat := 128 * 1024

/-- The loop that raises the limit, for at most `fuel` rounds. -/
def updatedLimitFrom : Nat → Nat → Nat
  | 0, limit => limit
  | fuel + 1, limit => if limit % 4096 ≠ 0 ∨ 1048576 % limit ≠ 0 then updatedLimitFrom fuel (limit + 1) else limit

/-- A part size is at most `defaultPartSize`, where the loop ends. -/
def updatedLimit (partSize : Nat) : Nat := updatedLimitFrom defaultPartSize partSize

structure NSRange where
  location : Nat
  length : Nat
deriving DecidableEq

/-- `TGCdnFileData`. -/
structure CdnFileData where
  cdnId : Nat
  token : Bytes
  encryptionKey : Bytes
  encryptionIv : Bytes
deriving DecidableEq

/-- What the requests of parts are made of: the location of the file in its datacenter, or its data on a CDN. -/
inductive RequestData where
  | location
  | cdn (fileData : CdnFileData)
deriving DecidableEq

/-- The request of a part: it waits for request data, or for an answer, or it has failed. -/
inductive PartRequest where
  | waiting
  | sent (data : RequestData)
  | failed
deriving DecidableEq

structure PendingPart where
  size : Nat
  request : PartRequest
deriving DecidableEq

/-- The data of a part. The source is not recorded in the code. -/
structure FetchedPart where
  data : Bytes
  fromCdn : Bool
deriving DecidableEq

inductive Output where
  | partReady (offset : Nat) (part : FetchedPart)
  | completed
  | failed
deriving DecidableEq

structure FetchManager where
  parallelParts : Nat
  range : NSRange
  completeSize : Option Nat
  committedOffset : Nat
  fetchingParts : SortedTable Nat PendingPart
  fetchedParts : SortedTable Nat FetchedPart
  /-- The value of the variable, and the one it gets as soon as there is a worker for it. -/
  requestData : Option RequestData
  nextRequestData : Option RequestData
  switchedToCdn : Bool
  /-- The file that is being uploaded to its CDN again. -/
  reuploadedToCdn : Option CdnFileData
  updatedFileReference : Bool
  /-- Set only by `switchToCdnWithFileData:partHashes:`, which has no caller but itself. -/
  cdnFilePartHashes : Option (SortedTable Nat Bytes)
  /-- The hashes that came with redirects. -/
  suppliedHashes : List (Nat × Bytes)
  outputs : List Output
  cancelled : Bool
  /-- An assertion has failed. -/
  crashed : Bool

/-- `MTSha256` and `MTAesCtrDecrypt`. -/
structure FetchCrypto where
  sha256 : Bytes → Bytes
  aesCtrDecrypt : Bytes → Bytes → Bytes → Bytes

namespace FetchManager

/-- `initWithResource:...`. -/
def init (size : Option Nat) (range : NSRange) : FetchManager where
  parallelParts := if size.isSome then 4 else 1
  range :=
    match size with
    | some size => ⟨range.location, min (range.location + range.length) size⟩
    | none => range
  completeSize := size
  committedOffset := range.location
  fetchingParts := ⟨[], .nil⟩
  fetchedParts := ⟨[], .nil⟩
  requestData := none
  nextRequestData := some .location
  switchedToCdn := false
  reuploadedToCdn := none
  updatedFileReference := false
  cdnFilePartHashes := none
  suppliedHashes := []
  outputs := []
  cancelled := false
  crashed := false

/-! ## `checkState` -/

variable (crypto : FetchCrypto)

def chunkMatches (hashes : SortedTable Nat Bytes) (basePartOffset : Nat) (dataToWrite : Bytes) (localOffset : Nat) :
    Bool :=
  let partOffset := basePartOffset + localOffset
  match hashes.lookup partOffset with
  | none => false
  | some hashData =>
    let localHash :=
      if partOffset + 128 * 1024 > dataToWrite.length then crypto.sha256 (dataToWrite.drop localOffset)
      else crypto.sha256 (slice dataToWrite localOffset (128 * 1024))
    decide (localHash = hashData)

/-- The chunks are checked in turn, when there are hashes. -/
def hashesMatch (cdnFilePartHashes : Option (SortedTable Nat Bytes)) (offset : Nat) (data : Bytes) : Bool :=
  match cdnFilePartHashes with
  | none => true
  | some hashes =>
    (List.range ((data.length + 128 * 1024 - 1) / (128 * 1024))).all fun k =>
      chunkMatches crypto hashes offset data (k * (128 * 1024))

/-- The loop over the parts, in the order of their offsets. It is left early where a hash is wrong. -/
def deliverParts : List (Nat × FetchedPart) → FetchManager → Bool × FetchManager
  | [], s => (true, s)
  | (offset, part) :: parts, s =>
    if offset = s.committedOffset then
      let s := { s with
        committedOffset := s.committedOffset + part.data.length
        fetchedParts := s.fetchedParts.erase offset }
      if hashesMatch crypto s.cdnFilePartHashes offset part.data then
        deliverParts parts { s with outputs := s.outputs ++ [.partReady offset part] }
      else (false, { s with outputs := s.outputs ++ [.failed] })
    else deliverParts parts s

def nextOffset (s : FetchManager) : Nat :=
  let nextOffset := s.fetchingParts.entries.foldl (fun next e => max next (e.1 + e.2.size)) s.committedOffset
  s.fetchedParts.entries.foldl (fun next e => max next (e.1 + e.2.data.length)) nextOffset

def upperBound (s : FetchManager) : Nat :=
  match s.completeSize with
  | some completeSize => min (s.range.location + s.range.length) completeSize
  | none => s.range.location + s.range.length

def partSize (s : FetchManager) : Nat := min (s.upperBound - s.nextOffset) defaultPartSize

/-- A request, sent as soon as there is request data. -/
def request : Option RequestData → PartRequest
  | some data => .sent data
  | none => .waiting

/-- A part is requested at `nextOffset`, with the limit `updatedLimit` of its size. -/
def fetchPart (s : FetchManager) : FetchManager :=
  { s with fetchingParts := s.fetchingParts.insert s.nextOffset ⟨s.partSize, request s.requestData⟩ }

/-- The loop that fills the free places, for at most `fuel` rounds. -/
def fetchParts : Nat → FetchManager → FetchManager
  | 0, s => s
  | fuel + 1, s =>
    if s.fetchingParts.entries.length < s.parallelParts then
      if s.nextOffset < s.upperBound then fetchParts fuel s.fetchPart else s
    else s

/-- All of the file, or of the range, has gone to the owner. -/
def isComplete (s : FetchManager) : Bool :=
  match s.completeSize with
  | some completeSize => decide (completeSize ≤ s.committedOffset ∨ s.range.location + s.range.length ≤ s.committedOffset)
  | none => decide (s.range.location + s.range.length ≤ s.committedOffset)

def checkState (s : FetchManager) : FetchManager :=
  match deliverParts crypto s.fetchedParts.entries s with
  | (false, s) => s
  | (true, s) =>
    if s.isComplete then { s with outputs := s.outputs ++ [.completed] }
    else fetchParts s.parallelParts s

/-! ## Answers -/

def storePart (s : FetchManager) (partOffset : Nat) (data : Bytes) (fromCdn : Bool) : FetchManager :=
  { s with
    fetchingParts := s.fetchingParts.erase partOffset
    fetchedParts := s.fetchedParts.insert partOffset ⟨data, fromCdn⟩ }

/-- The data of the part at `partOffset`. It is stored as it came: what is clipped to the size of the part is not used. -/
def partAnswer (s : FetchManager) (partOffset : Nat) (part : PendingPart) (data : Bytes) (fromCdn : Bool) :
    FetchManager :=
  match s.completeSize with
  | some _ =>
    if data.length = part.size then checkState crypto (storePart s partOffset data fromCdn)
    else { s with crashed := true }
  | none =>
    if data.length < part.size then
      checkState crypto (storePart { s with completeSize := some (partOffset + data.length) } partOffset data fromCdn)
    else checkState crypto (storePart s partOffset data fromCdn)

/-- `[_requestData set:]`: without a value until there is a worker. -/
def setRequestData (s : FetchManager) (data : RequestData) : FetchManager :=
  { s with requestData := none, nextRequestData := some data }

/-- The part at `offset` gets no answer to this request. -/
def setRequest (s : FetchManager) (offset : Nat) (part : PendingPart) (request : PartRequest) : FetchManager :=
  { s with fetchingParts := s.fetchingParts.insert offset { part with request := request } }

/-- `switchToCdn:`. -/
def switchToCdn (s : FetchManager) (fileData : CdnFileData) : FetchManager :=
  if s.switchedToCdn then s else setRequestData { s with switchedToCdn := true } (.cdn fileData)

/-- `reuploadToCdn:requestToken:`. -/
def reuploadToCdn (s : FetchManager) (fileData : CdnFileData) : FetchManager :=
  if s.reuploadedToCdn.isSome then s else { s with reuploadedToCdn := some fileData }

/-- The vector for an offset: its last four bytes are the number of the block. -/
def offsetIv (encryptionIv : Bytes) (offset : Nat) : Bytes :=
  encryptionIv.take (encryptionIv.length - 4) ++ beBytes 4 (offset / 16)

def decryptCdn (fileData : CdnFileData) (offset : Nat) (bytes : Bytes) : Bytes :=
  crypto.aesCtrDecrypt bytes fileData.encryptionKey (offsetIv fileData.encryptionIv offset)

end FetchManager

inductive Answer where
  | file (bytes : Bytes)
  | fileCdnRedirect (fileData : CdnFileData) (fileHashes : List (Nat × Bytes))
  | cdnFile (bytes : Bytes)
  | cdnFileReuploadNeeded
  /-- An error of type `FILE_REFERENCE_...`. -/
  | fileReferenceError
  | error
deriving DecidableEq

inductive FetchEvent where
  | answer (offset : Nat) (answer : Answer)
  /-- There is a worker for the request data. -/
  | worker
  | reuploaded
  | originInfo
  | cancel
deriving DecidableEq

namespace FetchManager

variable (crypto : FetchCrypto)

def handleAnswer (s : FetchManager) (offset : Nat) (part : PendingPart) : RequestData → Answer → FetchManager
  | .location, .file bytes => partAnswer crypto s offset part bytes false
  | .location, .fileCdnRedirect fileData fileHashes =>
    switchToCdn { setRequest s offset part .waiting with suppliedHashes := s.suppliedHashes ++ fileHashes } fileData
  | .location, .fileReferenceError => { setRequest s offset part .waiting with updatedFileReference := true }
  -- A datacenter does not answer as a CDN does.
  | .location, .cdnFile _ => s
  | .location, .cdnFileReuploadNeeded => s
  | .cdn fileData, .cdnFile bytes => partAnswer crypto s offset part (decryptCdn crypto fileData offset bytes) true
  | .cdn _, .file bytes => partAnswer crypto s offset part bytes true
  | .cdn _, .fileCdnRedirect fileData _ => switchToCdn (setRequest s offset part .waiting) fileData
  | .cdn fileData, .cdnFileReuploadNeeded => reuploadToCdn (setRequest s offset part .waiting) fileData
  | .cdn _, .fileReferenceError => setRequest s offset part .failed
  | _, .error => setRequest s offset part .failed

/-- The request data is there: every part that has not failed is requested with it. -/
def workerReady (s : FetchManager) (data : RequestData) : FetchManager :=
  { s with
    requestData := some data
    nextRequestData := none
    fetchingParts := s.fetchingParts.mapValues fun part =>
      if part.request = .failed then part else { part with request := .sent data } }

def start (size : Option Nat) (range : NSRange) : FetchManager := checkState crypto (init size range)

end FetchManager

open FetchManager in
/-- An event on the queue. Answers to requests that are no longer waited for are dropped. -/
def stepFetch (crypto : FetchCrypto) (s : FetchManager) (event : FetchEvent) : FetchManager :=
  if s.crashed ∨ s.cancelled then s
  else match event with
  | .answer offset answer =>
    match s.fetchingParts.lookup offset with
    | some part =>
      match part.request with
      | .sent data => handleAnswer crypto s offset part data answer
      | _ => s
    | none => s
  | .worker =>
    match s.nextRequestData with
    | some data => workerReady s data
    | none => s
  | .reuploaded =>
    match s.reuploadedToCdn with
    | some fileData => setRequestData { s with reuploadedToCdn := none } (.cdn fileData)
    | none => s
  | .originInfo =>
    if s.updatedFileReference then setRequestData { s with updatedFileReference := false } .location else s
  | .cancel => { s with cancelled := true }

end TelegramClient.Fetch
