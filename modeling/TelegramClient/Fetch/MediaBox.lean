import TelegramClient.Lib.Runs
import TelegramClient.Lib.Bytes

/-!
# The store of media

`MediaBox` fetches a resource into a file and links it to its complete path at the end. What it does for one resource is
done by blocks on a serial queue.

* `ResourceFetch` : a fetch, which yields the bytes of the resource from its start offset on;
* `StoredWell` : what is stored is a part of the resource, and the whole of it at the complete path.

Opening and linking files succeeds, and so does a write to a descriptor that is open.
-/

namespace TelegramClient.Fetch

structure ResourceFetch where
  /-- It has yielded the bytes up to here. -/
  position : Nat
  sentComplete : Bool
  /-- The signal has completed, or failed. -/
  finished : Bool
  disposed : Bool
  /-- The descriptor it writes to. It is kept when it is closed. -/
  fd : Option Nat
  closed : Bool
deriving DecidableEq

/-- A subscriber of `fetchedResource:`: its block waits, perhaps disposed of already; or it is in the context. -/
inductive Subscription where
  | waiting
  | disposedEarly
  | registered
  | ended
deriving DecidableEq

/-- A block on `_dataQueue`. -/
inductive QueueBlock where
  | subscribe (i : Nat)
  | unsubscribe (i : Nat)
  | cancel
  | result (k : Nat) (data : Bytes) (complete : Bool)
  | close (k : Nat)
deriving DecidableEq

structure MediaBox where
  /-- The file at the path of partial data. -/
  stored : Option Bytes
  /-- It is linked to the complete path. -/
  linked : Bool
  /-- The descriptors that are open on it. -/
  openFiles : List Nat
  /-- The context of the resource, which is dropped only when there is nothing in it. -/
  fetchSubscribers : List Nat
  fetchDisposable : Option Nat
  fetches : Nat → ResourceFetch
  fetchCount : Nat
  subscriptions : Nat → Subscription
  subscriptionCount : Nat
  queue : List QueueBlock

/-- A call from another thread, or from a block on the queue, in which `open` returns `handle`. -/
inductive Caller where
  | elsewhere
  | dataQueue (handle : Nat)
deriving DecidableEq

namespace MediaBox

def init : MediaBox where
  stored := none
  linked := false
  openFiles := []
  fetchSubscribers := []
  fetchDisposable := none
  fetches _ := ⟨0, false, true, false, none, false⟩
  fetchCount := 0
  subscriptions _ := .ended
  subscriptionCount := 0
  queue := []

def content (s : MediaBox) : Bytes := s.stored.getD []

def updateFetch (s : MediaBox) (k : Nat) (f : ResourceFetch → ResourceFetch) : MediaBox :=
  { s with fetches := Function.update s.fetches k (f (s.fetches k)) }

/-! ## Blocks -/

/-- The block of `onDispose:`. -/
def runClose (s : MediaBox) (k : Nat) : MediaBox :=
  match (s.fetches k).fd with
  | some handle => updateFetch { s with openFiles := s.openFiles.erase handle } k ({ · with closed := true })
  | none => s

/-- The fetch of the context is disposed of. On the queue the descriptor is closed at once, unless the signal has ended. -/
def disposeFetch (s : MediaBox) : MediaBox :=
  match s.fetchDisposable with
  | none => s
  | some k =>
    let s := { s with fetchDisposable := none }
    if (s.fetches k).finished ∨ (s.fetches k).disposed then s else runClose (updateFetch s k ({ · with disposed := true })) k

/-- A fetch is started from the size of the file on, which is below 2^31: `fileSize` returns an `int32_t`. -/
def startFetch (s : MediaBox) : MediaBox :=
  { s with
    fetches := Function.update s.fetches s.fetchCount ⟨s.content.length, false, false, false, none, false⟩
    fetchCount := s.fetchCount + 1
    fetchDisposable := some s.fetchCount }

/-- There is a file that is not empty at the complete path. -/
def isComplete (s : MediaBox) : Bool := s.linked && decide (s.content ≠ [])

/-- The subscriber gets its disposable. If it has been disposed of, its block runs before all others. -/
def register (s : MediaBox) (i : Nat) : MediaBox :=
  match s.subscriptions i with
  | .disposedEarly => { s with subscriptions := Function.update s.subscriptions i .ended, queue := .unsubscribe i :: s.queue }
  | _ => { s with subscriptions := Function.update s.subscriptions i .registered }

/-- The block of `fetchedResource:`. -/
def runSubscribe (s : MediaBox) (i : Nat) : MediaBox :=
  if s.isComplete then { s with subscriptions := Function.update s.subscriptions i .ended }
  else if s.fetchDisposable.isNone then register (startFetch { s with fetchSubscribers := i :: s.fetchSubscribers }) i
  else register { s with fetchSubscribers := i :: s.fetchSubscribers } i

def runUnsubscribe (s : MediaBox) (i : Nat) : MediaBox :=
  let s := { s with fetchSubscribers := s.fetchSubscribers.erase i }
  if s.fetchSubscribers.isEmpty then disposeFetch s else s

/-- The block of `cancelInteractiveResourceFetch:`. -/
def runCancel (s : MediaBox) : MediaBox := disposeFetch s

def openFile (handle : Nat) (s : MediaBox) (k : Nat) : MediaBox :=
  match (s.fetches k).fd with
  | some _ => s
  | none =>
    updateFetch { s with stored := some s.content, openFiles := handle :: s.openFiles } k ({ · with fd := some handle })

/-- The file is open for appending. A write to a closed descriptor is lost. -/
def write (s : MediaBox) (k : Nat) (data : Bytes) : MediaBox :=
  match (s.fetches k).fd with
  | some handle => if handle ∈ s.openFiles then { s with stored := some (s.content ++ data) } else s
  | none => s

def runResult (handle : Nat) (s : MediaBox) (k : Nat) (data : Bytes) (complete : Bool) : MediaBox :=
  let s := openFile handle s k
  let s := if data ≠ [] then write s k data else s
  { s with linked := s.linked || (complete && s.stored.isSome) }

def runBlock (handle : Nat) (s : MediaBox) : QueueBlock → MediaBox
  | .subscribe i => runSubscribe s i
  | .unsubscribe i => runUnsubscribe s i
  | .cancel => runCancel s
  | .result k data complete => runResult handle s k data complete
  | .close k => runClose s k

/-- `[_dataQueue dispatch:]`. -/
def dispatch (s : MediaBox) (block : QueueBlock) : Caller → MediaBox
  | .elsewhere => { s with queue := s.queue ++ [block] }
  | .dataQueue handle => runBlock handle s block

end MediaBox

/-! ## Runs -/

inductive BoxEvent where
  | subscribe (caller : Caller)
  | dispose (i : Nat) (caller : Caller)
  | cancel (caller : Caller)
  /-- A fetch yields its next `n` bytes, and says that they are the last. It may have been disposed of on the way. -/
  | result (k n : Nat) (complete : Bool) (caller : Caller)
  | finish (k : Nat) (caller : Caller)
  | run (handle : Nat)
deriving DecidableEq

def BoxEvent.handle : BoxEvent → Option Nat
  | .subscribe (.dataQueue handle) => some handle
  | .dispose _ (.dataQueue handle) => some handle
  | .cancel (.dataQueue handle) => some handle
  | .result _ _ _ (.dataQueue handle) => some handle
  | .finish _ (.dataQueue handle) => some handle
  | .run handle => some handle
  | _ => none

namespace MediaBox

def isResultOf (k : Nat) : QueueBlock → Bool
  | .result k' _ _ => k' = k
  | _ => false

/-- A fetch acts on the queue only while it is being started. -/
def mayAct (s : MediaBox) (k : Nat) (caller : Caller) : Bool :=
  decide (k < s.fetchCount) && !(s.fetches k).finished &&
    match caller with
    | .elsewhere => true
    | .dataQueue _ => !s.queue.any (isResultOf k)

/-- The resource is yielded in consecutive pieces, and the last one is the only one to be marked so. -/
def yieldResult (resource : Bytes) (s : MediaBox) (k n : Nat) (complete : Bool) (caller : Caller) : MediaBox :=
  let fetch := s.fetches k
  if s.mayAct k caller ∧ ¬fetch.sentComplete then
    let data := slice resource fetch.position n
    let position := fetch.position + data.length
    let complete := complete && decide (resource.length ≤ position)
    dispatch (updateFetch s k ({ · with position := position, sentComplete := complete })) (.result k data complete) caller
  else s

def disposeSubscription (s : MediaBox) (i : Nat) (caller : Caller) : MediaBox :=
  match s.subscriptions i with
  | .waiting => { s with subscriptions := Function.update s.subscriptions i .disposedEarly }
  | .registered => dispatch { s with subscriptions := Function.update s.subscriptions i .ended } (.unsubscribe i) caller
  | _ => s

end MediaBox

open MediaBox in
/-- The kernel never returns a descriptor that is open. -/
def stepBox (resource : Bytes) (s : MediaBox) (event : BoxEvent) : MediaBox :=
  if ∃ handle ∈ event.handle, handle ∈ s.openFiles then s
  else match event with
  | .subscribe caller =>
    dispatch { s with
      subscriptions := Function.update s.subscriptions s.subscriptionCount .waiting
      subscriptionCount := s.subscriptionCount + 1 } (.subscribe s.subscriptionCount) caller
  | .dispose i caller => disposeSubscription s i caller
  | .cancel caller => dispatch s .cancel caller
  | .result k n complete caller => yieldResult resource s k n complete caller
  | .finish k caller =>
    if s.mayAct k caller ∧ ¬(s.fetches k).disposed then
      dispatch (updateFetch s k ({ · with finished := true })) (.close k) caller
    else s
  | .run handle =>
    match s.queue with
    | block :: queue => runBlock handle { s with queue := queue } block
    | [] => s

/-! ## What should hold at every moment -/

namespace MediaBox

def hasDataOf (k : Nat) : QueueBlock → Bool
  | .result k' data _ => k' = k && decide (data ≠ [])
  | _ => false

def dataWaits (s : MediaBox) (k : Nat) : Bool := s.queue.any (hasDataOf k)

def isLive (s : MediaBox) (k : Nat) : Bool :=
  decide (k < s.fetchCount) && !(s.fetches k).finished && !(s.fetches k).disposed

def Appends (s : MediaBox) (k : Nat) : Prop := s.isLive k = true ∨ s.dataWaits k = true

end MediaBox

structure StoredWell (resource : Bytes) (s : MediaBox) : Prop where
  begins : s.content <+: resource
  one_appends : ∀ j k, s.Appends j → s.Appends k → j = k
  complete : s.linked = true → s.content = resource

end TelegramClient.Fetch
