import TelegramClient.Secret.MessageCrypto

/-!
# The outgoing queue of a secret chat

The messages to a peer are rows of a table and carry consecutive numbers. `TGSecretOutgoingQueueActor._poll` reads the
rows above the number `sent_seq_out` on the queue of the database and sends, on the stage queue, a request for each of
them that is not under way. When a request succeeds its number becomes `sent_seq_out`; when it fails the message may be
sent again. The peer confirms numbers, and rows up to them are deleted.

* `OutgoingQueue` : the tables of one peer, the requests under way, and ghosts;
* `enqueuePeerOutgoingAction`, `dequeuePeerOutgoingActions`, `confirmPeerSeqOut`, `actionCompletedWithId` : the
  operations;
* `OutgoingEvent`, `stepOutgoing` : what can happen, in any order.

Jobs of the database are applied at once. What a poll has read waits for the stage queue.
-/

namespace TelegramClient.Secret

/-- A row of the table, and what is read from it (`TGStoredSecretActionWithSeq`). -/
structure OutgoingRow where
  actionId : Nat
  action : SecretAction
  seqIn : Int32
  seqOut : Int32

/-- `TGSecretOutgoingRequest`, with the actor that made it. -/
structure OutgoingRequest where
  actionId : Nat
  seqOut : Int32
  isResend : Bool
  layer : Nat
  actor : Nat

/-- What `dequeuePeerOutgoingActions` passes to its completion, and the actor that waits for it. -/
structure OutgoingSnapshot where
  actor : Nat
  actions : List OutgoingRow
  resendActions : List OutgoingRow

/-- The tables of one peer, the actors and the requests; from `enqueued` on ghosts. Rows stand in the order of their
ids, which are given out once (`AUTOINCREMENT`). -/
structure OutgoingQueue where
  rows : List OutgoingRow
  resendRows : List OutgoingRow
  nextActionId : Nat
  nextResendActionId : Nat
  /-- The properties `seq_out`, `seq_in` and `sent_seq_out`. -/
  seqOut : Option Int32
  seqIn : Option Int32
  sentSeqOut : Option Int32
  peerLayer : Nat
  /-- The actor of the peer, and `_executingRequestsActionIds` of it and of those before it. -/
  actor : Nat
  executingRequestsActionIds : Nat → List Nat
  stageQueue : List OutgoingSnapshot
  requests : List OutgoingRequest
  enqueued : List OutgoingRow
  /-- The rows of which a request was completed without an error. -/
  completed : List Nat
  /-- The rows that a confirmation of the peer has deleted. -/
  confirmed : List Nat

def initOutgoing (peerLayer : Nat) : OutgoingQueue :=
  ⟨[], [], 1, 1, none, none, none, peerLayer, 0, fun _ => [], [], [], [], [], []⟩

namespace OutgoingQueue

/-! ## The database -/

def currentPeerSentSeqOut (s : OutgoingQueue) : Int32 := s.sentSeqOut.getD (-1)

/-- `peerNextSeqOut`. -/
def peerNextSeqOut (s : OutgoingQueue) : Int32 :=
  match s.seqOut with
  | none => 0
  | some value => value + 1

/-- `enqueuePeerOutgoingAction`, which is called with `useSeq` for the layers from 17 on. -/
def enqueuePeerOutgoingAction (action : SecretAction) (s : OutgoingQueue) : OutgoingQueue :=
  let useSeq := 17 ≤ action.layer
  let seqOut := if useSeq then s.peerNextSeqOut else 0
  let seqIn := if useSeq then s.seqIn.getD 0 else 0
  let row : OutgoingRow := ⟨s.nextActionId, action, seqIn, seqOut⟩
  { s with
    rows := s.rows ++ [row]
    nextActionId := s.nextActionId + 1
    seqOut := if useSeq then some seqOut else s.seqOut
    enqueued := s.enqueued ++ [row] }

/-- `enqueuePeerOutgoingResendActions`: copies of the rows that the peer asks for. -/
def enqueuePeerOutgoingResendActions (fromSeq toSeq : Int32) (s : OutgoingQueue) : OutgoingQueue :=
  let actions := (s.rows.filter fun row => fromSeq ≤ row.seqOut && row.seqOut ≤ toSeq).insertionSort
    fun row row' => row.seqOut ≤ row'.seqOut
  { s with
    resendRows := s.resendRows ++ actions.mapIdx fun i row => { row with actionId := s.nextResendActionId + i }
    nextResendActionId := s.nextResendActionId + actions.length }

/-- `dequeuePeerOutgoingActions`: the rows that are to be sent, and those to be sent again. -/
def dequeuePeerOutgoingActions (s : OutgoingQueue) : List OutgoingRow × List OutgoingRow :=
  let sentSeqOut := if s.peerLayer < 17 then -1 else s.currentPeerSentSeqOut
  (s.rows.filter fun row => row.seqOut > sentSeqOut, s.resendRows)

def applyPeerSeqOut (seqOut : Int32) (s : OutgoingQueue) : OutgoingQueue := { s with sentSeqOut := some seqOut }

def applyPeerSeqIn (seqIn : Int32) (s : OutgoingQueue) : OutgoingQueue := { s with seqIn := some seqIn }

def confirmPeerSeqOut (seqOut : Int32) (s : OutgoingQueue) : OutgoingQueue :=
  { s with
    rows := s.rows.filter fun row => ¬row.seqOut ≤ seqOut
    confirmed := s.confirmed ++ (s.rows.filter fun row => row.seqOut ≤ seqOut).map (·.actionId) }

def deletePeerOutgoingActions (actionIds : List Nat) (s : OutgoingQueue) : OutgoingQueue :=
  { s with rows := s.rows.filter fun row => row.actionId ∉ actionIds }

def deletePeerOutgoingResendActions (actionIds : List Nat) (s : OutgoingQueue) : OutgoingQueue :=
  { s with resendRows := s.resendRows.filter fun row => row.actionId ∉ actionIds }

/-! ## The actor -/

/-- The first half of `_poll`. -/
def poll (s : OutgoingQueue) : OutgoingQueue :=
  let (actions, resendActions) := s.dequeuePeerOutgoingActions
  { s with stageQueue := s.stageQueue ++ [⟨s.actor, actions, resendActions⟩] }

/-- The fields that `requestForAction:` gives the request of an action. -/
def outgoingRequest (actor : Nat) (isResend : Bool) (action : OutgoingRow) : OutgoingRequest where
  actionId := action.actionId
  seqOut := if 17 ≤ action.action.layer then action.seqOut else -1
  isResend := isResend
  layer := action.action.layer
  actor := actor

/-- The second half of `_poll`: an action that is under way is skipped. -/
def sendRequests (snapshot : OutgoingSnapshot) (s : OutgoingQueue) : OutgoingQueue :=
  let executing := s.executingRequestsActionIds snapshot.actor
  let idle (action : OutgoingRow) : Bool := !executing.contains action.actionId
  let requests := (snapshot.actions.filter idle).map (outgoingRequest snapshot.actor false) ++
    (snapshot.resendActions.filter idle).map (outgoingRequest snapshot.actor true)
  { s with
    requests := s.requests ++ requests
    executingRequestsActionIds :=
      Function.update s.executingRequestsActionIds snapshot.actor (executing ++ requests.map (·.actionId)) }

/-- `actionCompletedWithId:`. -/
def actionCompletedWithId (request : OutgoingRequest) (s : OutgoingQueue) : OutgoingQueue :=
  if request.isResend then s.deletePeerOutgoingResendActions [request.actionId]
  else
    let s := { s with completed := s.completed ++ [request.actionId] }
    if request.seqOut ≥ 0 ∧ request.layer ≥ 17 then s.applyPeerSeqOut request.seqOut
    else s.deletePeerOutgoingActions [request.actionId]

/-- The completion of a request. Its block holds the actor that made it, also after another one has replaced it. -/
def requestCompleted (request : OutgoingRequest) (error : Bool) (s : OutgoingQueue) : OutgoingQueue :=
  if error then
    { s with
      executingRequestsActionIds := Function.update s.executingRequestsActionIds request.actor
        ((s.executingRequestsActionIds request.actor).filter (· ≠ request.actionId)) }
  else s.actionCompletedWithId request

end OutgoingQueue

/-! ## Events -/

inductive OutgoingEvent where
  | enqueue (action : SecretAction)
  | enqueueResend (fromSeq toSeq : Int32)
  | applyPeerSeqIn (seqIn : Int32)
  /-- `watcherJoined:`. -/
  | poll
  /-- The stage runs the next block that a poll has given to it. -/
  | runStage
  /-- One of the requests under way is completed. -/
  | completed (index : Nat) (error : Bool)
  | confirm (seqOut : Int32)
  /-- A new actor, which begins with a poll. -/
  | restart
  /-- The program ends and starts again. -/
  | relaunch

open OutgoingQueue

def stepOutgoing (s : OutgoingQueue) : OutgoingEvent → OutgoingQueue
  | .enqueue action => s.enqueuePeerOutgoingAction action
  | .enqueueResend fromSeq toSeq => s.enqueuePeerOutgoingResendActions fromSeq toSeq
  | .applyPeerSeqIn seqIn => s.applyPeerSeqIn seqIn
  | .poll => s.poll
  | .runStage =>
    match s.stageQueue with
    | [] => s
    | snapshot :: snapshots => { s with stageQueue := snapshots }.sendRequests snapshot
  | .completed index error =>
    match s.requests[index]? with
    | none => s
    | some request => { s with requests := s.requests.eraseIdx index }.requestCompleted request error
  | .confirm seqOut => s.confirmPeerSeqOut seqOut
  | .restart => { s with actor := s.actor + 1 }.poll
  | .relaunch => { s with actor := s.actor + 1, stageQueue := [], requests := [] }.poll

def runOutgoing (peerLayer : Nat) (events : List OutgoingEvent) : OutgoingQueue :=
  events.foldl stepOutgoing (initOutgoing peerLayer)

end TelegramClient.Secret
