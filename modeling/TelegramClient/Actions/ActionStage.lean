import TelegramClient.Lib.Runs

/-!
# The action stage

`ActionStage` keeps the requests for actors: those that are active, those that wait for cancellation because all watchers
have left, and queues in which actors with the same `requestQueueName` wait for each other. Its methods call foreign code
(actors and watchers), and that code may call the stage again before it returns.

* `ASActor`, `RequestInfo` : an actor, and the request that it serves;
* `exec`, `step` : one instruction, and one step of the stage or of the code around it.
-/

namespace TelegramClient.Actions

/-- An actor for a path, with the name of its queue and whether its `cancelTimeout` is above zero. -/
structure ASActor where
  path : String
  requestQueueName : Option String
  delaysCancel : Bool
  deriving DecidableEq

abbrev ASHandle := Nat

/-- Actors have numbers, in the order in which they are made. -/
structure RequestInfo where
  requestBuilder : Nat
  watchers : List ASHandle
  deriving DecidableEq

inductive Callback where
  | prepare (actor : Nat)
  | execute (actor : Nat)
  | cancel (actor : Nat)
  | watcherJoined (actor : Nat) (watcher : ASHandle) (waitingInActorQueue : Bool)
  | actorCompleted (watcher : ASHandle) (path : String)
  deriving DecidableEq

inductive Instruction where
  /-- Foreign code that has not returned. -/
  | callback (code : Callback)
  /-- `_requestGeneric` behind `prepare:`. -/
  | enqueue (actor : Nat) (changePriority : Bool)
  | changeActorPriority (path : String)
  /-- A round of the loop of `actionCompleted:`. -/
  | notify (watcher : ASHandle) (actor : Nat) (path : String)
  | removeRequestFromQueueAndProceedIfFirst (actor : Nat)
  /-- The last line of `performCancelRequest:`. -/
  | removeCancelTimer (path : String)
  /-- A round of the loop of `removeWatcher:`. -/
  | removeWatcher (watcher : ASHandle) (path : String)
  deriving DecidableEq

structure ActionStage where
  /-- All actors that have been made. -/
  actors : List ASActor
  activeRequests : String → Option RequestInfo
  cancelRequestTimers : String → Option RequestInfo
  /-- A queue that is not there is empty. -/
  requestQueues : String → List Nat
  pending : List Instruction
  /-- The handles whose delegate is gone. -/
  released : List ASHandle
  /-- The calls of `execute:`, and the actors whose request was completed, that were told to cancel, and that have
  reported. -/
  executed : List Nat
  completed : List Nat
  cancelled : List Nat
  reported : List Nat
  /-- How often `actorCompleted:` was called for a watcher that has joined an actor and has not been removed. -/
  completions : ASHandle → Nat → Option Nat
  /-- The actors that were joined when they had reported or been told to cancel. -/
  lateJoins : List Nat

namespace ActionStage

def initial : ActionStage where
  actors := []
  activeRequests _ := none
  cancelRequestTimers _ := none
  requestQueues _ := []
  pending := []
  released := []
  executed := []
  completed := []
  cancelled := []
  reported := []
  completions _ _ := none
  lateJoins := []

def pathOf (s : ActionStage) (actor : Nat) : Option String := s.actors[actor]?.map (·.path)

def requestQueueName (s : ActionStage) (actor : Nat) : Option String := s.actors[actor]?.bind (·.requestQueueName)

def delaysCancel (s : ActionStage) (actor : Nat) : Bool := (s.actors[actor]?.map (·.delaysCancel)).getD false

def push (s : ActionStage) (instructions : List Instruction) : ActionStage :=
  { s with pending := instructions ++ s.pending }

def setActive (s : ActionStage) (path : String) (info : Option RequestInfo) : ActionStage :=
  { s with activeRequests := Function.update s.activeRequests path info }

def setWaiting (s : ActionStage) (path : String) (info : Option RequestInfo) : ActionStage :=
  { s with cancelRequestTimers := Function.update s.cancelRequestTimers path info }

def setQueue (s : ActionStage) (name : String) (queue : List Nat) : ActionStage :=
  { s with requestQueues := Function.update s.requestQueues name queue }

/-! ## The record -/

def noteJoin (s : ActionStage) (watcher : ASHandle) (actor : Nat) : ActionStage :=
  { s with
    completions := fun w a => if w = watcher ∧ a = actor then some 0 else s.completions w a
    lateJoins := if actor ∈ s.reported ∨ actor ∈ s.cancelled then actor :: s.lateJoins else s.lateJoins }

/-- Watchers are removed from the actors of a path. -/
def noteRemoval (s : ActionStage) (removed : ASHandle → Bool) (path : String) : ActionStage :=
  { s with completions := fun w a => if removed w ∧ s.pathOf a = some path then none else s.completions w a }

def noteCompletion (s : ActionStage) (watcher : ASHandle) (actor : Nat) : ActionStage :=
  { s with
    completions := fun w a => if w = watcher ∧ a = actor then (s.completions w a).map (· + 1) else s.completions w a }

/-! ## Parts of the methods -/

def execute (s : ActionStage) (actor : Nat) : ActionStage :=
  { s.push [.callback (.execute actor)] with executed := actor :: s.executed }

/-- `[requestBuilder cancel]` and what follows it. -/
def cancel (s : ActionStage) (actor : Nat) (rest : List Instruction) : ActionStage :=
  { s.push (.callback (.cancel actor) :: .removeRequestFromQueueAndProceedIfFirst actor :: rest) with
    cancelled := actor :: s.cancelled }

def scheduleCancelRequest (s : ActionStage) (path : String) : ActionStage :=
  match s.activeRequests path, s.cancelRequestTimers path with
  | some info, none =>
    if s.delaysCancel info.requestBuilder then (s.setWaiting path (some info)).setActive path none
    else (s.setActive path none).cancel info.requestBuilder []
  | _, _ => s

/-- The watchers of a request that stay; the request is cancelled when none does. -/
def keepWatchers (s : ActionStage) (path : String) (info : RequestInfo) (watchers : List ASHandle) : ActionStage :=
  let s := s.setActive path (some { info with watchers := watchers })
  if watchers.isEmpty then s.scheduleCancelRequest path else s

/-- A new actor, which is not in its queue before it is prepared. -/
def startRequest (s : ActionStage) (path : String) (watcher : ASHandle) (builder : ASActor) (changePriority : Bool) :
    ActionStage :=
  let actor := s.actors.length
  let s := { s with actors := s.actors ++ [{ builder with path := path }] }
  let s := s.setActive path (some ⟨actor, [watcher]⟩)
  (s.noteJoin watcher actor).push [.callback (.prepare actor), .enqueue actor changePriority]

def joinRequest (s : ActionStage) (path : String) (watcher : ASHandle) (info : RequestInfo) (changePriority : Bool) :
    ActionStage :=
  let s := if watcher ∈ info.watchers then s else
    (s.setActive path (some { info with watchers := info.watchers ++ [watcher] })).noteJoin watcher info.requestBuilder
  match (s.requestQueueName info.requestBuilder).map s.requestQueues with
  | none | some [] => s.push [.callback (.watcherJoined info.requestBuilder watcher false)]
  | some (first :: _) =>
    s.push (.callback (.watcherJoined info.requestBuilder watcher (first != info.requestBuilder)) ::
      if changePriority then [.changeActorPriority path] else [])

/-- A request that waits for cancellation is active again. -/
def resumeRequest (s : ActionStage) (path : String) : ActionStage :=
  match s.cancelRequestTimers path with
  | some info => (s.setActive path (some info)).setWaiting path none
  | none => s

/-- `_requestGeneric`; `builder` is what `requestBuilderForGenericPath:path:` returns, with the name of the queue that it
has once it is prepared. -/
def requestGeneric (s : ActionStage) (joinOnly : Bool) (path : String) (changePriority : Bool) (watcher : ASHandle)
    (builder : Option ASActor) : ActionStage :=
  if watcher ∈ s.released then s else
  let s := s.resumeRequest path
  match s.activeRequests path with
  | some info => s.joinRequest path watcher info changePriority
  | none =>
    match joinOnly, builder with
    | false, some builder => s.startRequest path watcher builder changePriority
    | _, _ => s

def changeActorPriority (s : ActionStage) (path : String) : ActionStage :=
  match s.activeRequests path with
  | none => s
  | some info =>
    match s.requestQueueName info.requestBuilder with
    | none => s
    | some name =>
      let requestQueue := s.requestQueues name
      if info.requestBuilder ∈ requestQueue.drop 2 ∧ info.requestBuilder ∉ requestQueue.take 2 then
        s.setQueue name ((requestQueue.erase info.requestBuilder).insertIdx 1 info.requestBuilder)
      else s

def actionCompleted (s : ActionStage) (action : String) : ActionStage :=
  match s.activeRequests action with
  | none => s
  | some info =>
    { (s.setActive action none).push ((info.watchers.map fun watcher => .notify watcher info.requestBuilder action) ++
        [.removeRequestFromQueueAndProceedIfFirst info.requestBuilder]) with
      completed := info.requestBuilder :: s.completed }

def performCancelRequest (s : ActionStage) (path : String) : ActionStage :=
  match s.cancelRequestTimers path with
  | none => s
  | some info => s.cancel info.requestBuilder [.removeCancelTimer path]

/-! ## Methods -/

end ActionStage

/-- The methods, as they are called on the stage queue. -/
inductive StageCall where
  /-- `requestActor:`, and with `joinOnly` a round of `rejoinActionsWithGenericPathNow:`. -/
  | request (joinOnly : Bool) (path : String) (changePriority : Bool) (watcher : ASHandle) (builder : Option ASActor)
  | changeActorPriority (path : String)
  /-- The keys of the active requests, in the order of the dictionary. -/
  | removeWatcher (watcher : ASHandle) (allKeys : List String)
  | removeWatcherFromPath (watcher : ASHandle) (path : String)
  | removeAllWatchersFromPath (path : String)
  /-- `actionCompleted:` or `actionFailed:`, and the actor that reports. -/
  | actionCompleted (action : String) (reporter : Option Nat)
  /-- The timer of a request that waits for cancellation fires. -/
  | performCancelRequest (path : String)
  /-- The delegate of a handle is gone. -/
  | reset (watcher : ASHandle)
  deriving DecidableEq

namespace ActionStage

def removeWatcherByHandle (s : ActionStage) (watcher : ASHandle) (path : String) : ActionStage :=
  let s := s.noteRemoval (· == watcher) path
  match s.activeRequests path with
  | none => s
  | some info => s.keepWatchers path info (info.watchers.filter (· != watcher))

def removeAllWatchersFromPath (s : ActionStage) (path : String) : ActionStage :=
  let s := s.noteRemoval (fun _ => true) path
  match s.activeRequests path with
  | none => s
  | some info => s.keepWatchers path info []

def call (s : ActionStage) : StageCall → ActionStage
  | .request joinOnly path changePriority watcher builder =>
    s.requestGeneric joinOnly path changePriority watcher builder
  | .changeActorPriority path => s.changeActorPriority path
  | .removeWatcher watcher allKeys => s.push (allKeys.map (.removeWatcher watcher))
  | .removeWatcherFromPath watcher path => s.removeWatcherByHandle watcher path
  | .removeAllWatchersFromPath path => s.removeAllWatchersFromPath path
  | .actionCompleted action reporter => { s with reported := reporter.toList ++ s.reported }.actionCompleted action
  | .performCancelRequest path => s.performCancelRequest path
  | .reset watcher =>
    { s with
      released := watcher :: s.released
      completions := fun w a => if w = watcher then none else s.completions w a }

/-! ## Instructions -/

/-- The queue that an actor comes into, and whether it is executed now. -/
def enqueue (s : ActionStage) (actor : Nat) (changePriority : Bool) : ActionStage :=
  match s.requestQueueName actor with
  | none => s.execute actor
  | some name =>
    match s.requestQueues name with
    | [] => (s.setQueue name [actor]).execute actor
    | first :: rest => s.setQueue name (if changePriority then first :: actor :: rest else first :: rest ++ [actor])

def removeRequestFromQueueAndProceedIfFirst (s : ActionStage) (actor : Nat) : ActionStage :=
  match s.requestQueueName actor with
  | none => s
  | some name =>
    match s.requestQueues name with
    | [] => s
    | first :: rest =>
      if first = actor then
        match rest with
        | [] => s.setQueue name []
        | nextRequest :: _ =>
          if nextRequest ∈ s.cancelled then s.setQueue name rest else (s.setQueue name rest).execute nextRequest
      else s.setQueue name ((first :: rest).filter (· != actor))

/-- The rest of the loop goes on without the watchers that are gone. -/
def notify (s : ActionStage) (watcher : ASHandle) (actor : Nat) (path : String) : ActionStage :=
  if watcher ∈ s.released then s
  else (s.noteCompletion watcher actor).push [.callback (.actorCompleted watcher path)]

def exec (s : ActionStage) : Instruction → ActionStage
  | .callback _ => s
  | .enqueue actor changePriority => s.enqueue actor changePriority
  | .changeActorPriority path => s.changeActorPriority path
  | .notify watcher actor path => s.notify watcher actor path
  | .removeRequestFromQueueAndProceedIfFirst actor => s.removeRequestFromQueueAndProceedIfFirst actor
  | .removeCancelTimer path => s.setWaiting path none
  | .removeWatcher watcher path => s.removeWatcherByHandle watcher path

end ActionStage

/-- A step: a method is called, or the innermost instruction is done (foreign code returns). -/
inductive StageMove where
  | call (method : StageCall)
  | next
  deriving DecidableEq

namespace ActionStage

/-- Methods are called by foreign code, or when nothing is left to do. -/
def accepts (s : ActionStage) : Bool :=
  match s.pending with
  | [] => true
  | .callback _ :: _ => true
  | _ :: _ => false

def step (s : ActionStage) : StageMove → ActionStage
  | .call method => if s.accepts then s.call method else s
  | .next =>
    match s.pending with
    | [] => s
    | instruction :: pending => { s with pending := pending }.exec instruction

end ActionStage

end TelegramClient.Actions
