import TelegramClient.VoIP.OutgoingProducers

/-!
# The queue of outgoing packets

Producers put packets into a queue, from which the send thread takes them. The buffers of the packets go round: from the
pool to a producer, the queue, the send thread, and back.

* `BlockingQueue` : `Put` and the two halves of `GetBlocking`;
* `free`, `held` : the buffers that are free, and those that a producer, an entry of the queue or the send thread holds.

What holds the mutex of the pool or of the queue is one step.
-/

namespace TelegramClient.VoIP.Outgoing

open Inbound Endpoints

/-! ## The queue -/

structure BlockingQueue (α : Type) (capacity : Nat) where
  queue : List α
  semaphore : Nat

namespace BlockingQueue

variable {α : Type} {capacity : Nat}

/-- `Put`, which aborts when there are too many: there is no `overflowCallback`. -/
def put (q : BlockingQueue α capacity) (thing : α) : Option (BlockingQueue α capacity) :=
  if capacity < (q.queue ++ [thing]).length then none else some ⟨q.queue ++ [thing], q.semaphore + 1⟩

/-- `semaphore.Acquire()`, if it does not have to wait. -/
def acquire (q : BlockingQueue α capacity) : Option (BlockingQueue α capacity) :=
  if q.semaphore = 0 then none else some { q with semaphore := q.semaphore - 1 }

/-- `GetInternal`, which is undefined for an empty queue. -/
def getInternal (q : BlockingQueue α capacity) : Option (α × BlockingQueue α capacity) :=
  match q.queue with
  | [] => none
  | r :: queue => some (r, { q with queue := queue })

end BlockingQueue

/-! ## The threads -/

/-- Where `RunSendThread` is. -/
inductive SendThread where
  | loop
  /-- In `GetBlocking`, in front of `Acquire` or behind it. -/
  | acquire
  | getInternal
  | send (pkt : PendingOutgoingPacket)
  | reuse (buffer : Nat)
  | exited
deriving DecidableEq

/-- The endpoint of a packet: its own, if there is one and it still exists. -/
def endpointOf (v : SendView) (pkt : PendingOutgoingPacket) : Nat :=
  (if pkt.endpoint = 0 then none else v.table.getEndpointByID pkt.endpoint).getD v.table.currentEndpoint

/-- A packet is sent over a protocol that is used. -/
def isSent (v : SendView) (r : Nat) : Bool :=
  let type := (v.table.heap r).type
  type = .tcpRelay && v.table.useTCP || type ≠ .tcpRelay && v.table.useUDP

/-- Where `Stop` is. -/
inductive StopStage where
  | notCalled
  | entered
  | left
deriving DecidableEq

abbrev Producer := TokenThread SendView Nat PendingOutgoingPacket

structure SendState where
  outgoingPacketsBufferPool : BufferPool outgoingBufferSize 20
  sendQueue : BlockingQueue PendingOutgoingPacket 21
  runReceiver : Bool
  sender : SendThread
  producers : List Producer
  stop : StopStage
  /-- What `SendPacket` has been called with. -/
  sent : List (PendingOutgoingPacket × Nat)

/-- Where the process aborts, or uses what is not there. -/
inductive SendFault where
  /-- `abort()` in `Put`. -/
  | overflow
  /-- `queue.front()` of an empty queue. -/
  | emptyQueue
  /-- `Reuse` of a pointer that is not a buffer of the pool. -/
  | notFromPool
deriving DecidableEq

inductive SendEvent where
  /-- A producer is called. -/
  | start (program : SendProgram)
  /-- A producer takes a step. -/
  | produce (i : Nat) (view : SendView)
  /-- The send thread takes a step. -/
  | send (view : SendView)
  /-- `Stop` takes a step. -/
  | stop

namespace SendState

/-- The threads have been started, and nothing has been sent. -/
def init : SendState where
  outgoingPacketsBufferPool := ⟨0⟩
  sendQueue := ⟨[], 0⟩
  runReceiver := true
  sender := .loop
  producers := []
  stop := .notCalled
  sent := []

/-- One step of a producer. One that has returned is gone. -/
def produce (s : SendState) (i : Nat) (view : SendView) : Except SendFault SendState :=
  match s.producers[i]? with
  | none => .ok s
  | some ⟨.done, _⟩ | some ⟨.raise, _⟩ => .ok { s with producers := s.producers.eraseIdx i }
  | some ⟨.read next, held⟩ => .ok { s with producers := s.producers.set i ⟨next view, held⟩ }
  | some ⟨.get next, held⟩ =>
    match s.outgoingPacketsBufferPool.get with
    | none => .ok { s with producers := s.producers.set i ⟨next none, held⟩ }
    | some (buffer, pool) =>
      .ok { s with
        outgoingPacketsBufferPool := pool
        producers := s.producers.set i ⟨next (some buffer), buffer :: held⟩ }
  | some ⟨.put pkt next, held⟩ =>
    match s.sendQueue.put pkt with
    | none => .error .overflow
    | some sendQueue =>
      .ok { s with
        sendQueue := sendQueue
        producers := s.producers.set i ⟨next, held.filter fun buffer => some buffer ≠ pkt.data⟩ }

/-- One step of `RunSendThread`. -/
def send (s : SendState) (view : SendView) : Except SendFault SendState :=
  match s.sender with
  | .loop => .ok { s with sender := if s.runReceiver then .acquire else .exited }
  | .acquire =>
    match s.sendQueue.acquire with
    | none => .ok s
    | some sendQueue => .ok { s with sendQueue := sendQueue, sender := .getInternal }
  | .getInternal =>
    match s.sendQueue.getInternal with
    | none => .error .emptyQueue
    | some (pkt, sendQueue) => .ok { s with sendQueue := sendQueue, sender := .send pkt }
  | .send pkt =>
    match pkt.data with
    | none => .ok { s with sender := .loop }
    | some buffer =>
      let r := endpointOf view pkt
      .ok { s with sent := if isSent view r then s.sent ++ [(pkt, r)] else s.sent, sender := .reuse buffer }
  | .reuse buffer =>
    match s.outgoingPacketsBufferPool.reuse buffer with
    | none => .error .notFromPool
    | some pool => .ok { s with outgoingPacketsBufferPool := pool, sender := .loop }
  | .exited => .ok s

/-- One step of `Stop`. -/
def stopStep (s : SendState) : Except SendFault SendState :=
  match s.stop with
  | .notCalled => .ok { s with runReceiver := false, stop := .entered }
  | .entered =>
    match s.sendQueue.put ⟨0, 0, [], none, 0⟩ with
    | none => .error .overflow
    | some sendQueue => .ok { s with sendQueue := sendQueue, stop := .left }
  | .left => .ok s

end SendState

def stepSend (s : SendState) : SendEvent → Except SendFault SendState
  | .start program => .ok { s with producers := s.producers ++ [⟨program, []⟩] }
  | .produce i view => s.produce i view
  | .send view => s.send view
  | .stop => s.stopStep

/-! ## Who holds a buffer -/

def buffers : List Nat := (List.range 20).map (· * outgoingBufferSize)

def PendingOutgoingPacket.held (pkt : PendingOutgoingPacket) : List Nat := pkt.data.toList

def SendThread.held : SendThread → List Nat
  | .send pkt => pkt.held
  | .reuse buffer => [buffer]
  | _ => []

namespace SendState

def free (s : SendState) : List Nat :=
  ((List.range 20).filter fun i => !s.outgoingPacketsBufferPool.usedBuffers.getLsbD i).map (· * outgoingBufferSize)

/-- The buffers that producers, entries of the queue and the send thread hold, once for each of these. -/
def held (s : SendState) : List Nat :=
  s.producers.flatMap TokenThread.held ++ s.sendQueue.queue.flatMap PendingOutgoingPacket.held ++ s.sender.held

end SendState

end TelegramClient.VoIP.Outgoing
