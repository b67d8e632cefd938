import TelegramClient.Lib.Bytes
import Mathlib.Data.Fintype.Basic

/-!
# The jitter buffer of a call

Incoming frames wait in 64 slots for the time at which they are played. The bytes of an occupied slot are in a buffer of
a pool; a slot whose buffer is `NULL` is empty.

* `BufferPool` : `Get` and `Reuse`;
* `JitterEvent`, `stepJitter` : the calls from outside.

A buffer is given by its offset from the first one. The contents of a buffer stand in the slot that holds it. What is
computed from arrival times in floating point is a number that comes with `Tick`.
-/

namespace TelegramClient.VoIP

/-- Where the process aborts, or uses what is not there. -/
inductive JitterFault where
  /-- `Reuse` of a pointer that is not a buffer of the pool. -/
  | notFromPool
  /-- `slots[JITTER_SLOT_COUNT]`. -/
  | noSlotToRemove
  /-- `Get` has returned `NULL`. The code logs "WTF!!" and goes on. -/
  | poolExhausted
deriving DecidableEq

/-! ## The pool -/

structure BufferPool (size bufferCount : Nat) where
  usedBuffers : BitVec 64
deriving DecidableEq

namespace BufferPool

variable {size bufferCount : Nat}

/-- `Get`: the first buffer that is not used. -/
def get (pool : BufferPool size bufferCount) : Option (Nat × BufferPool size bufferCount) :=
  ((List.range bufferCount).find? fun i => !pool.usedBuffers.getLsbD i).map fun i =>
    (i * size, ⟨pool.usedBuffers ||| 1#64 <<< i⟩)

/-- `Reuse`. -/
def reuse (pool : BufferPool size bufferCount) (buffer : Nat) : Option (BufferPool size bufferCount) :=
  ((List.range bufferCount).find? fun i => i * size = buffer).map fun i => ⟨pool.usedBuffers &&& ~~~(1#64 <<< i)⟩

end BufferPool

/-! ## The slots -/

/-- `JITTER_SLOT_COUNT`. -/
abbrev jitterSlotCount : Nat := 64

/-- `JITTER_SLOT_SIZE`. -/
abbrev jitterSlotSize : Nat := 1024

/-- A packet as it comes in and goes out. Its size is the length of `data`. -/
structure JitterPacket where
  data : Bytes
  timestamp : UInt32
  isEC : Bool
deriving DecidableEq

structure JitterSlot extends JitterPacket where
  buffer : Nat
deriving DecidableEq

structure SlotTable where
  bufferPool : BufferPool jitterSlotSize jitterSlotCount
  slots : Fin jitterSlotCount → Option JitterSlot

namespace SlotTable

def empty : SlotTable := ⟨⟨0⟩, fun _ => none⟩

abbrev indices : List (Fin jitterSlotCount) := List.finRange jitterSlotCount

/-- `bufferPool.Reuse(slots[i].buffer); slots[i].buffer=NULL`. -/
def release (t : SlotTable) (i : Fin jitterSlotCount) : Except JitterFault SlotTable :=
  match (t.slots i).bind fun slot => t.bufferPool.reuse slot.buffer with
  | none => .error .notFromPool
  | some pool => .ok ⟨pool, Function.update t.slots i none⟩

/-- One pass over the slots that empties some of the occupied ones. -/
def releaseWhere (p : JitterSlot → Bool) (t : SlotTable) : Except JitterFault SlotTable :=
  indices.foldlM (fun t i => if (t.slots i).any p then t.release i else .ok t) t

/-- A packet comes into a slot, with a buffer of the pool. -/
def occupy (t : SlotTable) (i : Fin jitterSlotCount) (pkt : JitterPacket) : Except JitterFault SlotTable :=
  match t.bufferPool.get with
  | none => .error .poolExhausted
  | some (buffer, pool) => .ok ⟨pool, Function.update t.slots i (some { pkt with buffer := buffer })⟩

def overwrite (t : SlotTable) (i : Fin jitterSlotCount) (pkt : JitterPacket) : SlotTable :=
  { t with slots := Function.update t.slots i ((t.slots i).map fun slot =>
      { slot with data := pkt.data, isEC := pkt.isEC }) }

def find (t : SlotTable) (timestamp : Int) : Option (Fin jitterSlotCount) :=
  indices.find? fun i => (t.slots i).any fun slot => (slot.timestamp.toNat : Int) = timestamp

def findFree (t : SlotTable) : Option (Fin jitterSlotCount) := indices.find? fun i => (t.slots i).isNone

/-- `GetCurrentDelay`. -/
def currentDelay (t : SlotTable) : Nat := indices.countP fun i => (t.slots i).isSome

/-- One turn of the loop for `toRemove`. -/
def older (t : SlotTable) (best : Option (Fin jitterSlotCount) × UInt32) (i : Fin jitterSlotCount) :
    Option (Fin jitterSlotCount) × UInt32 :=
  match t.slots i with
  | some slot => if slot.timestamp < best.2 then (some i, slot.timestamp) else best
  | none => best

/-- `toRemove`: the occupied slot with the smallest timestamp, `none` for `JITTER_SLOT_COUNT`. -/
def toRemove (t : SlotTable) : Option (Fin jitterSlotCount) := (indices.foldl t.older (none, 0xFFFFFFFF)).1

end SlotTable

/-! ## The buffer -/

/-- What the constructor reads from the server's configuration. -/
structure JitterConfig where
  step : Nat
  minMinDelay : Nat
  maxMinDelay : Nat
  maxUsedSlots : Nat
  lossesToReset : Nat
  resyncThreshold : Rat

/-- The part of the constructor that reads the configuration. -/
def JitterConfig.ofServer (getInt : String → Nat → Nat) (getDouble : String → Rat → Rat) (step : Nat) : JitterConfig where
  step := step
  minMinDelay :=
    if step < 30 then getInt "jitter_min_delay_20" 6
    else if step < 50 then getInt "jitter_min_delay_40" 4
    else getInt "jitter_min_delay_60" 1
  maxMinDelay :=
    if step < 30 then getInt "jitter_max_delay_20" 25
    else if step < 50 then getInt "jitter_max_delay_40" 15
    else getInt "jitter_max_delay_60" 10
  maxUsedSlots :=
    if step < 30 then getInt "jitter_max_slots_20" 50
    else if step < 50 then getInt "jitter_max_slots_40" 30
    else getInt "jitter_max_slots_60" 20
  lossesToReset := getInt "jitter_losses_to_reset" 20
  resyncThreshold := getDouble "jitter_resync_threshold" 1

structure JitterBuffer where
  config : JitterConfig
  table : SlotTable
  nextTimestamp : Int
  /-- A `double` that only takes whole values. -/
  minDelay : Int
  lastPutTimestamp : UInt32
  lostCount : Nat
  lostSinceReset : Nat
  gotSinceReset : Nat
  wasReset : Bool
  needBuffering : Bool
  /-- The newest first. -/
  delayHistory : List Nat
  lateHistory : List Nat
  latePacketCount : Nat
  dontIncMinDelay : Nat
  dontDecMinDelay : Nat
  lostPackets : Int
  outstandingDelayChange : Int
  dontChangeDelay : Nat

/-- `GetInternal`'s result. -/
inductive JitterResult where
  | ok (slot : JitterPacket)
  | missing
  | buffering
deriving DecidableEq

/-- What `HandleOutput` hands out. `data` is `none` where nothing was written into the buffer. -/
structure JitterOutput where
  size : Nat
  data : Option JitterPacket
  playbackScaledDuration : Nat
deriving DecidableEq

namespace JitterBuffer

/-- The constructor. `nextTimestamp` and `latePacketCount` are not initialised. -/
def init (config : JitterConfig) (nextTimestamp : Int) (latePacketCount : Nat) : JitterBuffer where
  config := config
  table := .empty
  nextTimestamp := nextTimestamp
  minDelay := 6
  lastPutTimestamp := 0
  lostCount := 0
  lostSinceReset := 0
  gotSinceReset := 0
  wasReset := true
  needBuffering := true
  delayHistory := List.replicate 64 0
  lateHistory := List.replicate 64 0
  latePacketCount := latePacketCount
  dontIncMinDelay := 0
  dontDecMinDelay := 0
  lostPackets := 0
  outstandingDelayChange := 0
  dontChangeDelay := 0

/-- `SetMinPacketCount`. -/
def setMinPacketCount (b : JitterBuffer) (count : Nat) : JitterBuffer := { b with minDelay := count }

/-- `Reset`. -/
def reset (b : JitterBuffer) : Except JitterFault JitterBuffer := do
  let table ← b.table.releaseWhere fun _ => true
  return { b with
    table := table
    wasReset := true
    needBuffering := true
    lastPutTimestamp := 0
    delayHistory := List.replicate 64 0
    lateHistory := List.replicate 64 0
    lostSinceReset := 0
    gotSinceReset := 0
    outstandingDelayChange := 0
    dontChangeDelay := 0 }

/-- `Advance`. -/
def advance (b : JitterBuffer) : JitterBuffer := { b with nextTimestamp := b.nextTimestamp + b.config.step }

/-! ## Frames come in -/

/-- The first packet after a reset sets the time. -/
def resync (b : JitterBuffer) (timestamp : UInt32) : JitterBuffer :=
  let b := { b with gotSinceReset := b.gotSinceReset + 1 }
  if b.wasReset then
    { b with
      wasReset := false
      outstandingDelayChange := 0
      nextTimestamp := (timestamp.toNat : Int) - b.config.step * b.minDelay }
  else b

def purge (b : JitterBuffer) : Except JitterFault JitterBuffer := do
  let table ← b.table.releaseWhere fun slot => decide ((slot.timestamp.toNat : Int) < b.nextTimestamp - 1)
  return { b with table := table }

/-- An empty slot for the packet: the oldest frame leaves where too many wait. -/
def makeRoom (b : JitterBuffer) : Except JitterFault (Fin jitterSlotCount × JitterBuffer) :=
  match b.table.findFree, decide (b.config.maxUsedSlots ≤ b.table.currentDelay) with
  | some i, false => .ok (i, b)
  | _, _ =>
      match b.table.toRemove with
      | none => .error .noSlotToRemove
      | some i => do
          let table ← b.table.release i
          return (i, { b.advance with table := table })

def insert (b : JitterBuffer) (pkt : JitterPacket) : Except JitterFault JitterBuffer := do
  let b := { b with
    lastPutTimestamp := if b.lastPutTimestamp < pkt.timestamp then pkt.timestamp else b.lastPutTimestamp }
  let (i, b) ← b.makeRoom
  let table ← b.table.occupy i pkt
  return { b with table := table }

/-- `PutInternal`. -/
def putInternal (b : JitterBuffer) (pkt : JitterPacket) (overwriteExisting : Bool) :
    Except JitterFault JitterBuffer :=
  if jitterSlotSize < pkt.data.length then .ok b
  else
    match b.table.find pkt.timestamp.toNat with
    | some i => .ok (if overwriteExisting then { b with table := b.table.overwrite i pkt } else b)
    | none => do
        let b ← (b.resync pkt.timestamp).purge
        if (pkt.timestamp.toNat : Int) < b.nextTimestamp then
          insert { b with latePacketCount := b.latePacketCount + 1, lostPackets := b.lostPackets - 1 } pkt
        else if (pkt.timestamp.toNat : Int) < b.nextTimestamp - 1 then
          return { b with latePacketCount := b.latePacketCount + 1 }
        else b.insert pkt

/-- `HandleInput`. -/
def handleInput (b : JitterBuffer) (pkt : JitterPacket) : Except JitterFault JitterBuffer :=
  b.putInternal pkt (!pkt.isEC)

/-! ## Frames go out -/

def countLoss (b : JitterBuffer) (offset : Int) : JitterBuffer :=
  { b with
    lostCount := b.lostCount + 1
    lostPackets := if offset = 0 then b.lostPackets + 1 else b.lostPackets
    lostSinceReset := if offset = 0 then b.lostSinceReset + 1 else b.lostSinceReset }

/-- Too many losses, in a row or since the last reset. -/
def isLosing (b : JitterBuffer) : Bool :=
  b.config.lossesToReset ≤ b.lostCount ||
    (b.minDelay * 25 < (b.gotSinceReset : Int) && b.gotSinceReset / 2 < b.lostSinceReset)

/-- What `GetInternal` does about its losses. -/
def giveUp (b : JitterBuffer) : Except JitterFault JitterBuffer :=
  let delay : Int := b.table.currentDelay
  reset { b with
    dontIncMinDelay := 16
    dontDecMinDelay := b.dontDecMinDelay + 128
    nextTimestamp := if delay < b.minDelay then b.nextTimestamp - (b.minDelay - delay) else b.nextTimestamp
    lostCount := 0 }

def miss (b : JitterBuffer) (offset : Int) : Except JitterFault JitterBuffer :=
  if (b.countLoss offset).isLosing then (b.countLoss offset).giveUp else .ok (b.countLoss offset)

/-- `GetInternal`. -/
def getInternal (b : JitterBuffer) (offset : Int) (advance : Bool) :
    Except JitterFault (JitterResult × JitterBuffer) :=
  match b.table.find (b.nextTimestamp + offset * b.config.step) with
  | some i => do
      let table ← b.table.release i
      let b' := { b with table := table, lostCount := 0, needBuffering := false }
      match b.table.slots i with
      | none => .error .notFromPool
      | some slot => return (.ok slot.toJitterPacket, if offset = 0 then b'.advance else b')
  | none => do
      let b := if advance then b.advance else b
      if b.needBuffering then return (.buffering, b)
      else
        let b ← b.miss offset
        return (.missing, b)

/-- `HandleOutput`, for a buffer with room for `len` bytes. -/
def handleOutput (b : JitterBuffer) (len : Nat) (offsetInSteps : Int) (advance : Bool) :
    Except JitterFault (JitterOutput × JitterBuffer) := do
  let (result, b) ← b.getInternal offsetInSteps advance
  let (duration, change) : Nat × Int :=
    if b.outstandingDelayChange ≠ 0 then
      if b.outstandingDelayChange < 0 then (40, 20) else (80, -20)
    else if advance ∧ b.table.currentDelay = 0 then (80, 0)
    else (60, 0)
  let b := { b with outstandingDelayChange := b.outstandingDelayChange + change }
  match result with
  | .ok pkt =>
      -- A packet that does not fit is lost, and the size stays what the caller has given.
      if len < pkt.data.length then return (⟨len, none, duration⟩, b)
      else return (⟨pkt.data.length, some pkt, duration⟩, b)
  | _ => return (⟨0, none, duration⟩, b)

/-! ## The delay is adapted -/

def clampDelay (config : JitterConfig) (stddevDelay : Nat) : Nat :=
  let stddevDelay := if stddevDelay < config.minMinDelay then config.minMinDelay else stddevDelay
  if config.maxMinDelay < stddevDelay then config.maxMinDelay else stddevDelay

/-- The part of `Tick` that follows the deviation of the arrival times. -/
def followDeviation (b : JitterBuffer) (stddevDelay : Nat) : JitterBuffer :=
  let diff := (clampDelay b.config stddevDelay : Int) - b.minDelay
  let dontDecMinDelay := if 0 < diff then 100 else b.dontDecMinDelay
  let diff := if diff < -1 then -1 else if 1 < diff then 1 else diff
  if (0 < diff ∧ b.dontIncMinDelay = 0) ∨ (diff < 0 ∧ dontDecMinDelay = 0) then
    { b with
      minDelay := b.minDelay + diff
      outstandingDelayChange := b.outstandingDelayChange + diff * 60
      dontChangeDelay := b.dontChangeDelay + 32
      dontDecMinDelay := if diff < 0 then dontDecMinDelay + 25 else dontDecMinDelay
      dontIncMinDelay := if 0 < diff then 25 else b.dontIncMinDelay }
  else { b with dontDecMinDelay := dontDecMinDelay }

/-- The part of `Tick` that follows the average delay, which is a sum of 32 values here. -/
def followAverage (b : JitterBuffer) : JitterBuffer :=
  let sum : Int := (b.delayHistory.take 32).sum
  let (change, wait) : Int × Nat :=
    if b.dontChangeDelay = 0 then
      if 32 * b.minDelay + 16 < sum then (if 32 * (b.minDelay + 2) < sum then -60 else -20, 10)
      else if 10 * sum < 32 * (10 * b.minDelay - 3) then (20, 10)
      else (0, 0)
    else (0, 0)
  { b with
    outstandingDelayChange := b.outstandingDelayChange + change
    dontChangeDelay := b.dontChangeDelay + wait - 1 }

/-- The part of `Tick` that shifts the histories. -/
def shiftHistories (b : JitterBuffer) : JitterBuffer :=
  let lateHistory := b.latePacketCount :: b.lateHistory.take 63
  { b with
    lateHistory := lateHistory
    latePacketCount := 0
    wasReset := b.wasReset || b.config.resyncThreshold ≤ ((lateHistory.take 16).sum : Rat) / 16
    dontDecMinDelay := if lateHistory.all (· = 0) then b.dontDecMinDelay - 1 else b.dontDecMinDelay
    delayHistory := b.table.currentDelay :: b.delayHistory.take 63 }

/-- `Tick`. `stddevDelay` is twice the standard deviation of the arrival times, in steps. -/
def tick (b : JitterBuffer) (stddevDelay : Nat) : JitterBuffer :=
  (b.shiftHistories.followDeviation stddevDelay).followAverage

end JitterBuffer

/-! ## The calls -/

inductive JitterEvent where
  | handleInput (pkt : JitterPacket)
  | handleOutput (len : Nat) (offsetInSteps : Int) (advance : Bool)
  | reset
  | tick (stddevDelay : Nat)
  | setMinPacketCount (count : Nat)

def stepJitter (b : JitterBuffer) : JitterEvent → Except JitterFault JitterBuffer
  | .handleInput pkt => b.handleInput pkt
  | .handleOutput len offsetInSteps advance => (·.2) <$> b.handleOutput len offsetInSteps advance
  | .reset => b.reset
  | .tick stddevDelay => .ok (b.tick stddevDelay)
  | .setMinPacketCount count => .ok (b.setMinPacketCount count)

end TelegramClient.VoIP
