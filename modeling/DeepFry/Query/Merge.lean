import DeepFry.Lib.Frontier
import DeepFry.Query.Router

namespace DeepFry.Query
open Lmdb Bytes

-- A merged index entry: (created_at, lev_id, key bytes).
abbrev Triple := Nat × LevId × Bytes

def Triple.sortKey (triple : Triple) : Nat ×ₗ Nat := toLex (triple.1,triple.2.1)

def triple (entry : Entry) : Triple := (createdAtFromKey entry.1,entry.2,entry.1)

-- keyPrefix is the key of the stream without its last eight bytes, bufPos the next entry of the
-- buffer that has not been consumed.
structure StreamState where
  resumeKey : Bytes
  firstBatch : Bool
  keyPrefix : Bytes
  exhausted : Bool
  buffer : List Triple
  bufPos : Nat
  deriving DecidableEq, Repr

def StreamState.peek (stream : StreamState) : Option Triple := stream.buffer[stream.bufPos]?

def StreamState.needsRefill (stream : StreamState) : Bool :=
  !stream.exhausted && decide (stream.buffer.length ≤ stream.bufPos)

def StreamState.drained (stream : StreamState) : StreamState :=
  {stream with exhausted := true,buffer := [],bufPos := 0}

def StreamState.load (stream : StreamState) (exhausted : Bool) (buffer : List Triple) : StreamState :=
  {stream with exhausted := exhausted,buffer := buffer,bufPos := 0}

abbrev Floor := Option (Nat × LevId)

-- Entries at the floor timestamp whose levId is not below the floor were emitted before.
def floorKeeps (levIdFloor : Floor) (entry : Triple) : Bool :=
  match levIdFloor with
  | none => true
  | some (floorTs,floorLev) => entry.1 != floorTs || decide (entry.2.1 < floorLev)

-- The first entry older than since ends the stream; without a lower bound nothing is cut.
def sinceCut (since : Nat) (guarded : List Triple) : List Triple × Bool :=
  if 0 < since then
    match guarded.findIdx? fun entry => decide (entry.1 < since) with
    | some index => (guarded.take index,true)
    | none => (guarded,false)
  else (guarded,false)

variable (name : IndexName) (batchSize since : Nat) (levIdFloor : Floor)

-- One scan window of a refill: none when the floor dropped everything the guard let through,
-- in which case the next attempt reads on from the advanced resume key.
def refillWindow (env : Env) (stream : StreamState) : StreamState × Bool :=
  let (batch,nextResume,nextFirst) :=
    scanIndexOneWindow env name .Reverse stream.resumeKey stream.firstBatch batchSize
  let stream := {stream with resumeKey := nextResume,firstBatch := nextFirst}
  if batch.isEmpty then (stream.drained,true)
  else
    let guarded := (batch.takeWhile fun entry => stream.keyPrefix.isPrefixOf entry.1).map triple
    if guarded.isEmpty then (stream.drained,true)
    else
      let guarded := guarded.filter (floorKeeps levIdFloor)
      if guarded.isEmpty then (stream,false)
      else
        let (truncated,cut) := sinceCut since guarded
        (stream.load (stream.exhausted || cut) truncated,true)

def refillAttempts (world : World) : Nat → Nat → StreamState → StreamState × Nat
  | 0,tick,stream => (stream.drained,tick)
  | attempts+1,tick,stream =>
    let (stream,settled) := refillWindow name batchSize since levIdFloor (world tick).env stream
    if settled then (stream,tick + 1) else refillAttempts world attempts (tick + 1) stream

def refillStream (world : World) (tick : Nat) (stream : StreamState) : StreamState × Nat :=
  refillAttempts name batchSize since levIdFloor world 2 tick stream

structure MergeState where
  streams : List StreamState
  tick : Nat
  deriving DecidableEq, Repr

def initStream (key : Bytes) : StreamState :=
  ⟨key,true,valuePart key,false,[],0⟩

def initialFill (world : World) : Nat → List StreamState → MergeState
  | tick,[] => ⟨[],tick⟩
  | tick,stream :: rest =>
    let (filled,tick) := refillStream name batchSize since levIdFloor world tick stream
    let state := initialFill world tick rest
    {state with streams := filled :: state.streams}

def MergeState.peek (state : MergeState) (idx : Nat) : Option Triple :=
  state.streams[idx]?.bind StreamState.peek

def StreamState.consumed (stream : StreamState) : StreamState := {stream with bufPos := stream.bufPos + 1}

-- Consume the popped entry of one stream and refill the stream once its buffer is drained.
def advanceStream (world : World) (tick : Nat) (stream : StreamState) : StreamState × Nat :=
  let stream := stream.consumed
  if stream.needsRefill then refillStream name batchSize since levIdFloor world tick stream
  else (stream,tick)

def MergeState.advance (world : World) (state : MergeState) (idx : Nat) : MergeState :=
  match state.streams[idx]? with
  | none => state
  | some stream =>
    let (stream,tick) := advanceStream name batchSize since levIdFloor world state.tick stream
    ⟨state.streams.set idx stream,tick⟩

def mergeFeed (world : World) : Frontier.Feed MergeState Triple where
  peek := MergeState.peek
  advance := MergeState.advance name batchSize since levIdFloor world

def seedHeap (streams : List StreamState) : List (Triple × Nat) :=
  streams.zipIdx.filterMap fun (stream,idx) => stream.peek.map fun head => (head,idx)

-- A heap entry is the source's MergeCandidate: a triple and its stream_idx, ordered by
-- (created_at, lev_id). The pop loop is the library's frontier emission over the streams.
def mergeWindowed (world : World) (tick : Nat) (startKeys : List Bytes) (emitLimit : Nat) :
    List Triple × Nat :=
  if startKeys.isEmpty ∨ emitLimit = 0 then ([],tick)
  else
    let filled := initialFill name batchSize since levIdFloor world tick (startKeys.map initStream)
    let (results,final) := Frontier.drain (mergeFeed name batchSize since levIdFloor world)
      Triple.sortKey emitLimit filled (seedHeap filled.streams)
    (results,final.tick)

end DeepFry.Query
