import DeepFry.Lib.Window
import DeepFry.Lmdb.Keys

namespace DeepFry.Lmdb
open Bytes

-- One (key, levId) pair. The duplicate value of strfry's DUPSORT indexes is the 8-byte levId.
abbrev Entry := Bytes × LevId

-- An ordered multimap: keys in comparator order, the duplicates of one key ascending.
structure Multimap (name : IndexName) where
  entries : List Entry
  width : ∀ entry ∈ entries, name.Layout entry.1
  sorted : entries.Pairwise fun a b => name.cmp a.1 b.1 = .lt ∨ a.1 = b.1 ∧ a.2 < b.2

-- An index whose entries are dated below u64::MAX.
structure Index (name : IndexName) extends Multimap name where
  dated : ∀ entry ∈ entries, createdAtFromKey entry.1 < u64Max

inductive Bound where
  | Included (key : Bytes)
  | Excluded (key : Bytes)
  | Unbounded
  deriving DecidableEq, Repr

def Bound.belowUpper (name : IndexName) (upper : Bound) (key : Bytes) : Bool :=
  match upper with
  | .Included bound => name.cmp key bound != .gt
  | .Excluded bound => name.cmp key bound == .lt
  | .Unbounded => true

def Bound.aboveLower (name : IndexName) (lower : Bound) (key : Bytes) : Bool :=
  match lower with
  | .Included bound => name.cmp key bound != .lt
  | .Excluded bound => name.cmp key bound == .gt
  | .Unbounded => true

variable {name : IndexName}

-- heed's range and rev_range with move_through_duplicate_values.
def Multimap.range (index : Multimap name) (lower : Bound) : List Entry :=
  index.entries.filter fun entry => lower.aboveLower name entry.1

def Multimap.revRange (index : Multimap name) (upper : Bound) : List Entry :=
  (index.entries.filter fun entry => upper.belowUpper name entry.1).reverse

-- What one read transaction sees: the six indexes and the EventPayload store. A Moment adds
-- the clock, and a World is the sequence of moments at which a query opens a read transaction
-- or reads the clock; strfry may change the environment between any two of them.
structure Env where
  index : (name : IndexName) → Index name
  eventPayload : LevId → Option Bytes

structure Moment where
  env : Env
  now : Nat

abbrev World := Nat → Moment

inductive ScanDirection where
  | Forward | Reverse
  deriving DecidableEq, Repr

def DEFAULT_WINDOW_SIZE : Nat := 256

-- The upper bound of a reverse walk: ts+1 excluded, or the key itself when ts is u64::MAX.
def reverseUpperBound (startKey : Bytes) : Bytes × Bool :=
  if startKey.length < 8 then (startKey,false)
  else
    let ts := fromLe (suffix 8 startKey)
    if ts + 1 < 2^64 then (stem 8 startKey ++ toLe 8 (ts + 1),true) else (startKey,false)

def reverseBound (startKey : Bytes) : Bound :=
  let (rebuiltKey,isExcluded) := reverseUpperBound startKey
  if isExcluded then .Excluded rebuiltKey else .Included startKey

def collectBounded (index : Index name) (direction : ScanDirection) (startKey : Bytes) (limit : Nat) :
    List Entry :=
  match direction with
  | .Forward => (index.range (.Included startKey)).take limit
  | .Reverse => (index.revRange (reverseBound startKey)).take limit

def windowBound (direction : ScanDirection) (resumeKey : Bytes) (firstBatch : Bool) : Bound :=
  match direction with
  | .Forward => if firstBatch then .Included resumeKey else .Excluded resumeKey
  | .Reverse => if firstBatch then reverseBound resumeKey else .Excluded resumeKey

def collectWindow (index : Index name) (direction : ScanDirection) (resumeKey : Bytes)
    (firstBatch : Bool) (windowSize : Nat) : List Entry :=
  let bound := windowBound direction resumeKey firstBatch
  match direction with
  | .Forward => Window.fill Prod.fst windowSize [] (index.range bound)
  | .Reverse => Window.fill Prod.fst windowSize [] (index.revRange bound)

def scanIndexOneWindow (env : Env) (name : IndexName) (direction : ScanDirection) (resumeKey : Bytes)
    (firstBatch : Bool) (windowSize : Nat) : List Entry × Bytes × Bool :=
  let batch := collectWindow (env.index name) direction resumeKey firstBatch windowSize
  match batch.getLast? with
  | none => ([],resumeKey,false)
  | some last => (batch,last.1,false)

-- The windowed walk over an environment that does not change. A non-empty window moves the
-- resume key past at least one entry, so the number of entries bounds the number of windows.
def scanWindows (env : Env) (name : IndexName) (direction : ScanDirection) (windowSize : Nat) :
    Nat → Bytes → Bool → List Entry
  | 0,_,_ => []
  | windows+1,resumeKey,firstBatch =>
    let batch := collectWindow (env.index name) direction resumeKey firstBatch windowSize
    match batch.getLast? with
    | none => []
    | some last => batch ++ scanWindows env name direction windowSize windows last.1 false

def scanIndexWindowed (env : Env) (name : IndexName) (direction : ScanDirection) (startKey : Bytes)
    (windowSize : Nat) : List Entry :=
  scanWindows env name direction windowSize ((env.index name).entries.length + 1) startKey true

def scanIndexBounded (env : Env) (name : IndexName) (direction : ScanDirection) (startKey : Bytes)
    (limit : Nat) : List Entry :=
  if limit = 0 then scanIndexWindowed env name direction startKey DEFAULT_WINDOW_SIZE
  else collectBounded (env.index name) direction startKey limit

end DeepFry.Lmdb
