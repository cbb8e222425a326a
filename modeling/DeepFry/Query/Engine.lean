import DeepFry.Query.Hydrate

namespace DeepFry.Query
open Lmdb Bytes

def MAX_ROUNDS : Nat := 8
def usizeMax : Nat := 2^64 - 1
def saturatingAdd (a b : Nat) : Nat := min (a + b) usizeMax

abbrev Survivor := Position × DecodedEvent

def effectiveLimit (filter : NostrFilter) : Nat :=
  if filter.limit = 0 then DEFAULT_WINDOW_SIZE else filter.limit

def emitLimitOf (limit : Nat) : Nat :=
  saturatingAdd (saturatingAdd limit DEFAULT_WINDOW_SIZE) limit

def excludedBy (boundary : Option Position) (position : Position) : Bool :=
  match boundary with
  | none => false
  | some (curTs,curLev) =>
    decide (curTs < position.1) || (position.1 == curTs && decide (curLev ≤ position.2))

-- The hydrated map of one round. Collecting pairs overwrites, remove takes the entry out.
abbrev HydratedMap := LevId → Option DecodedEvent

def hydratedMap (pairs : List (LevId × DecodedEvent)) : HydratedMap :=
  pairs.foldl (fun map pair => Function.update map pair.1 (some pair.2)) fun _ => none

section Query
variable (codec : Codec) (dictCache : DictCache) (world : World) (filter : NostrFilter)

-- The survivors of one round, in merge order. Every expiry check reads the clock.
def admitBatch (limit : Nat) : Nat → HydratedMap → List Survivor → List Position →
    List Survivor × Nat
  | tick,_,valid,[] => (valid,tick)
  | tick,map,valid,position :: rest =>
    if limit ≤ valid.length then (valid,tick)
    else
      match map position.2 with
      | none => admitBatch limit tick map valid rest
      | some decoded =>
        let map := Function.update map position.2 none
        if isExpired (world tick).now decoded.event then admitBatch limit (tick + 1) map valid rest
        else if residual filter decoded.event then
          admitBatch limit (tick + 1) map (valid ++ [(position,decoded)]) rest
        else admitBatch limit (tick + 1) map valid rest

def hydrateAndAdmit (limit tick : Nat) (valid : List Survivor) (filteredBatch : List Position) :
    Except QueryError (List Survivor × Nat) :=
  if filteredBatch.isEmpty then .ok (valid,tick)
  else do
    let (pairs,tick) ← hydrateLevIds codec dictCache world tick (filteredBatch.map Prod.snd)
    return admitBatch world filter limit tick (hydratedMap pairs) valid filteredBatch

structure QueryState where
  valid : List Survivor
  roundBoundary : Option Position
  rounds : Nat
  exhausted : Bool
  deepestScanned : Option Position
  tick : Nat

inductive RoundOutcome where
  | stop (state : QueryState)
  | again (state : QueryState)

def roundStartKeys (boundary : Option Position) : List Bytes :=
  let roundUntil := match boundary with
    | some (ts,_) => ts
    | none => filter.untilTs.getD u64Max
  buildStartKeys {filter with untilTs := some roundUntil} (selectIndex filter) .Reverse

-- The break decisions of one round, and the boundary of the next one.
def concludeRound (limit : Nat) (lastMerged : Option Position) (next : QueryState) : RoundOutcome :=
  if limit ≤ next.valid.length ∨ next.exhausted ∨ MAX_ROUNDS ≤ next.rounds then .stop next
  else if lastMerged = next.roundBoundary then
    -- No progress: step below the stalled timestamp.
    match lastMerged with
    | some (stalledTs + 1,_) => .stop {next with deepestScanned := some (stalledTs,u64Max)}
    | _ => .stop next
  else .again {next with roundBoundary := lastMerged}

-- One pass of the query loop: merge, exclude, hydrate, filter, then decide how to go on.
def queryRound (batchSize limit : Nat) (state : QueryState) : Except QueryError RoundOutcome := do
  let startKeys := roundStartKeys filter state.roundBoundary
  if startKeys.isEmpty then return .stop state
  let emitLimit := emitLimitOf limit
  let (mergeBatch,tick) := mergeWindowed (selectIndex filter).shortName batchSize (filter.since.getD 0)
    state.roundBoundary world state.tick startKeys emitLimit
  let exhausted := decide (mergeBatch.length < emitLimit)
  let merged := mergeBatch.map fun entry => (entry.1,entry.2.1)
  let lastMerged := merged.getLast?
  let filteredBatch := merged.filter fun position => !excludedBy state.roundBoundary position
  let (valid,tick) ← hydrateAndAdmit codec dictCache world filter limit tick state.valid filteredBatch
  return concludeRound limit lastMerged
    ⟨valid,state.roundBoundary,state.rounds + 1,exhausted,lastMerged.or state.deepestScanned,tick⟩

def queryLoop (batchSize limit : Nat) : Nat → QueryState → Except QueryError QueryState
  | 0,state => .ok state
  | fuel+1,state => do
    match ← queryRound codec dictCache world filter batchSize limit state with
    | .stop final => return final
    | .again next => queryLoop batchSize limit fuel next

def nextCursorOf (limit : Nat) (state : QueryState) (valid : List Survivor) : Option PageCursor :=
  let cursorAt (position : Position) : PageCursor := ⟨position.1,position.2⟩
  if valid.length = limit then valid.getLast?.map fun survivor => cursorAt survivor.1
  else if !valid.isEmpty && !state.exhausted then
    valid.getLast?.map fun survivor => cursorAt survivor.1
  else if valid.isEmpty && !state.exhausted then state.deepestScanned.map cursorAt
  else none

-- A page with the positions its events were listed at, and the tick the query ended on.
structure QueryPage where
  valid : List Survivor
  nextCursor : Option PageCursor
  tick : Nat

def QueryPage.events (page : QueryPage) : List DecodedEvent := page.valid.map Prod.snd

def queryStart (tick : Nat) (cursor : Option PageCursor) : QueryState :=
  let cursorBoundary : Option Position := cursor.map fun c => (c.createdAt,c.levId)
  ⟨[],cursorBoundary,0,false,none,tick⟩

def executeQueryInternal (tick : Nat) (cursor : Option PageCursor) (batchSize : Nat) :
    Except QueryError QueryPage := do
  let limit := effectiveLimit filter
  let start := queryStart tick cursor
  -- The round budget stops the loop at the last round at the latest.
  let final ← queryLoop codec dictCache world filter batchSize limit MAX_ROUNDS start
  let valid := final.valid.take limit
  return ⟨valid,nextCursorOf limit final valid,final.tick⟩

def executeQuery (tick : Nat) (cursor : Option PageCursor) : Except QueryError QueryPage :=
  executeQueryInternal codec dictCache world filter tick cursor DEFAULT_WINDOW_SIZE

-- Follow next_cursor page by page, at most maxPages pages.
def paginateAll (batchSize : Nat) : Nat → Nat → Option PageCursor →
    Except QueryError (Option (List QueryPage))
  | 0,_,_ => .ok none
  | maxPages+1,tick,cursor => do
    let page ← executeQueryInternal codec dictCache world filter tick cursor batchSize
    match page.nextCursor with
    | none => return some [page]
    | some next =>
      match ← paginateAll batchSize maxPages page.tick (some next) with
      | none => return none
      | some pages => return some (page :: pages)

end Query

section LatestPerAuthor
variable (codec : Codec) (dictCache : DictCache) (world : World)

def decodeHex32 (hex : Str) : Option Bytes :=
  if hex.length ≠ 64 then none
  else
    match decodeHex hex with
    | some bytes => if bytes.length = 32 then some bytes else none
    | none => none

def latestStartKey (pubkey : Bytes) (kind : Nat) : Bytes := compositeKey (pubkey ++ toLe 8 kind) u64Max

def latestMatches (pubkey : Bytes) (kind : Nat) (entry : Entry) : Bool :=
  entry.1.length == 48 && entry.1.take 32 == pubkey && (entry.1.drop 32).take 8 == toLe 8 kind

def latestMatching (env : Env) (kind perAuthor : Nat) (pubkey : Bytes) : List LevId :=
  ((scanIndexBounded env .Event__pubkeyKind .Reverse (latestStartKey pubkey kind) perAuthor).filter
    (latestMatches pubkey kind)).map Prod.snd

-- The unexpired events of one author: one scan, one hydration, then a clock reading per event.
def latestForAuthor (kind perAuthor tick : Nat) (pubkey : Bytes) :
    Except QueryError (List DecodedEvent × Nat) :=
  let matching := latestMatching (world tick).env kind perAuthor pubkey
  if matching.isEmpty then .ok ([],tick + 1)
  else do
    let pairs ← hydrateLevIdsBatch codec dictCache (world (tick + 1)).env matching
    let checked := pairs.zipIdx.filter fun (pair,offset) =>
      !isExpired (world (tick + 2 + offset)).now pair.2.event
    return (checked.map fun (pair,_) => pair.2,tick + 2 + pairs.length)

abbrev AuthorBuckets := Str → Option (List DecodedEvent)

def latestPerAuthorLoop (kind perAuthor : Nat) : Nat → AuthorBuckets → List Str →
    Except QueryError AuthorBuckets
  | _,result,[] => .ok result
  | tick,result,authorHex :: rest =>
    match decodeHex32 authorHex with
    | none => latestPerAuthorLoop kind perAuthor tick result rest
    | some pubkey => do
      let (events,tick) ← latestForAuthor codec dictCache world kind perAuthor tick pubkey
      let result := if events.isEmpty then result else Function.update result authorHex (some events)
      latestPerAuthorLoop kind perAuthor tick result rest

def latestPerAuthor (tick kind perAuthor : Nat) (authors : List Str) :
    Except QueryError AuthorBuckets :=
  if perAuthor = 0 then .ok fun _ => none
  else latestPerAuthorLoop codec dictCache world kind perAuthor tick (fun _ => none) authors

end LatestPerAuthor
end DeepFry.Query
