import DeepFry.GraphQLExplorer.FetchChunk
import DeepFry.Lib.Machine

namespace DeepFry.GraphQLExplorer

variable {Event : Type}

def TRIAGE_CHUNK_AUTHORS : Nat := 500
def SAFE_BYTES_PER_AUTHOR : Nat := 80
def SAFE_FIXED_OVERHEAD : Nat := 4096
def BODY_LIMIT_BYTES : Nat := 256 * 1024

def byteBudgetAuthors : Nat := (BODY_LIMIT_BYTES - SAFE_FIXED_OVERHEAD) / SAFE_BYTES_PER_AUTHOR

def chunkSize : Nat := min (min TRIAGE_CHUNK_AUTHORS 1000) byteBudgetAuthors

-- The slices from i on; a pass moves i, so as many passes as there are hexes left are enough.
def slices (hexes : List Str) (size : Nat) : Nat → Nat → List (List Str)
  | 0,_ => []
  | fuel+1,i => if i < hexes.length then (hexes.drop i).take size :: slices hexes size fuel (i + size) else []

def chunkAuthors (hexes : List Str) (size : Nat) : List (List Str) := slices hexes size hexes.length 0

structure TriageRow (Event : Type) where
  author : Str
  events : List Event
deriving DecidableEq

-- A Map: the last group of an author is the one that is found.
def byAuthor (groups : List (AuthorGroup Event)) : Str → Option (List Event) :=
  groups.foldl (fun map g => Function.update map g.author (some g.events)) fun _ => none

def mergeByAuthor (inputHexes : List Str) (groups : List (AuthorGroup Event)) : List (TriageRow Event) :=
  inputHexes.map fun hex => ⟨hex,(byAuthor groups hex).getD []⟩

structure ChunkError where
  index : Nat
  error : ApiError
  retryable : Bool
deriving DecidableEq

-- The refs and the states of the hook.
structure Hook (Event : Type) where
  runId : Nat
  inputHexes : List Str
  accumulated : List (AuthorGroup Event)
  chunkAuthorsByIndex : List (List Str)
  coveredAuthors : Finset Str
  rows : List (TriageRow Event)
  triagedCount : Nat
  totalCount : Nat
  loading : Bool
  chunkErrors : List ChunkError

def Hook.initial : Hook Event := ⟨0,[],[],[],∅,[],0,0,false,[]⟩

-- Who awaits a chunk.
inductive Caller where
  | loop (index : Nat)
  | retry (index : Nat)
deriving DecidableEq

def Caller.index : Caller → Nat
  | .loop index | .retry index => index

-- A fetch in flight: its innermost call has asked for a chunk.
structure Fetch (Event : Type) where
  id : Nat
  myRun : Nat
  caller : Caller
  chunk : List Str
  stack : List (Frame Event)

-- A record of a request and of what it was told; the code keeps none.
structure Told (Event : Type) where
  fetch : Nat
  myRun : Nat
  asked : List Str
  result : Result Event

structure Session (Event : Type) where
  hook : Hook Event
  flight : List (Fetch Event)
  told : List (Told Event)
  fetches : Nat

def Session.initial : Session Event := ⟨.initial,[],[],0⟩

inductive Action (Event : Type) where
  | run (dedupedInputHexes : List Str)
  | retryChunk (index : Nat)
  | reply (id : Nat) (result : Result Event)

def Hook.begin (hook : Hook Event) (dedupedInputHexes : List Str) : Hook Event where
  runId := hook.runId + 1
  inputHexes := dedupedInputHexes
  accumulated := []
  chunkAuthorsByIndex := chunkAuthors dedupedInputHexes chunkSize
  coveredAuthors := ∅
  rows := mergeByAuthor dedupedInputHexes []
  triagedCount := 0
  totalCount := dedupedInputHexes.length
  loading := decide (dedupedInputHexes.length > 0)
  chunkErrors := []

def Hook.absorb (hook : Hook Event) (outcome : ChunkOutcome Event) : Hook Event :=
  if outcome.groups.length > 0 ∨ outcome.covered.length > 0 then
    { hook with
      accumulated := hook.accumulated ++ outcome.groups
      coveredAuthors := hook.coveredAuthors ∪ outcome.covered.toFinset
      rows := mergeByAuthor hook.inputHexes (hook.accumulated ++ outcome.groups)
      triagedCount := (hook.coveredAuthors ∪ outcome.covered.toFinset).card }
  else hook

def Hook.note (hook : Hook Event) (index : Nat) (outcome : ChunkOutcome Event) : Hook Event :=
  match outcome.error with
  | some error => { hook with chunkErrors := hook.chunkErrors ++ [⟨index,error,outcome.retryable.getD true⟩] }
  | none => hook

def Hook.dismiss (hook : Hook Event) (index : Nat) : Hook Event :=
  { hook with chunkErrors := hook.chunkErrors.filter (·.index ≠ index) }

def Session.fetchChunk (s : Session Event) (caller : Caller) (chunk : List Str) : Session Event :=
  { s with flight := s.flight ++ [⟨s.fetches,s.hook.runId,caller,chunk,[]⟩], fetches := s.fetches + 1 }

-- The chunk loop of the latest run, from an index on to its next await. The chunks it holds are those of the refs.
def Session.loop (s : Session Event) (index : Nat) : Session Event :=
  match s.hook.chunkAuthorsByIndex[index]? with
  | some chunk => s.fetchChunk (.loop index) chunk
  | none => { s with hook := { s.hook with loading := false } }

def Session.run (s : Session Event) (dedupedInputHexes : List Str) : Session Event :=
  { s with hook := s.hook.begin dedupedInputHexes }.loop 0

def Session.retryChunk (s : Session Event) (index : Nat) : Session Event :=
  match s.hook.chunkAuthorsByIndex[index]? with
  | none => s
  | some chunk =>
    let pending := chunk.filter (· ∉ s.hook.coveredAuthors)
    let s := { s with hook := s.hook.dismiss index }
    if pending.length = 0 then s
    else { s with hook := { s.hook with loading := true } }.fetchChunk (.retry index) pending

-- What awaits an outcome goes on with it.
def Session.returned (s : Session Event) (caller : Caller) (outcome : ChunkOutcome Event) : Session Event :=
  let s := { s with hook := (s.hook.absorb outcome).note caller.index outcome }
  match caller with
  | .loop index => s.loop (index + 1)
  | .retry _ => { s with hook := { s.hook with loading := false } }

-- The rest of the flight, and the record.
def Session.land (s : Session Event) (f : Fetch Event) (result : Result Event) : Session Event :=
  { s with flight := s.flight.filter (·.id ≠ f.id), told := s.told ++ [⟨f.id,f.myRun,f.chunk,result⟩] }

def Session.reply (s : Session Event) (f : Fetch Event) (result : Result Event) : Session Event :=
  match answer ⟨decide (f.myRun = s.hook.runId),result⟩ f.chunk f.stack with
  | .asks part next =>
    let s := s.land f result
    { s with flight := s.flight ++ [{ f with chunk := part, stack := next }] }
  | .returns outcome => if f.myRun = s.hook.runId then (s.land f result).returned f.caller outcome else s.land f result

-- From a reply to the next await is one step: a call in the hops between goes as if it came before the reply, or after it.
def step (s : Session Event) : Action Event → Option (Session Event)
  | .run dedupedInputHexes => some (s.run dedupedInputHexes)
  | .retryChunk index => some (s.retryChunk index)
  | .reply id result => (s.flight.find? (·.id = id)).map fun f => s.reply f result

-- The input sets that are handed to run hold no hex twice.
def deduped : Session Event → Action Event → Prop
  | _,.run dedupedInputHexes => dedupedInputHexes.Nodup
  | _,_ => True

instance (s : Session Event) : (action : Action Event) → Decidable (deduped s action)
  | .run dedupedInputHexes => inferInstanceAs (Decidable dedupedInputHexes.Nodup)
  | .retryChunk _ | .reply _ _ => inferInstanceAs (Decidable True)

abbrev Reached : Session Event → Prop := Machine.Reached step deduped Session.initial

end DeepFry.GraphQLExplorer
