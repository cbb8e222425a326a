import DeepFry.WebOfTrust.FollowGraph
import DeepFry.WebOfTrust.Mutators

namespace DeepFry.WebOfTrust

inductive FailureClass where
  | classTransport
  | classFilterRej
  | classSubFlap
deriving DecidableEq

-- What queryRelay returns when it fails; a context error has the text of the context's cause.
inductive QueryError where
  | filterRejectionError (message : Str)
  | subscriptionError (message : Str)
  | transportError (message : Str)
  | context (deadline : Bool)
deriving DecidableEq

def CANCELED : Str := Bytes.text "context canceled"

def DEADLINE_EXCEEDED : Str := Bytes.text "context deadline exceeded"

def QueryError.text : QueryError → Str
  | .filterRejectionError message | .subscriptionError message | .transportError message => message
  | .context deadline => if deadline then DEADLINE_EXCEEDED else CANCELED

def QueryError.isContext : QueryError → Bool
  | .context _ => true
  | _ => false

def classifyRelayError : QueryError → FailureClass
  | .filterRejectionError _ => .classFilterRej
  | .subscriptionError _ => .classSubFlap
  | .transportError _ | .context _ => .classTransport

def contains (text part : Str) : Bool := text.tails.any part.isPrefixOf

-- The dispatcher goes by the text of an error.
def interrupted (e : QueryError) : Bool := contains e.text CANCELED || contains e.text DEADLINE_EXCEEDED

-- c.relays by number; kept are those not ejected yet.
structure Pool where
  kept : List Nat
  distinct : kept.Nodup
  alive : Nat → Bool
  fails : Nat → FailureClass → Int

structure Batch where
  pubkeys : Table Str Int
  url : Nat → Str
  ejectionThresholds : FailureClass → Int
  quorumReached : Nat → Nat → Bool

def Batch.since (b : Batch) (pubkey : Str) : Int := (b.pubkeys.lookup pubkey).getD 0

def Batch.authors (b : Batch) : List Str := b.pubkeys.keys.filter isValidHexPubkey

def Batch.threshold (b : Batch) (class_ : FailureClass) : Int :=
  if b.ejectionThresholds class_ ≤ 0 then 10 else b.ejectionThresholds class_

-- Every relay of that URL counts the failure and goes down; at the threshold it is ejected.
def markRelayDead (b : Batch) (url : Str) (class_ : FailureClass) (p : Pool) : Pool where
  kept := p.kept.filter fun k => b.url k ≠ url ∨ p.fails k class_ + 1 < b.threshold class_
  distinct := p.distinct.filter _
  alive k := p.alive k && !decide (k ∈ p.kept ∧ b.url k = url)
  fails k other := if k ∈ p.kept ∧ b.url k = url ∧ other = class_ then p.fails k other + 1 else p.fails k other

-- follows: the values of the event's p tags. signed: what CheckSignature says.
structure Event where
  id : Str
  pubkey : Str
  createdAt : Int
  follows : List Str
  signed : Bool
deriving DecidableEq

def Event.kind3 (e : Event) : Kind3 := ⟨e.pubkey,e.createdAt,(e.follows.filter isValidHexPubkey).dedup,List.nodup_dedup _⟩

-- The store's answers to one event: a lost reply is an error although the write was committed.
structure Answer where
  fault : Faults
  lease : Lease
  now : Int
  lost : Option StoreError
  touchRead : Option StoreError
  touch : Outcome

def Answer.call (a : Answer) (e : Event) : Call := ⟨e.kind3,a.fault,a.lease,a.now⟩

def updateFollowsFromEvent (a : Answer) (e : Event) (g : Graph) : Except StoreError Unit × Graph :=
  match addFollowers e.kind3 a.fault a.lease a.now g with
  | (.error error,next) => (.error (wrap "failed to add follows: " error.underlying),next)
  | (.ok (),next) =>
    match a.lost with
    | some error => (.error (wrap "failed to add follows: " error),next)
    | none => (.ok (),next)

inductive Handling where
  | old
  | stored
  | failed
deriving DecidableEq

-- log: the processed events with what became of them, the last one first.
structure Results where
  graph : Graph
  hits : List Str
  skipAttempt : List Str
  processedEventIDs : List Str
  log : List (Event × Handling)

def processFetchedEvent (b : Batch) (a : Answer) (e : Event) (r : Results) : Except StoreError Unit × Results :=
  if e.createdAt ≤ b.since e.pubkey then
    (.ok (),{ r with
      graph := (touchLastDBUpdate a.touchRead a.now a.touch e.pubkey r.graph).2
      hits := r.hits.insert e.pubkey
      log := (e,.old) :: r.log })
  else
    match updateFollowsFromEvent a e r.graph with
    | (.error error,g) =>
      if isTransientError error then
        (.ok (),{ r with
          graph := g
          skipAttempt := r.skipAttempt.insert e.pubkey
          processedEventIDs := r.processedEventIDs.insert e.id
          log := (e,.failed) :: r.log })
      else (.error ⟨error.code,Bytes.text "failed to update follows for pubkey " ++ e.pubkey ++ Bytes.text ": " ++ error.message⟩,{ r with graph := g })
    | (.ok (),g) =>
      (.ok (),{
        graph := g
        hits := r.hits.insert e.pubkey
        skipAttempt := r.skipAttempt.filter (· ≠ e.pubkey)
        processedEventIDs := r.processedEventIDs.insert e.id
        log := (e,.stored) :: r.log })

def handle (b : Batch) (a : Answer) (e : Event) (r : Results) : Except StoreError Unit × Results :=
  if e.id ∈ r.processedEventIDs then (.ok (),r)
  else if e.signed then processFetchedEvent b a e r
  else (.ok (),r)

-- rejected: a rejected probe ends the query without an error, and its authors go unasked.
inductive Ending where
  | eose
  | rejected
  | failed (e : QueryError)
deriving DecidableEq

-- One relay's goroutine. Past its query it stamps the batch, sends its error or resets its counters, and counts itself done.
inductive Stage where
  | asking (authors : List Str)
  | subscribed (chunk rest : List Str)
  | returned (ending : Ending)
  | stamped (ending : Ending)
  | reported (ending : Ending)
  | finished (ending : Ending)
deriving DecidableEq

def Stage.ending : Stage → Option Ending
  | .returned ending | .stamped ending | .reported ending | .finished ending => some ending
  | _ => none

-- completedGen is this batch's.
def Stage.completed : Stage → Bool
  | .stamped _ | .reported _ | .finished _ => true
  | _ => false

def Stage.isFinished : Stage → Bool
  | .finished _ => true
  | _ => false

-- Why the relay query context ended.
inductive Stop where
  | deadline
  | quorum
  | caller
deriving DecidableEq

-- What FetchAndUpdateFollows returned by; closed and stopped return nil.
inductive Exit where
  | closed
  | stopped
  | cancelled
  | failed (e : StoreError)
deriving DecidableEq

inductive Mode where
  | looping
  | draining (budgetExhausted : Bool)
  | returned (exit : Exit)
deriving DecidableEq

-- answered: the chunks that reached EOSE. calls: the relays markRelayDead was called for, with the class.
structure Dispatch where
  pool : Pool
  launched : List Nat
  capacity : Nat
  stage : Nat → Stage
  events : List Event
  errors : List (Nat × QueryError)
  closed : Bool
  done : Nat
  stop : Option Stop
  callerDone : Bool
  mode : Mode
  results : Results
  answered : List (Nat × List Str)
  calls : List (Nat × FailureClass)

def launch (b : Batch) (p : Pool) (g : Graph) : Dispatch where
  pool := p
  launched := p.kept.filter p.alive
  capacity := b.pubkeys.entries.length * p.kept.length
  stage _ := .asking b.authors
  events := []
  errors := []
  closed := false
  done := 0
  stop := none
  callerDone := false
  mode := .looping
  results := ⟨g,[],[],[],[]⟩
  answered := []
  calls := []

inductive Action where
  | subscribe (k size : Nat)
  | send (k : Nat) (e : Event)
  | eose (k : Nat)
  | exhaust (k : Nat)
  | rejectProbe (k : Nat)
  | fail (k : Nat) (e : QueryError)
  | stamp (k : Nat)
  | report (k : Nat)
  | finish (k : Nat)
  | close
  | deadline
  | cancel
  | receive (a : Answer)
  | takeError
  | wake (late : Bool)
  | leaveClosed
  | leaveCancelled
  | drained

def Dispatch.enter (s : Dispatch) (k : Nat) (stage : Stage) : Dispatch := { s with stage := Function.update s.stage k stage }

-- One step of the goroutine of relay k.
def query (b : Batch) (s : Dispatch) (k : Nat) : Action → Option Dispatch
  | .subscribe _ size =>
    match s.stage k with
    | .asking (author :: authors) =>
      if size = 0 then none else some (s.enter k (.subscribed ((author :: authors).take size) ((author :: authors).drop size)))
    | _ => none
  | .send _ e =>
    match s.stage k with
    | .subscribed _ _ => if s.events.length < s.capacity then some { s with events := s.events ++ [e] } else none
    | _ => none
  | .eose _ =>
    match s.stage k with
    | .subscribed chunk rest => some { s.enter k (.asking rest) with answered := (k,chunk) :: s.answered }
    | _ => none
  | .exhaust _ =>
    match s.stage k with
    | .asking [] => some (s.enter k (.returned .eose))
    | _ => none
  | .rejectProbe _ =>
    match s.stage k with
    | .asking (_ :: _) => some (s.enter k (.returned .rejected))
    | _ => none
  | .fail _ e =>
    if e.isContext && s.stop.isNone then none
    else
      match s.stage k with
      | .asking _ | .subscribed _ _ => some (s.enter k (.returned (.failed e)))
      | _ => none
  | .stamp _ =>
    match s.stage k with
    | .returned ending => some (s.enter k (.stamped ending))
    | _ => none
  | .report _ =>
    match s.stage k with
    | .stamped (.failed e) => some { s.enter k (.reported (.failed e)) with errors := s.errors ++ [(k,e)] }
    | .stamped ending =>
      some { s.enter k (.reported ending) with pool := { s.pool with fails := Function.update s.pool.fails k fun _ => 0 } }
    | _ => none
  | .finish _ =>
    match s.stage k with
    | .reported ending =>
      some { s.enter k (.finished ending) with
        done := s.done + 1
        stop := if b.quorumReached (s.done + 1) s.launched.length then s.stop <|> some .quorum else s.stop }
    | _ => none
  | _ => none

-- The relays whose query is outstanding when the dispatcher leaves.
def outstanding (s : Dispatch) : List Nat := s.pool.kept.filter fun k => s.pool.alive k && !(s.stage k).completed

def leave (b : Batch) (budgetExhausted : Bool) (s : Dispatch) : Dispatch :=
  let stuck := outstanding s
  if budgetExhausted then
    { s with
      pool := stuck.foldl (fun p k => markRelayDead b (b.url k) .classTransport p) s.pool
      calls := stuck.map (·,.classTransport) ++ s.calls
      mode := .returned .stopped }
  else
    { s with
      pool := { s.pool with alive := fun k => s.pool.alive k && !decide (k ∈ stuck) }
      mode := .returned .stopped }

-- One turn of the dispatcher's loop: whichever ready case is picked.
def dispatcher (b : Batch) (s : Dispatch) : Action → Option Dispatch
  | .receive a =>
    match s.events with
    | [] => none
    | e :: rest =>
      match handle b a e s.results with
      | (.ok (),results) => some { s with events := rest, results }
      | (.error error,results) => some { s with events := rest, results, mode := .returned (.failed error) }
  | .takeError =>
    match s.mode,s.errors with
    | .looping,(k,e) :: rest =>
      if interrupted e then some { s with errors := rest }
      else some { s with
        errors := rest
        pool := markRelayDead b (b.url k) (classifyRelayError e) s.pool
        calls := (k,classifyRelayError e) :: s.calls }
    | _,_ => none
  | .wake late =>
    match s.mode,s.stop with
    | .looping,some stop => some { s with mode := .draining (decide (stop = .deadline) || late) }
    | _,_ => none
  | .leaveClosed => if s.mode = .looping ∧ s.events = [] ∧ s.closed = true then some { s with mode := .returned .closed } else none
  | .leaveCancelled => if s.mode = .looping ∧ s.callerDone = true then some { s with mode := .returned .cancelled } else none
  | .drained =>
    match s.mode,s.events with
    | .draining budgetExhausted,[] => some (leave b budgetExhausted s)
    | _,_ => none
  | _ => none

-- The goroutine that takes the step, if one does.
def Action.relay : Action → Option Nat
  | .subscribe k _ | .send k _ | .eose k | .exhaust k | .rejectProbe k | .fail k _ | .stamp k | .report k | .finish k => some k
  | _ => none

def step (b : Batch) (s : Dispatch) (action : Action) : Option Dispatch :=
  match s.mode with
  | .returned _ => none
  | _ =>
    match action.relay with
    | some k => if k ∈ s.launched then query b s k action else none
    | none =>
      match action with
      | .close => if s.launched.all (fun k => (s.stage k).isFinished) && !s.closed then some { s with closed := true } else none
      | .deadline => if s.stop = none then some { s with stop := some .deadline } else none
      | .cancel => some { s with callerDone := true, stop := s.stop <|> some .caller }
      | _ => dispatcher b s action

-- Everything one step can do.
inductive Moved (b : Batch) (s : Dispatch) : Action → Dispatch → Prop where
  | subscribe (k size : Nat) (author : Str) (authors : List Str) : k ∈ s.launched → s.stage k = .asking (author :: authors) →
      Moved b s (.subscribe k size) (s.enter k (.subscribed ((author :: authors).take size) ((author :: authors).drop size)))
  | send (k : Nat) (e : Event) : Moved b s (.send k e) { s with events := s.events ++ [e] }
  | eose (k : Nat) (chunk rest : List Str) : k ∈ s.launched → s.stage k = .subscribed chunk rest →
      Moved b s (.eose k) { s.enter k (.asking rest) with answered := (k,chunk) :: s.answered }
  | exhaust (k : Nat) : k ∈ s.launched → s.stage k = .asking [] → Moved b s (.exhaust k) (s.enter k (.returned .eose))
  | rejectProbe (k : Nat) : k ∈ s.launched → (s.stage k).ending = none → Moved b s (.rejectProbe k) (s.enter k (.returned .rejected))
  | fail (k : Nat) (e : QueryError) : k ∈ s.launched → (s.stage k).ending = none →
      Moved b s (.fail k e) (s.enter k (.returned (.failed e)))
  | stamp (k : Nat) (ending : Ending) : k ∈ s.launched → s.stage k = .returned ending → Moved b s (.stamp k) (s.enter k (.stamped ending))
  | reportError (k : Nat) (e : QueryError) : k ∈ s.launched → s.stage k = .stamped (.failed e) →
      Moved b s (.report k) { s.enter k (.reported (.failed e)) with errors := s.errors ++ [(k,e)] }
  | reportDone (k : Nat) (ending : Ending) : k ∈ s.launched → s.stage k = .stamped ending → (∀ e, ending ≠ .failed e) →
      Moved b s (.report k)
        { s.enter k (.reported ending) with pool := { s.pool with fails := Function.update s.pool.fails k fun _ => 0 } }
  | finish (k : Nat) (ending : Ending) : k ∈ s.launched → s.stage k = .reported ending →
      Moved b s (.finish k) { s.enter k (.finished ending) with
        done := s.done + 1
        stop := if b.quorumReached (s.done + 1) s.launched.length then s.stop <|> some .quorum else s.stop }
  | close : (∀ k ∈ s.launched, (s.stage k).isFinished = true) → Moved b s .close { s with closed := true }
  | deadline : Moved b s .deadline { s with stop := some .deadline }
  | cancel : Moved b s .cancel { s with callerDone := true, stop := s.stop <|> some .caller }
  | receive (a : Answer) (e : Event) (rest : List Event) (results : Results) : s.events = e :: rest →
      handle b a e s.results = (.ok (),results) → Moved b s (.receive a) { s with events := rest, results }
  | abort (a : Answer) (rest : List Event) (error : StoreError) (results : Results) :
      Moved b s (.receive a) { s with events := rest, results, mode := .returned (.failed error) }
  | passOver (k : Nat) (e : QueryError) (rest : List (Nat × QueryError)) : s.errors = (k,e) :: rest → interrupted e = true →
      Moved b s .takeError { s with errors := rest }
  | markDead (k : Nat) (e : QueryError) (rest : List (Nat × QueryError)) : s.errors = (k,e) :: rest → interrupted e = false →
      Moved b s .takeError { s with
        errors := rest
        pool := markRelayDead b (b.url k) (classifyRelayError e) s.pool
        calls := (k,classifyRelayError e) :: s.calls }
  | wake (late : Bool) (stop : Stop) : s.stop = some stop →
      Moved b s (.wake late) { s with mode := .draining (decide (stop = .deadline) || late) }
  | leaveClosed : s.mode = .looping → s.closed = true → Moved b s .leaveClosed { s with mode := .returned .closed }
  | leaveCancelled : Moved b s .leaveCancelled { s with mode := .returned .cancelled }
  | drained (budgetExhausted : Bool) : s.mode = .draining budgetExhausted → Moved b s .drained (leave b budgetExhausted s)

section Inversion
variable {b : Batch} {s next : Dispatch} {action : Action} {k : Nat}

theorem query_moved (member : k ∈ s.launched) (own : action.relay = some k) (moved : query b s k action = some next) :
    Moved b s action next := by
  cases action with
  | subscribe j size =>
    cases own
    unfold query at moved
    dsimp only at moved
    split at moved
    · rename_i author authors here
      split at moved
      · cases moved
      · cases moved
        exact .subscribe k size author authors member here
    · cases moved
  | send j e =>
    cases own
    unfold query at moved
    dsimp only at moved
    split at moved
    · split at moved
      · cases moved
        exact .send k e
      · cases moved
    · cases moved
  | eose j =>
    cases own
    unfold query at moved
    dsimp only at moved
    split at moved
    · rename_i chunk rest here
      cases moved
      exact .eose k chunk rest member here
    · cases moved
  | exhaust j =>
    cases own
    unfold query at moved
    dsimp only at moved
    split at moved
    · rename_i here
      cases moved
      exact .exhaust k member here
    · cases moved
  | rejectProbe j =>
    cases own
    unfold query at moved
    dsimp only at moved
    split at moved
    · rename_i here
      cases moved
      exact .rejectProbe k member (by rw [here]; rfl)
    · cases moved
  | fail j e =>
    cases own
    unfold query at moved
    dsimp only at moved
    split at moved
    · cases moved
    · split at moved
      · rename_i here
        cases moved
        exact .fail k e member (by rw [here]; rfl)
      · rename_i here
        cases moved
        exact .fail k e member (by rw [here]; rfl)
      · cases moved
  | stamp j =>
    cases own
    unfold query at moved
    dsimp only at moved
    split at moved
    · rename_i ending here
      cases moved
      exact .stamp k ending member here
    · cases moved
  | report j =>
    cases own
    unfold query at moved
    dsimp only at moved
    split at moved
    · rename_i e here
      cases moved
      exact .reportError k e member here
    · rename_i ending unfailed here
      cases moved
      exact .reportDone k ending member here fun e failed => unfailed e failed
    · cases moved
  | finish j =>
    cases own
    unfold query at moved
    dsimp only at moved
    split at moved
    · rename_i ending here
      cases moved
      exact .finish k ending member here
    · cases moved
  | _ => cases own

theorem dispatcher_moved (moved : dispatcher b s action = some next) : Moved b s action next := by
  cases action with
  | receive a =>
    unfold dispatcher at moved
    dsimp only at moved
    split at moved
    · cases moved
    · rename_i e rest here
      split at moved
      · rename_i results handled
        cases moved
        exact .receive a e rest results here handled
      · rename_i error results _
        cases moved
        exact .abort a rest error results
  | takeError =>
    unfold dispatcher at moved
    dsimp only at moved
    split at moved
    · rename_i k e rest _ here
      split at moved
      · rename_i text
        cases moved
        exact .passOver k e rest here text
      · rename_i text
        cases moved
        exact .markDead k e rest here (Bool.not_eq_true _ ▸ text)
    · cases moved
  | wake late =>
    unfold dispatcher at moved
    dsimp only at moved
    split at moved
    · rename_i stop _ here
      cases moved
      exact .wake late stop here
    · cases moved
  | leaveClosed =>
    unfold dispatcher at moved
    dsimp only at moved
    split at moved
    · rename_i ready
      cases moved
      exact .leaveClosed ready.1 ready.2.2
    · cases moved
  | leaveCancelled =>
    unfold dispatcher at moved
    dsimp only at moved
    split at moved
    · cases moved
      exact .leaveCancelled
    · cases moved
  | drained =>
    unfold dispatcher at moved
    dsimp only at moved
    split at moved
    · rename_i budgetExhausted here _
      cases moved
      exact .drained budgetExhausted here
    · cases moved
  | _ => cases moved

theorem step_moved (moved : step b s action = some next) : Moved b s action next := by
  unfold step at moved
  split at moved
  · cases moved
  · split at moved
    · rename_i k own
      split at moved
      · rename_i member
        exact query_moved member own moved
      · cases moved
    · split at moved
      · split at moved
        · rename_i ready
          rw [Bool.and_eq_true,List.all_eq_true] at ready
          cases moved
          exact .close ready.1
        · cases moved
      · split at moved
        · cases moved
          exact .deadline
        · cases moved
      · cases moved
        exact .cancel
      · exact dispatcher_moved moved

-- A call that has returned takes no step.
theorem step_running (moved : step b s action = some next) (exit : Exit) : s.mode ≠ .returned exit := by
  intro same
  unfold step at moved
  rw [same] at moved
  cases moved
end Inversion

end DeepFry.WebOfTrust
