import DeepFry.Lib.Bytes
import DeepFry.Lib.Machine

namespace DeepFry.Rescue

-- Phase 1: the exporter's goroutine, the two channels it fills, and the loop that groups what it reads.
structure MinEvent where
  id : Bytes
  pubkey : Bytes
  kind : Int
  createdAt : Int
deriving Repr,DecidableEq

structure RawEvent where
  id : Bytes
  pubkey : Bytes
  kind : Int
  createdAt : Int
  raw : Bytes
deriving Repr,DecidableEq

namespace Export

-- How the command ended, once its output has been read.
inductive Ending where
  | clean
  | scan (cause : String)
  | exit (cause : String)
deriving Repr,DecidableEq

inductive Producer where
  | scanning (lines : List Bytes)
  | sending (event : RawEvent) (lines : List Bytes)
  | failing (err : String)
  | closingErrs
  | closingEvents
  | returned
deriving Repr,DecidableEq

inductive Consumer where
  | receiving
  | waiting
  | returned (err : Option String)
deriving Repr,DecidableEq

def eventsCapacity : Nat := 256

structure State where
  producer : Producer
  events : List RawEvent
  eventsClosed : Bool
  errs : List String
  errsClosed : Bool
  consumer : Consumer
  byPubkey : List (Bytes × List RawEvent)
  total : Nat
  cancelled : Bool
deriving Repr,DecidableEq

inductive Action where
  | cancel
  | scan
  | send
  | done
  | finish (ending : Ending)
  | fail
  | closeErrs
  | closeEvents
  | receive
  | drained
  | answer
deriving Repr,DecidableEq

def start (lines : List Bytes) : State := ⟨.scanning lines,[],false,[],false,.receiving,[],0,false⟩

-- The command could not be started: both channels come back closed.
def startFailed (cause : String) : State :=
  ⟨.returned,[],true,["start strfry export: " ++ cause],true,.receiving,[],0,false⟩

-- byPubkey[pubkey] = append(byPubkey[pubkey], ev)
def appendTo (event : RawEvent) : List (Bytes × List RawEvent) → List (Bytes × List RawEvent)
  | [] => [(event.pubkey,[event])]
  | (pubkey,events) :: rest =>
    if pubkey = event.pubkey then (pubkey,events ++ [event]) :: rest else (pubkey,events) :: appendTo event rest

-- A line that is empty, malformed or without an id or a pubkey is skipped.
def parse (unmarshal : Bytes → Option MinEvent) (line : Bytes) : Option RawEvent :=
  if line = [] then none
  else
    match unmarshal line with
    | none => none
    | some ev => if ev.id = [] ∨ ev.pubkey = [] then none else some ⟨ev.id,ev.pubkey,ev.kind,ev.createdAt,line⟩

def stepProducer (unmarshal : Bytes → Option MinEvent) (s : State) : Action → Option State
  | .scan =>
    match s.producer with
    | .scanning (line :: rest) =>
      match parse unmarshal line with
      | none => some {s with producer := .scanning rest}
      | some event => some {s with producer := .sending event rest}
    | _ => none
  | .send =>
    match s.producer with
    | .sending event rest =>
      if s.events.length < eventsCapacity then
        some {s with producer := .scanning rest,events := s.events ++ [event]}
      else none
    | _ => none
  | .done =>
    match s.producer with
    | .sending _ _ => if s.cancelled then some {s with producer := .failing "context canceled"} else none
    | _ => none
  | .finish ending =>
    match s.producer,ending with
    | .scanning [],.clean => some {s with producer := .closingErrs}
    | .scanning [],.scan cause => some {s with producer := .failing ("scan strfry export: " ++ cause)}
    | .scanning [],.exit cause => some {s with producer := .failing cause}
    | _,_ => none
  | .fail =>
    match s.producer with
    | .failing err => some {s with producer := .closingErrs,errs := s.errs ++ [err]}
    | _ => none
  | .closeErrs =>
    match s.producer with
    | .closingErrs => some {s with producer := .closingEvents,errsClosed := true}
    | _ => none
  | .closeEvents =>
    match s.producer with
    | .closingEvents => some {s with producer := .returned,eventsClosed := true}
    | _ => none
  | _ => none

def stepConsumer (limit : Int) (s : State) : Action → Option State
  | .receive =>
    match s.consumer,s.events with
    | .receiving,event :: rest =>
      let total := s.total + 1
      some {s with
        events := rest
        byPubkey := appendTo event s.byPubkey
        total := total
        consumer := if limit > 0 ∧ (total : Int) ≥ limit then .waiting else .receiving}
    | _,_ => none
  | .drained =>
    match s.consumer,s.events with
    | .receiving,[] => if s.eventsClosed then some {s with consumer := .waiting} else none
    | _,_ => none
  | .answer =>
    match s.consumer,s.errs with
    | .waiting,err :: rest => some {s with consumer := .returned (some err),errs := rest}
    | .waiting,[] => if s.errsClosed then some {s with consumer := .returned none} else none
    | _,_ => none
  | _ => none

def step (unmarshal : Bytes → Option MinEvent) (limit : Int) (s : State) (action : Action) : Option State :=
  match action with
  | .cancel => if s.cancelled then none else some {s with cancelled := true}
  | .receive | .drained | .answer => stepConsumer limit s action
  | _ => stepProducer unmarshal s action

-- What each step does, once for all the invariants.
inductive Moved (unmarshal : Bytes → Option MinEvent) (limit : Int) (s : State) : Action → State → Prop where
  | cancel : s.cancelled = false → Moved unmarshal limit s .cancel {s with cancelled := true}
  | skip {line : Bytes} {rest : List Bytes} : s.producer = .scanning (line :: rest) → parse unmarshal line = none →
      Moved unmarshal limit s .scan {s with producer := .scanning rest}
  | scan {line : Bytes} {rest : List Bytes} {event : RawEvent} : s.producer = .scanning (line :: rest) →
      parse unmarshal line = some event → Moved unmarshal limit s .scan {s with producer := .sending event rest}
  | send {event : RawEvent} {rest : List Bytes} : s.producer = .sending event rest → s.events.length < eventsCapacity →
      Moved unmarshal limit s .send {s with producer := .scanning rest,events := s.events ++ [event]}
  | done {event : RawEvent} {rest : List Bytes} : s.producer = .sending event rest → s.cancelled = true →
      Moved unmarshal limit s .done {s with producer := .failing "context canceled"}
  | clean : s.producer = .scanning [] → Moved unmarshal limit s (.finish .clean) {s with producer := .closingErrs}
  | broken {ending : Ending} {err : String} : s.producer = .scanning [] → ending ≠ .clean →
      Moved unmarshal limit s (.finish ending) {s with producer := .failing err}
  | fail {err : String} : s.producer = .failing err →
      Moved unmarshal limit s .fail {s with producer := .closingErrs,errs := s.errs ++ [err]}
  | closeErrs : s.producer = .closingErrs →
      Moved unmarshal limit s .closeErrs {s with producer := .closingEvents,errsClosed := true}
  | closeEvents : s.producer = .closingEvents →
      Moved unmarshal limit s .closeEvents {s with producer := .returned,eventsClosed := true}
  | receive {event : RawEvent} {rest : List RawEvent} : s.consumer = .receiving → s.events = event :: rest →
      Moved unmarshal limit s .receive {s with
        events := rest
        byPubkey := appendTo event s.byPubkey
        total := s.total + 1
        consumer := if limit > 0 ∧ ((s.total + 1 : Nat) : Int) ≥ limit then .waiting else .receiving}
  | drained : s.consumer = .receiving → s.events = [] → s.eventsClosed = true →
      Moved unmarshal limit s .drained {s with consumer := .waiting}
  | err {err : String} {rest : List String} : s.consumer = .waiting → s.errs = err :: rest →
      Moved unmarshal limit s .answer {s with consumer := .returned (some err),errs := rest}
  | none : s.consumer = .waiting → s.errs = [] → s.errsClosed = true →
      Moved unmarshal limit s .answer {s with consumer := .returned none}

theorem step_moved {unmarshal : Bytes → Option MinEvent} {limit : Int} {s next : State} {action : Action}
    (moved : step unmarshal limit s action = some next) : Moved unmarshal limit s action next := by
  cases action with
  | cancel =>
    simp only [step,Option.ite_none_left_eq_some,Option.some.injEq] at moved
    obtain ⟨fresh,rfl⟩ := moved
    exact .cancel (by simpa using fresh)
  | scan =>
    simp only [step,stepProducer] at moved
    split at moved
    · rename_i line rest scanning
      split at moved
      · rename_i skipped
        cases moved
        exact .skip scanning skipped
      · rename_i event parsed
        cases moved
        exact .scan scanning parsed
    · cases moved
  | send =>
    simp only [step,stepProducer] at moved
    split at moved
    · rename_i event rest sending
      obtain ⟨room,same⟩ := Option.ite_none_right_eq_some.mp moved
      cases same
      exact .send sending room
    · cases moved
  | done =>
    simp only [step,stepProducer] at moved
    split at moved
    · rename_i event rest sending
      obtain ⟨cancelled,same⟩ := Option.ite_none_right_eq_some.mp moved
      cases same
      exact .done sending cancelled
    · cases moved
  | finish ending =>
    simp only [step,stepProducer] at moved
    split at moved
    · rename_i scanning
      cases moved
      exact .clean scanning
    · rename_i cause scanning
      cases moved
      exact .broken scanning Ending.noConfusion
    · rename_i cause scanning
      cases moved
      exact .broken scanning Ending.noConfusion
    · cases moved
  | fail =>
    simp only [step,stepProducer] at moved
    split at moved
    · rename_i err failing
      cases moved
      exact .fail failing
    · cases moved
  | closeErrs =>
    simp only [step,stepProducer] at moved
    split at moved
    · rename_i closing
      cases moved
      exact .closeErrs closing
    · cases moved
  | closeEvents =>
    simp only [step,stepProducer] at moved
    split at moved
    · rename_i closing
      cases moved
      exact .closeEvents closing
    · cases moved
  | receive =>
    simp only [step,stepConsumer] at moved
    split at moved
    · rename_i event rest receiving there
      cases moved
      exact .receive receiving there
    · cases moved
  | drained =>
    simp only [step,stepConsumer] at moved
    split at moved
    · rename_i receiving empty
      obtain ⟨closed,same⟩ := Option.ite_none_right_eq_some.mp moved
      cases same
      exact .drained receiving empty closed
    · cases moved
  | answer =>
    simp only [step,stepConsumer] at moved
    split at moved
    · rename_i err rest waiting there
      cases moved
      exact .err waiting there
    · rename_i waiting empty
      obtain ⟨closed,same⟩ := Option.ite_none_right_eq_some.mp moved
      cases same
      exact .none waiting empty closed
    · cases moved

end Export

end DeepFry.Rescue
