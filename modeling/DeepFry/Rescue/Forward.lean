import DeepFry.Lib.Lanes
import DeepFry.Rescue.Collect

namespace DeepFry.Rescue.Forward
open Machine

-- Phase 3: the dispatcher, its unbuffered jobs channel and the workers that publish.
inductive Worker where
  | connecting
  | unconnected (events : List RawEvent)
  | serving (events : List RawEvent)
  | publishing (raw : RawEvent) (rest : List RawEvent)
  | recording (ok : Bool) (raw : RawEvent) (rest : List RawEvent)
  | returned
deriving Repr,DecidableEq

inductive Dispatcher where
  | ranging (todo : List (Bytes × List RawEvent))
  | offering (events : List RawEvent) (todo : List (Bytes × List RawEvent))
  | givingUp (events : List RawEvent) (todo : List (Bytes × List RawEvent))
  | closed
deriving Repr,DecidableEq

structure State (k : Nat) where
  dispatcher : Dispatcher
  workers : Fin k → Worker
  success : List Bytes
  failed : List Bytes
  cancelled : Bool
  published : List RawEvent
  accepted : List RawEvent

-- accepted: whether the main relay took the event; ok: whether Publish returned nil.
inductive Action (k : Nat) where
  | cancel
  | next
  | send (i : Fin k)
  | abandon
  | giveUp
  | resume
  | close
  | connect (i : Fin k) (ok : Bool)
  | failOne (i : Fin k)
  | stop (i : Fin k)
  | decode (i : Fin k) (ok : Bool)
  | publish (i : Fin k) (accepted ok : Bool)
  | record (i : Fin k)
  | leave (i : Fin k)
deriving Repr,DecidableEq

def workers (configured : Int) : Nat := if configured ≤ 0 then 4 else configured.toNat

theorem workers_pos (configured : Int) : 0 < workers configured := by
  unfold workers
  split <;> omega

def sortOldestFirst (events : List RawEvent) : List RawEvent := events.mergeSort fun a b => a.createdAt ≤ b.createdAt

section Step

variable {k : Nat}

def start (eventsByPubkey : List (Bytes × List RawEvent)) (cancelled : Bool) : State k :=
  ⟨.ranging eventsByPubkey,fun _ => .connecting,[],[],cancelled,[],[]⟩

def State.enter (s : State k) (i : Fin k) (worker : Worker) : State k :=
  {s with workers := Function.update s.workers i worker}

def State.fail (s : State k) (event : RawEvent) : State k := {s with failed := s.failed ++ [event.id]}

def stepDispatcher (s : State k) : Action k → Option (State k)
  | .next =>
    match s.dispatcher with
    | .ranging ((_,events) :: todo) => some {s with dispatcher := .offering (sortOldestFirst events) todo}
    | _ => none
  | .send i =>
    match s.dispatcher,s.workers i with
    | .offering events todo,.serving [] => some ({s with dispatcher := .ranging todo}.enter i (.serving events))
    | .offering events todo,.unconnected [] => some ({s with dispatcher := .ranging todo}.enter i (.unconnected events))
    | _,_ => none
  | .abandon =>
    match s.dispatcher with
    | .offering events todo => if s.cancelled then some {s with dispatcher := .givingUp events todo} else none
    | _ => none
  | .giveUp =>
    match s.dispatcher with
    | .givingUp (event :: rest) todo => some ({s with dispatcher := .givingUp rest todo}.fail event)
    | _ => none
  | .resume =>
    match s.dispatcher with
    | .givingUp [] todo => some {s with dispatcher := .ranging todo}
    | _ => none
  | .close =>
    match s.dispatcher with
    | .ranging [] => some {s with dispatcher := .closed}
    | _ => none
  | _ => none

def stepWorker (s : State k) : Action k → Option (State k)
  | .connect i ok =>
    match s.workers i with
    | .connecting => some (s.enter i (if ok then .serving [] else .unconnected []))
    | _ => none
  | .failOne i =>
    match s.workers i with
    | .unconnected (event :: rest) => some ((s.enter i (.unconnected rest)).fail event)
    | _ => none
  | .stop i =>
    match s.workers i with
    | .serving (raw :: rest) => if s.cancelled then some ((s.enter i (.serving rest)).fail raw) else none
    | _ => none
  | .decode i ok =>
    match s.workers i with
    | .serving (raw :: rest) =>
      if s.cancelled then none
      else if ok then some (s.enter i (.publishing raw rest)) else some ((s.enter i (.serving rest)).fail raw)
    | _ => none
  | .publish i accepted ok =>
    match s.workers i with
    | .publishing raw rest =>
      some {s.enter i (.recording ok raw rest) with
        published := s.published ++ [raw]
        accepted := if accepted then s.accepted ++ [raw] else s.accepted}
    | _ => none
  | .record i =>
    match s.workers i with
    | .recording true raw rest => some {s.enter i (.serving rest) with success := s.success ++ [raw.id]}
    | .recording false raw rest => some ((s.enter i (.serving rest)).fail raw)
    | _ => none
  | .leave i =>
    match s.dispatcher,s.workers i with
    | .closed,.serving [] => some (s.enter i .returned)
    | .closed,.unconnected [] => some (s.enter i .returned)
    | _,_ => none
  | _ => none

def step (s : State k) (action : Action k) : Option (State k) :=
  match action with
  | .cancel => if s.cancelled then none else some {s with cancelled := true}
  | .next | .send _ | .abandon | .giveUp | .resume | .close => stepDispatcher s action
  | _ => stepWorker s action

-- Publish returns nil only if the main relay accepted the event.
def honest (_ : State k) : Action k → Prop
  | .publish _ accepted ok => ok = true → accepted = true
  | _ => True

instance (s : State k) : ∀ action : Action k, Decidable (honest s action)
  | .publish _ accepted ok => inferInstanceAs (Decidable (ok = true → accepted = true))
  | .cancel | .next | .send _ | .abandon | .giveUp | .resume | .close | .connect _ _ | .failOne _ | .stop _ | .decode _ _
  | .record _ | .leave _ => .isTrue trivial

-- Forward returns when the workers have, after the jobs are closed.
structure Returned (s : State k) : Prop where
  closed : s.dispatcher = .closed
  workers : ∀ i, s.workers i = .returned

-- What each step does, once for all the invariants.
inductive Moved (s : State k) : Action k → State k → Prop where
  | cancel : s.cancelled = false → Moved s .cancel {s with cancelled := true}
  | next {pubkey : Bytes} {events : List RawEvent} {todo : List (Bytes × List RawEvent)} :
      s.dispatcher = .ranging ((pubkey,events) :: todo) →
      Moved s .next {s with dispatcher := .offering (sortOldestFirst events) todo}
  | serve {i : Fin k} {events : List RawEvent} {todo : List (Bytes × List RawEvent)} :
      s.dispatcher = .offering events todo → s.workers i = .serving [] →
      Moved s (.send i) ({s with dispatcher := .ranging todo}.enter i (.serving events))
  | drain {i : Fin k} {events : List RawEvent} {todo : List (Bytes × List RawEvent)} :
      s.dispatcher = .offering events todo → s.workers i = .unconnected [] →
      Moved s (.send i) ({s with dispatcher := .ranging todo}.enter i (.unconnected events))
  | abandon {events : List RawEvent} {todo : List (Bytes × List RawEvent)} : s.dispatcher = .offering events todo →
      s.cancelled = true → Moved s .abandon {s with dispatcher := .givingUp events todo}
  | giveUp {event : RawEvent} {rest : List RawEvent} {todo : List (Bytes × List RawEvent)} :
      s.dispatcher = .givingUp (event :: rest) todo →
      Moved s .giveUp ({s with dispatcher := .givingUp rest todo}.fail event)
  | resume {todo : List (Bytes × List RawEvent)} : s.dispatcher = .givingUp [] todo →
      Moved s .resume {s with dispatcher := .ranging todo}
  | close : s.dispatcher = .ranging [] → Moved s .close {s with dispatcher := .closed}
  | connect {i : Fin k} {ok : Bool} : s.workers i = .connecting →
      Moved s (.connect i ok) (s.enter i (if ok then .serving [] else .unconnected []))
  | failOne {i : Fin k} {event : RawEvent} {rest : List RawEvent} : s.workers i = .unconnected (event :: rest) →
      Moved s (.failOne i) ((s.enter i (.unconnected rest)).fail event)
  | stop {i : Fin k} {raw : RawEvent} {rest : List RawEvent} : s.workers i = .serving (raw :: rest) →
      s.cancelled = true → Moved s (.stop i) ((s.enter i (.serving rest)).fail raw)
  | decoded {i : Fin k} {raw : RawEvent} {rest : List RawEvent} : s.workers i = .serving (raw :: rest) →
      s.cancelled = false → Moved s (.decode i true) (s.enter i (.publishing raw rest))
  | undecoded {i : Fin k} {raw : RawEvent} {rest : List RawEvent} : s.workers i = .serving (raw :: rest) →
      s.cancelled = false → Moved s (.decode i false) ((s.enter i (.serving rest)).fail raw)
  | publish {i : Fin k} {accepted ok : Bool} {raw : RawEvent} {rest : List RawEvent} :
      s.workers i = .publishing raw rest → Moved s (.publish i accepted ok) {s.enter i (.recording ok raw rest) with
        published := s.published ++ [raw]
        accepted := if accepted then s.accepted ++ [raw] else s.accepted}
  | succeed {i : Fin k} {raw : RawEvent} {rest : List RawEvent} : s.workers i = .recording true raw rest →
      Moved s (.record i) {s.enter i (.serving rest) with success := s.success ++ [raw.id]}
  | reject {i : Fin k} {raw : RawEvent} {rest : List RawEvent} : s.workers i = .recording false raw rest →
      Moved s (.record i) ((s.enter i (.serving rest)).fail raw)
  | leave {i : Fin k} : s.dispatcher = .closed → s.workers i = .serving [] ∨ s.workers i = .unconnected [] →
      Moved s (.leave i) (s.enter i .returned)

theorem step_moved {s next : State k} {action : Action k} (moved : step s action = some next) : Moved s action next := by
  cases action with
  | cancel =>
    simp only [step,Option.ite_none_left_eq_some,Option.some.injEq] at moved
    obtain ⟨fresh,rfl⟩ := moved
    exact .cancel (by simpa using fresh)
  | next =>
    simp only [step,stepDispatcher] at moved
    split at moved
    · rename_i pubkey events todo ranging
      cases moved
      exact .next ranging
    · cases moved
  | send i =>
    simp only [step,stepDispatcher] at moved
    split at moved
    · rename_i events todo offering idle
      cases moved
      exact .serve offering idle
    · rename_i events todo offering idle
      cases moved
      exact .drain offering idle
    · cases moved
  | abandon =>
    simp only [step,stepDispatcher] at moved
    split at moved
    · rename_i events todo offering
      obtain ⟨cancelled,same⟩ := Option.ite_none_right_eq_some.mp moved
      cases same
      exact .abandon offering cancelled
    · cases moved
  | giveUp =>
    simp only [step,stepDispatcher] at moved
    split at moved
    · rename_i event rest todo giving
      cases moved
      exact .giveUp giving
    · cases moved
  | resume =>
    simp only [step,stepDispatcher] at moved
    split at moved
    · rename_i todo giving
      cases moved
      exact .resume giving
    · cases moved
  | close =>
    simp only [step,stepDispatcher] at moved
    split at moved
    · rename_i ranging
      cases moved
      exact .close ranging
    · cases moved
  | connect i ok =>
    simp only [step,stepWorker] at moved
    split at moved
    · rename_i connecting
      cases moved
      exact .connect connecting
    · cases moved
  | failOne i =>
    simp only [step,stepWorker] at moved
    split at moved
    · rename_i event rest draining
      cases moved
      exact .failOne draining
    · cases moved
  | stop i =>
    simp only [step,stepWorker] at moved
    split at moved
    · rename_i raw rest serving
      obtain ⟨cancelled,same⟩ := Option.ite_none_right_eq_some.mp moved
      cases same
      exact .stop serving cancelled
    · cases moved
  | decode i ok =>
    simp only [step,stepWorker] at moved
    split at moved
    · rename_i raw rest serving
      obtain ⟨running,decoded⟩ := Option.ite_none_left_eq_some.mp moved
      have live : s.cancelled = false := by simpa using running
      cases ok with
      | true =>
        cases decoded
        exact .decoded serving live
      | false =>
        cases decoded
        exact .undecoded serving live
    · cases moved
  | publish i accepted ok =>
    simp only [step,stepWorker] at moved
    split at moved
    · rename_i raw rest publishing
      cases moved
      exact .publish publishing
    · cases moved
  | record i =>
    simp only [step,stepWorker] at moved
    split at moved
    · rename_i raw rest recording
      cases moved
      exact .succeed recording
    · rename_i raw rest recording
      cases moved
      exact .reject recording
    · cases moved
  | leave i =>
    simp only [step,stepWorker] at moved
    split at moved
    · rename_i closed idle
      cases moved
      exact .leave closed (.inl idle)
    · rename_i closed idle
      cases moved
      exact .leave closed (.inr idle)
    · cases moved

end Step

end DeepFry.Rescue.Forward
