import DeepFry.EventForwarder.Window

namespace DeepFry.EventForwarder

structure Event where
  id : Str
  createdAt : Int
deriving DecidableEq

structure Filter where
  Since : Int
  Until : Int
  Limit : Int
deriving DecidableEq

def Filter.held (f : Filter) (source : Finset Event) : Finset Event :=
  source.filter fun e => f.Since ≤ e.createdAt ∧ e.createdAt ≤ f.Until

-- A zero limit is left out of the request.
def Filter.size (f : Filter) (n : Nat) : Nat := if f.Limit = 0 then n else min f.Limit.toNat n

-- The source relay answers with that many of the newest matching events, in any order.
def Filter.answeredBy (f : Filter) (source : Finset Event) (answer : List Event) : Prop :=
  answer.Nodup ∧ (∀ e ∈ answer, e ∈ f.held source) ∧ answer.length = f.size (f.held source).card ∧
    ∀ e ∈ answer, ∀ older ∈ f.held source, older ∉ answer → older.createdAt ≤ e.createdAt

instance (f : Filter) (source : Finset Event) (answer : List Event) : Decidable (f.answeredBy source answer) :=
  inferInstanceAs (Decidable (_ ∧ _ ∧ _ ∧ _))

-- What comes of a publish: a lost reply is an error although the relay accepted the event.
inductive Reply where
  | stored
  | lost (error : Str)
  | refused (error : Str)
deriving DecidableEq

def forwardEvent (reply : Reply) (event : Option Event) (accepted : Finset Event) : Bool × Finset Event :=
  match event with
  | none => (false,accepted)
  | some e =>
    match reply with
    | .stored => (true,insert e accepted)
    | .lost _ => (false,insert e accepted)
    | .refused _ => (false,accepted)

-- One turn of the range over the event channel.
inductive Turn where
  | reply (r : Reply)
  | cancelled
  | crashed
deriving DecidableEq

inductive Flow where
  | finished
  | cancelled
  | crashed
deriving DecidableEq

-- The context is looked at before each event, not after the last one.
def forwardAll (turns : Nat → Turn) : Nat → List (Option Event) → Nat → Finset Event → Flow × Nat × Finset Event
  | i,[],eventCount,accepted => (if turns i = .crashed then .crashed else .finished,eventCount,accepted)
  | i,event :: rest,eventCount,accepted =>
    match turns i with
    | .cancelled => (.cancelled,eventCount,accepted)
    | .crashed => (.crashed,eventCount,accepted)
    | .reply r =>
      let (sent,accepted) := forwardEvent r event accepted
      forwardAll turns (i + 1) rest (if sent then eventCount + 1 else eventCount) accepted

inductive SyncMode where
  | windowed
  | realtime
deriving DecidableEq

-- A sync-progress event as published, with what the source held when it was queried and DeepFry had accepted by then.
structure Published where
  mode : SyncMode
  From : Int
  To : Int
  content : Finset Event
  accepted : Finset Event

inductive Process where
  | down
  | windowed (currentWindow : Window)
  | subscribing (currentWindow : Window) (eventsSinceUpdate : Nat)
  | realtime (currentWindow : Window) (eventsSinceUpdate : Nat)
deriving DecidableEq

-- source: what the source relay holds now. accepted and progress: what DeepFry accepted so far, and the progress event it keeps.
structure Deployment where
  now : Int
  source : Finset Event
  accepted : Finset Event
  progress : Option SyncEvent
  process : Process
  published : List Published

def deploy (now : Int) (source accepted : Finset Event) (progress : Option SyncEvent) : Deployment where
  now := now
  source := source
  accepted := accepted
  progress := progress
  process := .down
  published := []

-- createdAt: nostr.Now(). lowestId: how the ids compare with an event of the same second.
structure Update where
  createdAt : Int
  signError : Option Str
  reply : Reply
  lowestId : Bool

-- DeepFry keeps the newest event of the address, and of one second that with the lowest id.
def replaced (stored : Option SyncEvent) (new : SyncEvent) (lowestId : Bool) : Option SyncEvent :=
  match stored with
  | none => some new
  | some old => if old.createdAt < new.createdAt ∨ (old.createdAt = new.createdAt ∧ lowestId = true) then some new else some old

def updateWindow (c : Config) (u : Update) (mode : SyncMode) (w : Window) (s : Deployment) : Except Failure Unit × Deployment :=
  match w.validate with
  | .error e => (.error (.wrapped (Bytes.text "cannot update invalid window") (.validation e)),s)
  | .ok () =>
    match u.signError with
    | some error =>
      (.error (.wrapped (Bytes.text "failed to update sync window") (.wrapped (Bytes.text "failed to sign sync event") (.plain error))),s)
    | none =>
      let published := ⟨mode,unix w.From,unix w.To,s.source,s.accepted⟩ :: s.published
      let progress := replaced s.progress (syncEvent c.sourceRelayURL u.createdAt w) u.lowestId
      match u.reply with
      | .stored => (.ok (),{ s with published, progress })
      | .lost error =>
        (.error (.wrapped (Bytes.text "failed to update sync window") (.wrapped (Bytes.text "failed to publish sync event") (.plain error))),
          { s with published, progress })
      | .refused error =>
        (.error (.wrapped (Bytes.text "failed to update sync window") (.wrapped (Bytes.text "failed to publish sync event") (.plain error))),
          { s with published })

-- What syncWindow meets: the answer of QueryEvents, the turns of its loop, the update, and whether a forced reconnect succeeds.
structure Attempt where
  queried : Except Str (List (Option Event))
  turns : Nat → Turn
  update : Update
  reconnects : Bool

def Config.filter (c : Config) (w : Window) : Filter := ⟨unix w.From,unix w.To,c.maxBatch⟩

-- A channel is only closed after a complete answer.
def Attempt.answered (a : Attempt) (f : Filter) (source : Finset Event) : Bool :=
  match a.queried with
  | .ok channel => decide (f.answeredBy source (channel.filterMap id))
  | .error _ => true

inductive Outcome where
  | synced
  | failed (e : Failure)
  | crashed
deriving DecidableEq

def syncWindow (c : Config) (a : Attempt) (w : Window) (s : Deployment) : Outcome × Deployment :=
  match a.queried with
  | .error error => (.failed (.wrapped (Bytes.text "failed to query events from relay") (.plain error)),s)
  | .ok channel =>
    match forwardAll a.turns 0 channel 0 s.accepted with
    | (.cancelled,_,accepted) => (.failed (.plain (Bytes.text "context canceled")),{ s with accepted })
    | (.crashed,_,accepted) => (.crashed,{ s with accepted })
    | (.finished,_,accepted) =>
      match updateWindow c a.update .windowed w { s with accepted } with
      | (.ok (),next) => (.synced,next)
      | (.error e,next) =>
        (if a.reconnects then .failed (.wrapped (Bytes.text "failed to update sync window") e) else .crashed,next)

def REALTIME_TOLERANCE : Int := seconds 5

def EVENTS_PER_WINDOW_UPDATE : Nat := 250

def shouldSwitchToRealtime (now : Int) (w : Window) : Bool :=
  decide (w.To > now - REALTIME_TOLERANCE) || decide (w.To > now) || decide (w.To = now)

-- The window lies back beyond the configured lag.
def overdue (c : Config) (now : Int) (w : Window) : Bool := decide (now > w.To + seconds c.maxCatchupLagSeconds)

-- Start and the fallback from realtime both take their window from the window manager.
def resume (tp : TimePackage) (c : Config) (queryError : Option Str) (s : Deployment) : Deployment :=
  match getOrCreate tp c s.now queryError s.progress with
  | .ok w => { s with process := .windowed w }
  | .error _ => { s with process := .down }

inductive Action where
  | source (content : Finset Event)
  | accept (e : Event)
  | clock (now : Int)
  | start (queryError : Option Str)
  | stop
  | turn (a : Attempt)
  | subscribe (failed : Bool) (queryError : Option Str)
  | close
  | receive (event : Option Event) (reply : Reply) (u : Update)

def windowedTurn (c : Config) (a : Attempt) (w : Window) (s : Deployment) : Option Deployment :=
  if shouldSwitchToRealtime s.now w then some { s with process := .subscribing w 0 }
  else if overdue c s.now w then
    if a.answered (c.filter w) s.source then
      match syncWindow c a w s with
      | (.synced,next) => some { next with process := .windowed (advance c w) }
      | (.failed _,next) => some next
      | (.crashed,next) => some { next with process := .down }
    else none
  else some s

def updateRealtimeWindow (c : Config) (u : Update) (w : Window) (s : Deployment) : Deployment :=
  let updated : Window := ⟨s.now - c.windowDuration,s.now⟩
  match updateWindow c u .realtime updated s with
  | (.ok (),next) => { next with process := .realtime updated 0 }
  | (.error _,next) => { next with process := .realtime w 0 }

def receive (c : Config) (event : Option Event) (reply : Reply) (u : Update) (w : Window) (eventsSinceUpdate : Nat) (s : Deployment) :
    Deployment :=
  let (sent,accepted) := forwardEvent reply event s.accepted
  if sent then
    if EVENTS_PER_WINDOW_UPDATE ≤ eventsSinceUpdate + 1 then updateRealtimeWindow c u w { s with accepted }
    else { s with accepted, process := .realtime w (eventsSinceUpdate + 1) }
  else { s with accepted }

-- source, accept and clock are the world's; a crash and a cancelled context both stop the process.
def step (tp : TimePackage) (c : Config) (s : Deployment) : Action → Option Deployment
  | .source content => some { s with source := content }
  | .accept e => some { s with accepted := insert e s.accepted }
  | .clock now => some { s with now }
  | .start queryError => if s.process = .down then some (resume tp c queryError s) else none
  | .stop => some { s with process := .down }
  | .turn a =>
    match s.process with
    | .windowed w => windowedTurn c a w s
    | _ => none
  | .subscribe failed queryError =>
    match s.process with
    | .subscribing w n => some (if failed then resume tp c queryError s else { s with process := .realtime w n })
    | _ => none
  | .close =>
    match s.process with
    | .realtime w n => some { s with process := .subscribing w n }
    | _ => none
  | .receive event reply u =>
    match s.process with
    | .realtime w n => some (receive c event reply u w n s)
    | _ => none

section Inversion
variable {tp : TimePackage} {c : Config} {s next : Deployment}

-- What one step can do.
inductive Step (tp : TimePackage) (c : Config) (s : Deployment) : Action → Deployment → Prop where
  | source (content : Finset Event) : Step tp c s (.source content) { s with source := content }
  | accept (e : Event) : Step tp c s (.accept e) { s with accepted := insert e s.accepted }
  | clock (now : Int) : Step tp c s (.clock now) { s with now }
  | start (queryError : Option Str) : s.process = .down → Step tp c s (.start queryError) (resume tp c queryError s)
  | stop : Step tp c s .stop { s with process := .down }
  | turn {a : Attempt} {w : Window} {next : Deployment} : s.process = .windowed w → windowedTurn c a w s = some next →
      Step tp c s (.turn a) next
  | fallback {w : Window} {n : Nat} (queryError : Option Str) : s.process = .subscribing w n →
      Step tp c s (.subscribe true queryError) (resume tp c queryError s)
  | subscribe {w : Window} {n : Nat} (queryError : Option Str) : s.process = .subscribing w n →
      Step tp c s (.subscribe false queryError) { s with process := .realtime w n }
  | close {w : Window} {n : Nat} : s.process = .realtime w n → Step tp c s .close { s with process := .subscribing w n }
  | receive {w : Window} {n : Nat} (event : Option Event) (reply : Reply) (u : Update) : s.process = .realtime w n →
      Step tp c s (.receive event reply u) (receive c event reply u w n s)

theorem step_cases {action : Action} (moved : step tp c s action = some next) : Step tp c s action next := by
  unfold step at moved
  cases action with
  | source content =>
    cases moved
    exact .source content
  | accept e =>
    cases moved
    exact .accept e
  | clock now =>
    cases moved
    exact .clock now
  | stop =>
    cases moved
    exact .stop
  | start queryError =>
    dsimp only at moved
    split at moved
    · cases moved
      exact .start queryError ‹_›
    · cases moved
  | turn a =>
    cases process : s.process with
    | windowed w =>
      rw [process] at moved
      exact .turn process moved
    | _ =>
      rw [process] at moved
      cases moved
  | subscribe failed queryError =>
    cases process : s.process with
    | subscribing w n =>
      rw [process] at moved
      cases moved
      cases failed with
      | true => exact .fallback queryError process
      | false => exact .subscribe queryError process
    | _ =>
      rw [process] at moved
      cases moved
  | close =>
    cases process : s.process with
    | realtime w n =>
      rw [process] at moved
      cases moved
      exact .close process
    | _ =>
      rw [process] at moved
      cases moved
  | receive event reply u =>
    cases process : s.process with
    | realtime w n =>
      rw [process] at moved
      cases moved
      exact .receive event reply u process
    | _ =>
      rw [process] at moved
      cases moved

end Inversion

end DeepFry.EventForwarder
