import DeepFry.Lib.JsonText
import DeepFry.Lib.Machine
import DeepFry.Whitelist.Pubkey

namespace DeepFry.Whitelist.RouterPlugin

structure NostrEvent where
  id : Str
  pubkey : Str
  kind : Int
  content : Str
deriving DecidableEq

-- encoding/json: the raw event of an input message, and an event.
structure Decoder where
  message : Str → Option Str
  event : Str → Option NostrEvent

inductive Action where
  | accept
  | reject
deriving DecidableEq

def Action.text : Action → Str
  | .accept => Bytes.text "accept"
  | .reject => Bytes.text "reject"

structure OutputMsg where
  id : Str
  action : Action
  msg : Str
deriving DecidableEq

def RejectReasonNotInWoT : Str := Bytes.text "rejected: not in web of trust"

def RejectReasonMalformed : Str := Bytes.text "rejected: malformed event"

def RejectReasonCheckFailed : Str := Bytes.text "rejected: whitelist check unavailable"

def accept (eventId : Str) : OutputMsg := ⟨eventId,.accept,[]⟩

def reject (eventId reason : Str) : OutputMsg := ⟨eventId,.reject,reason⟩

def rejectMalformed : OutputMsg := ⟨[],.reject,RejectReasonMalformed⟩

def newline : UInt8 := 10

def json (msg : OutputMsg) : Bytes :=
  [123] ++ JsonText.quoted (Bytes.text "id") ++ [58] ++ JsonText.quoted msg.id ++ [44] ++
    JsonText.quoted (Bytes.text "action") ++ [58] ++ JsonText.quoted msg.action.text ++ [44] ++
    JsonText.quoted (Bytes.text "msg") ++ [58] ++ JsonText.quoted msg.msg ++ [125]

def serializeOutputMsg (msg : OutputMsg) : Bytes := json msg ++ [newline]

def parseFullEvent (dec : Decoder) (raw : Str) : Option NostrEvent :=
  if raw.isEmpty then none
  else
    match dec.event raw with
    | none => none
    | some evt => if evt.id = [] ∨ evt.pubkey = [] then none else some evt

-- The event of a line, where both messages decode.
def event (dec : Decoder) (line : Str) : Option NostrEvent := (dec.message line).bind (parseFullEvent dec)

def MaxContentBytes : Nat := 256 * 1024

-- heuristics.Filter
def keeps (evt : NostrEvent) : Bool :=
  !decide (evt.id = [] ∨ evt.pubkey = []) && decide (evt.kind ∈ [0,1,3]) && decide (evt.content.length ≤ MaxContentBytes)

def initialReconnectDelay : Int := 500000000

def maxReconnectDelay : Int := 30 * 1000000000

def nextBackoff (d : Int) : Int := if d * 2 > maxReconnectDelay then maxReconnectDelay else d * 2

-- Where runDrain stands.
inductive Drain where
  | top
  | sleeping
  | receiving
  | publishing (evt : NostrEvent)
  | counting (sent : Bool)
  | stopped
deriving DecidableEq

-- relay: connected and still up. taken: the events that publishOne was called for, with its outcome, the first one first;
-- attempts: the failed connects since the last one that succeeded. Nothing reads these two.
structure Publisher where
  queue : List NostrEvent
  bufferSize : Nat
  enqueued : Nat
  dropped : Nat
  published : Nat
  publishErrors : Nat
  reconnectCount : Nat
  relay : Bool
  delay : Int
  drain : Drain
  taken : List (NostrEvent × Bool)
  attempts : Nat

def newPublisher (bufferSize : Int) : Publisher where
  queue := []
  bufferSize := if bufferSize ≤ 0 then 10000 else bufferSize.toNat
  enqueued := 0
  dropped := 0
  published := 0
  publishErrors := 0
  reconnectCount := 0
  relay := false
  delay := initialReconnectDelay
  drain := .top
  taken := []
  attempts := 0

-- Enqueue's select, and whether the event went into the channel. Never blocks: a full queue drops the event.
def Publisher.enqueue (evt : NostrEvent) (p : Publisher) : Bool × Publisher :=
  if p.queue.length < p.bufferSize then (true,{ p with queue := p.queue ++ [evt] }) else (false,p)

-- The Add that follows it; the drain loop may run in between.
def Publisher.add (sent : Bool) (p : Publisher) : Publisher :=
  if sent then { p with enqueued := p.enqueued + 1 } else { p with dropped := p.dropped + 1 }

-- connect, and whether it succeeds; publish, and whether it succeeds, and the counter of that. fall: the connection breaks.
inductive DrainStep where
  | connect (up : Bool)
  | wake
  | fall
  | skip
  | receive
  | publish (sent : Bool)
  | count
  | stop
deriving DecidableEq

def Publisher.advance (p : Publisher) : DrainStep → Option Publisher
  | .connect up =>
    if p.drain = .top ∧ p.relay = false then
      if up then
        some { p with relay := true, reconnectCount := p.reconnectCount + 1, delay := initialReconnectDelay, drain := .receiving, attempts := 0 }
      else some { p with drain := .sleeping, attempts := p.attempts + 1 }
    else none
  | .wake => if p.drain = .sleeping then some { p with delay := nextBackoff p.delay, drain := .top } else none
  | .fall => some { p with relay := false }
  | .skip => if p.drain = .top ∧ p.relay = true then some { p with drain := .receiving } else none
  | .receive =>
    match p.drain,p.queue with
    | .receiving,evt :: rest => some { p with queue := rest, drain := .publishing evt }
    | _,_ => none
  | .publish sent =>
    match p.drain with
    | .publishing evt => some { p with drain := .counting sent, taken := p.taken ++ [(evt,sent)] }
    | _ => none
  | .count =>
    match p.drain with
    | .counting true => some { p with published := p.published + 1, drain := .top }
    | .counting false => some { p with publishErrors := p.publishErrors + 1, relay := false, drain := .top }
    | _ => none
  | .stop =>
    match p.drain with
    | .publishing _ | .counting _ => none
    | _ => some { p with drain := .stopped }

-- The checker's answer: none where the check failed.
abbrev Check := Option Bool

-- Handle for a decoded message: the reply, and the event that Enqueue is called with before it.
def handle (dec : Decoder) (quarantineEnabled : Bool) (check : Check) (raw : Str) : OutputMsg × Option NostrEvent :=
  match parseFullEvent dec raw with
  | none => (rejectMalformed,none)
  | some evt =>
    match check with
    | none => (reject evt.id RejectReasonCheckFailed,none)
    | some true => (accept evt.id,none)
    | some false => (reject evt.id RejectReasonNotInWoT,if quarantineEnabled && keeps evt then some evt else none)

-- Neither Handle nor the serialization fails.
def processLine (dec : Decoder) (quarantineEnabled : Bool) (check : Check) (line : Str) : OutputMsg × Option NostrEvent :=
  match dec.message line with
  | none => (rejectMalformed,none)
  | some raw => handle dec quarantineEnabled check raw

-- bufio.ScanLines
def dropCR (line : Str) : Str := if line.getLast? = some 13 then line.dropLast else line

def maxBuf : Nat := 10 * 1024 * 1024

-- The tokens of the scanner, and whether a line is too long for its buffer; no token comes after that one.
def scan (limit : Nat) : List Str → List Str × Bool
  | [] => ([],false)
  | [last] => if limit ≤ last.length then ([],true) else if last.isEmpty then ([],false) else ([dropCR last],false)
  | part :: rest =>
    if limit ≤ part.length then ([],true)
    else (dropCR part :: (scan limit rest).1,(scan limit rest).2)

def tokens (limit : Nat) (stdin : Bytes) : List Str := (scan limit (stdin.splitOn newline)).1

-- One line that was handled: the checker's answer, the reply, and the room the queue had.
structure Handled where
  line : Str
  check : Check
  msg : OutputMsg
  room : Nat
deriving DecidableEq

-- Where the event loop stands: between lines, after Enqueue's select, or before the write of a reply.
inductive Loop where
  | scanning
  | counting (sent : Bool) (msg : OutputMsg)
  | writing (msg : OutputMsg)
deriving DecidableEq

-- lines: those the scanner still has; broken: a write to stdout failed.
structure Plugin where
  lines : List Str
  stdout : Bytes
  broken : Bool
  loop : Loop
  publisher : Publisher
  handled : List Handled

-- A write that fails passes on only the first bytes, and ends the loop.
inductive PluginStep where
  | line (check : Check)
  | count
  | write (failed : Option Nat)
  | drain (s : DrainStep)

def step (dec : Decoder) (quarantineEnabled : Bool) (s : Plugin) : PluginStep → Option Plugin
  | .line check =>
    if s.broken then none
    else
      match s.loop,s.lines with
      | .scanning,line :: rest =>
        let (msg,offered) := processLine dec quarantineEnabled check line
        let handled := s.handled ++ [⟨line,check,msg,s.publisher.bufferSize - s.publisher.queue.length⟩]
        match offered with
        | none => some { s with lines := rest, loop := .writing msg, handled }
        | some evt =>
          let (sent,publisher) := s.publisher.enqueue evt
          some { s with lines := rest, loop := .counting sent msg, publisher, handled }
      | _,_ => none
  | .count =>
    match s.loop with
    | .counting sent msg => some { s with loop := .writing msg, publisher := s.publisher.add sent }
    | _ => none
  | .write failed =>
    match s.loop with
    | .writing msg =>
      let response := serializeOutputMsg msg
      some { s with
        stdout := s.stdout ++ (match failed with | none => response | some n => response.take n)
        broken := failed.isSome
        loop := .scanning }
    | _ => none
  | .drain d => (s.publisher.advance d).map fun publisher => { s with publisher }

def boot (limit : Nat) (stdin : Bytes) (bufferSize : Int) : Plugin :=
  ⟨tokens limit stdin,[],false,.scanning,newPublisher bufferSize,[]⟩

-- What the reply to an event is, and which event is offered to the publisher.
def answer (evt : NostrEvent) : Check → OutputMsg
  | none => reject evt.id RejectReasonCheckFailed
  | some true => accept evt.id
  | some false => reject evt.id RejectReasonNotInWoT

def Handled.reply (dec : Decoder) (h : Handled) : OutputMsg :=
  match event dec h.line with
  | none => rejectMalformed
  | some evt => answer evt h.check

def offer (dec : Decoder) (quarantineEnabled : Bool) (check : Check) (line : Str) : Option NostrEvent :=
  (event dec line).filter fun evt => quarantineEnabled && decide (check = some false) && keeps evt

def Handled.offered (dec : Decoder) (quarantineEnabled : Bool) (h : Handled) : Option NostrEvent := offer dec quarantineEnabled h.check h.line

-- Offered while the queue had room.
def Handled.queued (dec : Decoder) (quarantineEnabled : Bool) (h : Handled) : Option NostrEvent :=
  (h.offered dec quarantineEnabled).filter fun _ => decide (0 < h.room)

def Handled.lost (dec : Decoder) (quarantineEnabled : Bool) (h : Handled) : Bool :=
  (h.offered dec quarantineEnabled).isSome && decide (h.room = 0)

def Publisher.inFlight (p : Publisher) : List NostrEvent :=
  match p.drain with
  | .publishing evt => [evt]
  | _ => []

-- One where that outcome of a publish is not counted yet.
def Publisher.owes (p : Publisher) (sent : Bool) : Nat := if p.drain = .counting sent then 1 else 0

-- One where that outcome of an Enqueue is not counted yet.
def Loop.owes (sent : Bool) : Loop → Nat
  | .counting other _ => if other = sent then 1 else 0
  | _ => 0

-- The reply that is not written yet.
def Loop.pending : Loop → Bytes
  | .scanning => []
  | .counting _ msg | .writing msg => serializeOutputMsg msg

-- The lines whose reply was written.
def Plugin.answered (s : Plugin) : List Handled := if s.loop = .scanning then s.handled else s.handled.dropLast

section Framing
variable {dec : Decoder} {quarantineEnabled : Bool}

theorem json_plain (msg : OutputMsg) : ∀ x ∈ json msg, 32 ≤ x := by
  intro x member
  simp only [json,List.mem_append,List.mem_singleton] at member
  obtain (((((((((((rfl | key) | rfl) | value) | rfl) | key) | rfl) | value) | rfl) | key) | rfl) | value) | rfl := member
  all_goals first | decide | exact JsonText.quoted_plain _ x ‹_›

theorem replies_lines (replies : List OutputMsg) :
    (replies.map serializeOutputMsg).flatten = [newline].intercalate (replies.map json ++ [[]]) := by
  induction replies with
  | nil => rfl
  | cons msg rest ih =>
    obtain ⟨first,later,split⟩ : ∃ first later, rest.map json ++ [[]] = first :: later := by
      cases rest with
      | nil => exact ⟨_,_,rfl⟩
      | cons => exact ⟨_,_,rfl⟩
    rw [List.map_cons,List.flatten_cons,ih,List.map_cons,List.cons_append,split,List.intercalate_cons_cons,serializeOutputMsg]

-- One reply is one line.
theorem replies_split (replies : List OutputMsg) :
    ((replies.map serializeOutputMsg).flatten).splitOn newline = replies.map json ++ [[]] := by
  rw [replies_lines,List.splitOn_intercalate]
  · intro part member inside
    rcases List.mem_append.mp member with reply | last
    · obtain ⟨msg,_,rfl⟩ := List.mem_map.mp reply
      exact absurd (json_plain msg newline inside) (by decide)
    · rw [List.mem_singleton.mp last] at inside
      cases inside
  · simp

theorem processLine_parts (check : Check) (line : Str) (room : Nat) :
    processLine dec quarantineEnabled check line =
      (Handled.reply dec ⟨line,check,rejectMalformed,room⟩,offer dec quarantineEnabled check line) := by
  unfold processLine Handled.reply offer event
  cases dec.message line with
  | none => rfl
  | some raw =>
    simp only [Option.bind_some,handle]
    cases parseFullEvent dec raw with
    | none => rfl
    | some evt =>
      cases check with
      | none => simp [answer,Option.filter]
      | some whitelisted =>
        cases whitelisted with
        | true => simp [answer,Option.filter]
        | false => simp [answer,Option.filter]

end Framing

-- The delay after k failed connects in a row.
def paced (k : Nat) : Int := min (initialReconnectDelay * 2 ^ k) maxReconnectDelay

-- A publisher against the events it was offered while it had room.
structure Publisher.Accounts (p : Publisher) (accepted : List NostrEvent) : Prop where
  order : p.taken.map Prod.fst ++ p.inFlight ++ p.queue = accepted
  published : p.published + p.owes true = p.taken.countP Prod.snd
  publishErrors : p.publishErrors + p.owes false = p.taken.countP fun entry => !entry.2
  room : p.queue.length ≤ p.bufferSize
  asleep : p.drain = .sleeping → 0 < p.attempts ∧ p.delay = paced (p.attempts - 1)
  awake : p.drain ≠ .sleeping → p.drain ≠ .stopped → p.delay = paced p.attempts

section Publish
variable {p next : Publisher} {accepted : List NostrEvent}

theorem nextBackoff_paced (k : Nat) : nextBackoff (paced k) = paced (k + 1) := by
  have twice : initialReconnectDelay * 2 ^ (k + 1) = initialReconnectDelay * 2 ^ k * 2 := by ring
  have capped : ∀ d limit : Int, 0 < limit → (if min d limit * 2 > limit then limit else min d limit * 2) = min (d * 2) limit := by
    intro d limit positive
    omega
  unfold paced
  rw [twice,nextBackoff,capped _ _ (by decide)]

theorem initial_paced : initialReconnectDelay = paced 0 := by decide

-- Where no event is in flight and none is to be counted.
def Drain.calm : Drain → Bool
  | .publishing _ | .counting _ => false
  | _ => true

theorem inFlight_calm (calm : p.drain.calm = true) : p.inFlight = [] := by
  unfold Publisher.inFlight
  split
  · next evt flying =>
    rw [flying] at calm
    cases calm
  · rfl

theorem owes_calm (calm : p.drain.calm = true) (sent : Bool) : p.owes sent = 0 := by
  unfold Publisher.owes
  split
  · next counting =>
    rw [counting] at calm
    cases calm
  · rfl

theorem Publisher.Accounts.enqueue (accounts : p.Accounts accepted) (evt : NostrEvent) :
    (p.enqueue evt).2.Accounts (accepted ++ if 0 < p.bufferSize - p.queue.length then [evt] else []) ∧
      (p.enqueue evt).1 = decide (0 < p.bufferSize - p.queue.length) ∧ (p.enqueue evt).2.enqueued = p.enqueued ∧
      (p.enqueue evt).2.dropped = p.dropped ∧ (p.enqueue evt).2.bufferSize = p.bufferSize := by
  unfold Publisher.enqueue
  by_cases free : p.queue.length < p.bufferSize
  · have some_room : 0 < p.bufferSize - p.queue.length := by omega
    rw [if_pos free,if_pos some_room,decide_eq_true some_room]
    refine ⟨⟨?_,accounts.published,accounts.publishErrors,?_,accounts.asleep,accounts.awake⟩,rfl,rfl,rfl,rfl⟩
    · have order := accounts.order
      simp only [← order,List.append_assoc]
      rfl
    · rw [List.length_append]
      exact free
  · have full : ¬ 0 < p.bufferSize - p.queue.length := by omega
    rw [if_neg free,if_neg full,decide_eq_false full,List.append_nil]
    exact ⟨accounts,rfl,rfl,rfl,rfl⟩

theorem Publisher.Accounts.add (accounts : p.Accounts accepted) (sent : Bool) : (p.add sent).Accounts accepted := by
  unfold Publisher.add
  split <;> exact ⟨accounts.order,accounts.published,accounts.publishErrors,accounts.room,accounts.asleep,accounts.awake⟩

-- From one calm place to another with the same books.
theorem Publisher.Accounts.settle (accounts : p.Accounts accepted) (before : p.drain.calm = true) (after : next.drain.calm = true)
    (taken : next.taken = p.taken) (queue : next.queue = p.queue) (published : next.published = p.published)
    (publishErrors : next.publishErrors = p.publishErrors) (size : next.bufferSize = p.bufferSize)
    (asleep : next.drain = .sleeping → 0 < next.attempts ∧ next.delay = paced (next.attempts - 1))
    (awake : next.drain ≠ .sleeping → next.drain ≠ .stopped → next.delay = paced next.attempts) : next.Accounts accepted := by
  have order := accounts.order
  have counted := accounts.published
  have failures := accounts.publishErrors
  have room := accounts.room
  rw [inFlight_calm before] at order
  rw [owes_calm before] at counted failures
  refine ⟨?_,?_,?_,?_,asleep,awake⟩
  · rw [inFlight_calm after,taken,queue]
    exact order
  · rw [owes_calm after,taken,published]
    exact counted
  · rw [owes_calm after,taken,publishErrors]
    exact failures
  · rw [queue,size]
    exact room

-- The next event leaves the queue and is in flight.
theorem Publisher.Accounts.receive {evt : NostrEvent} {rest : List NostrEvent} (accounts : p.Accounts accepted)
    (receiving : p.drain = .receiving) (filled : p.queue = evt :: rest) :
    { p with queue := rest, drain := .publishing evt }.Accounts accepted := by
  have awake := accounts.awake (by rw [receiving]; nofun) (by rw [receiving]; nofun)
  have order := accounts.order
  have counted := accounts.published
  have failures := accounts.publishErrors
  have room := accounts.room
  rw [inFlight_calm (by rw [receiving]; rfl),filled,List.append_nil] at order
  rw [owes_calm (by rw [receiving]; rfl)] at counted failures
  rw [filled] at room
  refine ⟨?_,counted,failures,Nat.le_of_succ_le room,nofun,fun _ _ => awake⟩
  rw [← order]
  exact List.append_assoc _ _ _

-- It is published or not, and that is still to be counted.
theorem Publisher.Accounts.publish {evt : NostrEvent} (accounts : p.Accounts accepted) (flying : p.drain = .publishing evt) (sent : Bool) :
    { p with drain := .counting sent, taken := p.taken ++ [(evt,sent)] }.Accounts accepted := by
  have awake := accounts.awake (by rw [flying]; nofun) (by rw [flying]; nofun)
  have order := accounts.order
  have counted := accounts.published
  have failures := accounts.publishErrors
  have free : ∀ outcome, p.owes outcome = 0 := fun outcome => if_neg (by rw [flying]; nofun)
  rw [Publisher.inFlight,flying] at order
  rw [free] at counted failures
  refine ⟨?_,?_,?_,accounts.room,nofun,fun _ _ => awake⟩
  · simpa [Publisher.inFlight] using order
  · cases sent <;> simp [Publisher.owes,← counted]
  · cases sent <;> simp [Publisher.owes,← failures]

-- The count of that outcome is paid.
theorem Publisher.Accounts.count {sent : Bool} (accounts : p.Accounts accepted) (counting : p.drain = .counting sent)
    (moved : p.advance .count = some next) : next.Accounts accepted := by
  have awake := accounts.awake (by rw [counting]; nofun) (by rw [counting]; nofun)
  have order := accounts.order
  have counted := accounts.published
  have failures := accounts.publishErrors
  rw [Publisher.inFlight,counting] at order
  rw [Publisher.owes,counting] at counted failures
  simp only [Publisher.advance,counting] at moved
  cases sent with
  | true =>
    cases moved
    exact ⟨order,counted,failures,accounts.room,nofun,fun _ _ => awake⟩
  | false =>
    cases moved
    exact ⟨order,counted,failures,accounts.room,nofun,fun _ _ => awake⟩

theorem Publisher.Accounts.advance (accounts : p.Accounts accepted) {d : DrainStep} (moved : p.advance d = some next) :
    next.Accounts accepted := by
  cases d with
  | connect up =>
    obtain ⟨⟨here,_⟩,moved⟩ := Option.ite_none_right_eq_some.mp moved
    have awake := accounts.awake (by rw [here]; nofun) (by rw [here]; nofun)
    cases up with
    | true =>
      cases moved
      exact accounts.settle (by rw [here]; rfl) rfl rfl rfl rfl rfl rfl nofun fun _ _ => initial_paced
    | false =>
      cases moved
      exact accounts.settle (by rw [here]; rfl) rfl rfl rfl rfl rfl rfl (fun _ => ⟨Nat.succ_pos _,awake⟩) fun woken => absurd rfl woken
  | wake =>
    obtain ⟨here,moved⟩ := Option.ite_none_right_eq_some.mp moved
    obtain ⟨some,delay⟩ := accounts.asleep here
    cases moved
    refine accounts.settle (by rw [here]; rfl) rfl rfl rfl rfl rfl rfl nofun fun _ _ => ?_
    dsimp only
    rw [delay,nextBackoff_paced,Nat.sub_add_cancel some]
  | fall =>
    cases moved
    exact ⟨accounts.order,accounts.published,accounts.publishErrors,accounts.room,accounts.asleep,accounts.awake⟩
  | skip =>
    obtain ⟨⟨here,_⟩,moved⟩ := Option.ite_none_right_eq_some.mp moved
    have awake := accounts.awake (by rw [here]; nofun) (by rw [here]; nofun)
    cases moved
    exact accounts.settle (by rw [here]; rfl) rfl rfl rfl rfl rfl rfl nofun fun _ _ => awake
  | receive =>
    simp only [Publisher.advance] at moved
    split at moved
    · next evt rest receiving filled =>
      cases moved
      exact accounts.receive receiving filled
    · cases moved
  | publish sent =>
    simp only [Publisher.advance] at moved
    split at moved
    · next evt flying =>
      cases moved
      exact accounts.publish flying sent
    · cases moved
  | count =>
    cases here : p.drain with
    | counting sent => exact accounts.count here moved
    | _ => simp [Publisher.advance,here] at moved
  | stop =>
    simp only [Publisher.advance] at moved
    split at moved
    · cases moved
    · cases moved
    · next grounded idle =>
      have calm : p.drain.calm = true := by
        cases here : p.drain with
        | publishing evt => exact absurd here (grounded evt)
        | counting sent => exact absurd here (idle sent)
        | _ => rfl
      cases moved
      exact accounts.settle calm rfl rfl rfl rfl rfl rfl nofun fun _ standing => absurd rfl standing

-- What the drain loop leaves to the event loop.
theorem Publisher.advance_frame {d : DrainStep} (moved : p.advance d = some next) :
    next.enqueued = p.enqueued ∧ next.dropped = p.dropped ∧ next.bufferSize = p.bufferSize := by
  cases d with
  | connect up =>
    obtain ⟨_,moved⟩ := Option.ite_none_right_eq_some.mp moved
    cases up <;> cases moved <;> exact ⟨rfl,rfl,rfl⟩
  | wake =>
    obtain ⟨_,moved⟩ := Option.ite_none_right_eq_some.mp moved
    cases moved
    exact ⟨rfl,rfl,rfl⟩
  | fall =>
    cases moved
    exact ⟨rfl,rfl,rfl⟩
  | skip =>
    obtain ⟨_,moved⟩ := Option.ite_none_right_eq_some.mp moved
    cases moved
    exact ⟨rfl,rfl,rfl⟩
  | receive | publish sent | count | stop =>
    simp only [Publisher.advance] at moved
    split at moved <;> cases moved <;> exact ⟨rfl,rfl,rfl⟩

end Publish

section Run
variable {dec : Decoder} {quarantineEnabled : Bool} {limit : Nat} {stdin : Bytes} {bufferSize : Int} {s next : Plugin}

def replies (dec : Decoder) (handled : List Handled) : List OutputMsg := handled.map (Handled.reply dec)

def output (dec : Decoder) (handled : List Handled) : Bytes := ((replies dec handled).map serializeOutputMsg).flatten

theorem output_concat (handled : List Handled) (h : Handled) :
    output dec (handled ++ [h]) = output dec handled ++ serializeOutputMsg (h.reply dec) := by
  simp [output,replies]

-- What every run of the plugin keeps.
structure Sound (dec : Decoder) (quarantineEnabled : Bool) (limit : Nat) (stdin : Bytes) (bufferSize : Int) (s : Plugin) : Prop where
  consumed : s.handled.map Handled.line ++ s.lines = tokens limit stdin
  faithful : ∀ h ∈ s.handled, h.msg = h.reply dec
  written : s.stdout <+: output dec s.handled
  whole : s.broken = false → s.stdout ++ s.loop.pending = output dec s.handled
  up : s.loop ≠ .scanning → s.broken = false
  tip : s.loop ≠ .scanning → ∃ before h, s.handled = before ++ [h] ∧ s.loop.pending = serializeOutputMsg (h.reply dec)
  accounts : s.publisher.Accounts (s.handled.filterMap (Handled.queued dec quarantineEnabled))
  enqueued : s.publisher.enqueued + s.loop.owes true = (s.handled.filterMap (Handled.queued dec quarantineEnabled)).length
  dropped : s.publisher.dropped + s.loop.owes false = s.handled.countP (Handled.lost dec quarantineEnabled)
  size : s.publisher.bufferSize = (newPublisher bufferSize).bufferSize

theorem Sound.boot : Sound dec quarantineEnabled limit stdin bufferSize (boot limit stdin bufferSize) where
  consumed := rfl
  faithful := nofun
  written := List.prefix_rfl
  whole := fun _ => rfl
  up := fun busy => absurd rfl busy
  tip := fun busy => absurd rfl busy
  accounts := ⟨rfl,rfl,rfl,Nat.zero_le _,nofun,fun _ _ => initial_paced⟩
  enqueued := rfl
  dropped := rfl
  size := rfl

-- A line that is handled, with the publisher as Enqueue's select leaves it, or as it was.
theorem Sound.handles {h : Handled} {rest : List Str} {loop : Loop} {publisher : Publisher}
    (sound : Sound dec quarantineEnabled limit stdin bufferSize s) (up : s.broken = false) (idle : s.loop = .scanning)
    (lines : s.lines = h.line :: rest) (reply : h.msg = h.reply dec) (pending : loop.pending = serializeOutputMsg (h.reply dec))
    (accounts : publisher.Accounts ((s.handled ++ [h]).filterMap (Handled.queued dec quarantineEnabled)))
    (enqueued : publisher.enqueued + loop.owes true = s.publisher.enqueued + (if (h.queued dec quarantineEnabled).isSome then 1 else 0))
    (dropped : publisher.dropped + loop.owes false = s.publisher.dropped + (if h.lost dec quarantineEnabled then 1 else 0))
    (size : publisher.bufferSize = s.publisher.bufferSize) :
    Sound dec quarantineEnabled limit stdin bufferSize { s with lines := rest, loop, publisher, handled := s.handled ++ [h] } := by
  have so_far := sound.whole up
  have before := sound.enqueued
  have counted := sound.dropped
  rw [idle] at so_far before counted
  rw [Loop.pending,List.append_nil] at so_far
  refine ⟨?_,?_,?_,?_,fun _ => up,fun _ => ⟨s.handled,h,rfl,pending⟩,accounts,?_,?_,size.trans sound.size⟩
  · rw [← sound.consumed,lines,List.map_append,List.append_assoc]
    rfl
  · intro other member
    rcases List.mem_append.mp member with earlier | last
    · exact sound.faithful other earlier
    · rw [List.mem_singleton.mp last]
      exact reply
  · rw [output_concat]
    exact sound.written.trans (List.prefix_append _ _)
  · intro _
    rw [output_concat,so_far,pending]
  · dsimp only
    rw [enqueued,List.filterMap_append,List.length_append,← before]
    cases queued : h.queued dec quarantineEnabled <;> simp [queued,Loop.owes]
  · dsimp only
    rw [dropped,List.countP_append,← counted]
    simp [List.countP_cons,Loop.owes]

theorem Sound.line {check : Check} (sound : Sound dec quarantineEnabled limit stdin bufferSize s)
    (moved : step dec quarantineEnabled s (.line check) = some next) : Sound dec quarantineEnabled limit stdin bufferSize next := by
  simp only [step] at moved
  split at moved
  · cases moved
  · next standing =>
    have up := Bool.eq_false_iff.mpr standing
    split at moved
    · next line rest idle lines =>
      rw [processLine_parts check line (s.publisher.bufferSize - s.publisher.queue.length)] at moved
      cases offered : offer dec quarantineEnabled check line with
      | none =>
        rw [offered] at moved
        cases moved
        apply sound.handles up idle lines rfl rfl
        · rw [List.filterMap_append]
          simpa [Handled.queued,Handled.offered,offered] using sound.accounts
        · simp [Handled.queued,Handled.offered,offered,Loop.owes]
        · simp [Handled.lost,Handled.offered,offered,Loop.owes]
        · rfl
      | some evt =>
        rw [offered] at moved
        cases moved
        obtain ⟨accounts,sent,enqueued,dropped,size⟩ := sound.accounts.enqueue evt
        apply sound.handles up idle lines rfl rfl
        · rw [List.filterMap_append]
          by_cases room : 0 < s.publisher.bufferSize - s.publisher.queue.length
          · simpa [Handled.queued,Handled.offered,offered,room] using accounts
          · simpa [Handled.queued,Handled.offered,offered,room] using accounts
        · by_cases room : 0 < s.publisher.bufferSize - s.publisher.queue.length
          · simp [Handled.queued,Handled.offered,offered,Loop.owes,sent,enqueued,room]
          · simp [Handled.queued,Handled.offered,offered,Loop.owes,sent,enqueued,room]
        · by_cases room : 0 < s.publisher.bufferSize - s.publisher.queue.length
          · simp [Handled.lost,Handled.offered,offered,Loop.owes,sent,dropped,room,Nat.pos_iff_ne_zero.mp room]
          · simp [Handled.lost,Handled.offered,offered,Loop.owes,sent,dropped,Nat.eq_zero_of_not_pos room]
        · exact size
    · cases moved

-- The Add that an Enqueue owed.
theorem add_owes (sent : Bool) (msg : OutputMsg) (p : Publisher) : (p.add sent).enqueued = p.enqueued + (Loop.counting sent msg).owes true ∧
    (p.add sent).dropped = p.dropped + (Loop.counting sent msg).owes false ∧ (p.add sent).bufferSize = p.bufferSize := by
  cases sent <;> exact ⟨rfl,rfl,rfl⟩

theorem Sound.count (sound : Sound dec quarantineEnabled limit stdin bufferSize s)
    (moved : step dec quarantineEnabled s .count = some next) : Sound dec quarantineEnabled limit stdin bufferSize next := by
  simp only [step] at moved
  split at moved
  · next sent msg counting =>
    have busy : s.loop ≠ .scanning := by rw [counting]; nofun
    obtain ⟨enqueued,dropped,size⟩ := add_owes sent msg s.publisher
    have so_far := sound.whole
    have tip := sound.tip busy
    have before := sound.enqueued
    have counted := sound.dropped
    rw [counting] at so_far tip before counted
    cases moved
    exact ⟨sound.consumed,sound.faithful,sound.written,so_far,fun _ => sound.up busy,fun _ => tip,sound.accounts.add sent,
      enqueued.trans before,dropped.trans counted,size.trans sound.size⟩
  · cases moved

-- The reply, written whole or not.
theorem Sound.write {failed : Option Nat} (sound : Sound dec quarantineEnabled limit stdin bufferSize s)
    (moved : step dec quarantineEnabled s (.write failed) = some next) : Sound dec quarantineEnabled limit stdin bufferSize next := by
  simp only [step] at moved
  split at moved
  · next msg writing =>
    have busy : s.loop ≠ .scanning := by rw [writing]; nofun
    have so_far := sound.whole (sound.up busy)
    have before := sound.enqueued
    have counted := sound.dropped
    rw [writing] at so_far before counted
    cases moved
    refine ⟨sound.consumed,sound.faithful,?_,?_,fun again => absurd rfl again,fun again => absurd rfl again,sound.accounts,before,counted,sound.size⟩
    · rw [← so_far]
      cases failed with
      | none => exact List.prefix_rfl
      | some n => exact (List.prefix_append_right_inj _).mpr (List.take_prefix _ _)
    · intro standing
      rw [← so_far]
      cases failed with
      | none => exact List.append_nil _
      | some n => cases standing
  · cases moved

theorem Sound.step {action : PluginStep} (sound : Sound dec quarantineEnabled limit stdin bufferSize s)
    (moved : RouterPlugin.step dec quarantineEnabled s action = some next) : Sound dec quarantineEnabled limit stdin bufferSize next := by
  cases action with
  | line check => exact sound.line moved
  | count => exact sound.count moved
  | write failed => exact sound.write moved
  | drain d =>
    obtain ⟨publisher,advanced,rfl⟩ := Option.map_eq_some_iff.mp moved
    obtain ⟨enqueued,dropped,size⟩ := Publisher.advance_frame advanced
    refine ⟨sound.consumed,sound.faithful,sound.written,sound.whole,sound.up,sound.tip,sound.accounts.advance advanced,?_,?_,size.trans sound.size⟩
    · rw [← sound.enqueued,← enqueued]
    · rw [← sound.dropped,← dropped]

theorem sound_reached (path : Machine.Reached (RouterPlugin.step dec quarantineEnabled) (fun _ _ => True) (boot limit stdin bufferSize) s) :
    Sound dec quarantineEnabled limit stdin bufferSize s :=
  path.invariant _ Sound.boot fun sound _ moved => sound.step moved

-- As long as no write failed, stdout holds the replies that were written.
theorem Sound.answered (sound : Sound dec quarantineEnabled limit stdin bufferSize s) (standing : s.broken = false) :
    s.stdout = output dec s.answered := by
  have so_far := sound.whole standing
  unfold Plugin.answered
  split
  · next idle =>
    rw [idle,Loop.pending,List.append_nil] at so_far
    exact so_far
  · next busy =>
    obtain ⟨before,h,handled,pending⟩ := sound.tip busy
    rw [handled,output_concat,pending] at so_far
    rw [handled,List.dropLast_concat]
    exact List.append_cancel_right so_far

theorem answered_handled (s : Plugin) : ∀ h ∈ s.answered, h ∈ s.handled := by
  unfold Plugin.answered
  split
  · exact fun _ member => member
  · exact fun _ member => List.mem_of_mem_dropLast member

theorem reply_accept (h : Handled) : (h.reply dec).action = .accept ↔ h.check = some true ∧ (event dec h.line).isSome := by
  unfold Handled.reply
  cases event dec h.line with
  | none => simp [rejectMalformed]
  | some evt =>
    cases h.check with
    | none => simp [answer,reject]
    | some whitelisted => cases whitelisted <;> simp [answer,reject,accept]

-- Every line scanned has its reply, in order and on a line of its own, and every event offered to the quarantine is
-- published, failed, waiting, or counted as dropped.
theorem router_accounts
    (path : Machine.Reached (RouterPlugin.step dec quarantineEnabled) (fun _ _ => True) (boot limit stdin bufferSize) s) :
    (s.handled.map Handled.line ++ s.lines = tokens limit stdin ∧
      (∀ h ∈ s.handled, h.msg = h.reply dec ∧ (h.msg.action = .accept ↔ h.check = some true ∧ (event dec h.line).isSome)) ∧
      s.stdout <+: ((s.handled.map Handled.msg).map serializeOutputMsg).flatten ∧
      (s.broken = false → s.stdout.splitOn newline = (s.answered.map Handled.msg).map json ++ [[]])) ∧
    (s.publisher.taken.map Prod.fst ++ s.publisher.inFlight ++ s.publisher.queue = s.handled.filterMap (Handled.queued dec quarantineEnabled) ∧
      s.publisher.enqueued + s.loop.owes true = (s.handled.filterMap (Handled.queued dec quarantineEnabled)).length ∧
      s.publisher.dropped + s.loop.owes false = s.handled.countP (Handled.lost dec quarantineEnabled) ∧
      s.publisher.published + s.publisher.owes true = s.publisher.taken.countP Prod.snd ∧
      (s.publisher.publishErrors + s.publisher.owes false = s.publisher.taken.countP fun entry => !entry.2) ∧
      s.publisher.queue.length ≤ (newPublisher bufferSize).bufferSize ∧
      (s.publisher.drain = .sleeping → 0 < s.publisher.attempts ∧
        s.publisher.delay = min (initialReconnectDelay * 2 ^ (s.publisher.attempts - 1)) maxReconnectDelay)) := by
  have sound := sound_reached path
  have same : ∀ handled : List Handled, (∀ h ∈ handled, h ∈ s.handled) → replies dec handled = handled.map Handled.msg :=
    fun handled known => List.map_congr_left fun h member => (sound.faithful h (known h member)).symm
  obtain ⟨order,published,publishErrors,room,asleep,-⟩ := sound.accounts
  refine ⟨⟨sound.consumed,?_,?_,?_⟩,order,sound.enqueued,sound.dropped,published,publishErrors,?_,asleep⟩
  · intro h member
    have msg := sound.faithful h member
    exact ⟨msg,by rw [msg,reply_accept]⟩
  · rw [← same s.handled fun _ => id]
    exact sound.written
  · intro standing
    rw [sound.answered standing,output,same s.answered (answered_handled s),replies_split]
  · exact sound.size ▸ room

-- The line of an event is its id and its pubkey.
def sampleDecoder : Decoder := ⟨some,fun raw => if raw = Bytes.text "x" then none else some ⟨raw,raw,1,[]⟩⟩

-- Of three strangers one is published before its Enqueue is counted, one waits and one finds the queue full; the reply to the member is cut.
def sampleRun : List PluginStep :=
  [.drain (.connect false),.line (some false),.drain .wake,.drain (.connect true),.drain .receive,.drain (.publish true),.drain .count,.count,
    .write none,.line (some false),.count,.write none,.line none,.write none,.line (some false),.count,.write none,.line (some true),
    .write (some 7)]

theorem router_accounts_sample : ∃ s, Machine.Reached (step sampleDecoder true) (fun _ _ => True) (boot 8 (Bytes.text "a\nb\nx\nc\nd\ne") 1) s ∧
    s.publisher.dropped = 1 ∧ s.publisher.enqueued = 2 ∧ s.handled.map Handled.line ++ s.lines = tokens 8 (Bytes.text "a\nb\nx\nc\nd\ne") := by
  obtain ⟨s,path,found⟩ := Machine.replay_final (step sampleDecoder true) (fun _ _ => True) (boot 8 (Bytes.text "a\nb\nx\nc\nd\ne") 1) sampleRun
    (fun s : Plugin => decide (s.publisher.dropped = 1 ∧ s.publisher.enqueued = 2)) (by decide +kernel) (by decide +kernel)
  have counted := of_decide_eq_true found
  exact ⟨s,path,counted.1,counted.2,(router_accounts path).1.1⟩

end Run

end DeepFry.Whitelist.RouterPlugin
