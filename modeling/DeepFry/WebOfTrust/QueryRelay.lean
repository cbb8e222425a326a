import DeepFry.Lib.Decimal
import DeepFry.WebOfTrust.Dispatch
import DeepFry.Whitelist.Pubkey

namespace DeepFry.WebOfTrust.QueryRelay

-- atomic.Int32: what a store leaves of a number.
def int32 (n : Int) : Int := n.bmod (2^32)

structure RelayState where
  url : Str
  filterCap : Int
  successStreak : Int
  probing : Bool
deriving DecidableEq

structure Crawler where
  filterBatchSize : Int
  unicode : Whitelist.Unicode

-- One pass of the chunk loop, from the choice of its chunk on.
structure Chunk where
  authors : List Str
  rest : List Str
  cap : Int
  batchCap : Int
  isProbing : Bool
deriving DecidableEq

-- Between two marks lies one load, one store or one wait.
inductive Pc where
  | ready
  | top (authors : List Str)
  | sized (authors : List Str) (batchCap : Int)
  | marking (authors : List Str) (batchCap probe : Int)
  | subscribing (chunk : Chunk)
  | draining (chunk : Chunk)
  | drained (chunk : Chunk)
  | raising (chunk : Chunk)
  | raised (chunk : Chunk)
  | rejected (chunk : Chunk)
  | halving (chunk : Chunk) (old newVal : Int)
  | halved (chunk : Chunk) (old newVal : Int)
  | clearing (chunk : Chunk) (old newVal : Int)
  | returning (err : Option QueryError)
  | returned (err : Option QueryError)
deriving DecidableEq

inductive Handler where
  | idle
  | loading
  | swapping (old newVal : Int)
  | resetting
  | unmarking
deriving DecidableEq

-- A chunk that was sent, with the number of authors it was cut from, the cap it was cut by, the cap in force when its REQ was sent
-- and, for a probe, the size that was tried instead.
structure Asked where
  authors : List Str
  left : Nat
  cap : Int
  sentAt : Int
  probe : Option Int
  drained : Bool
deriving DecidableEq

-- noticed: the cap that a notice left while the probe was in flight. refused: a rejection was received before the chunk's EOSE.
structure Query where
  rs : RelayState
  pc : Pc
  handler : Nat → Handler
  call : List Str
  asked : List Asked
  rejectedProbe : Bool
  noticed : Option Int
  refused : Bool

-- The safety guard on a cap.
def inForce (filterCap : Int) : Int := if filterCap ≤ 0 then 10 else filterCap

def nextAuthorChunk (authors : List Str) (cap : Int) : List Str :=
  if (authors.length : Int) > inForce cap then authors.take (inForce cap).toNat else authors

def spaces : List Bytes :=
  [[9],[10],[11],[12],[13],[32],[0xC2,0x85],[0xC2,0xA0],[0xE1,0x9A,0x80],[0xE2,0x80,0x80],[0xE2,0x80,0x81],[0xE2,0x80,0x82],
    [0xE2,0x80,0x83],[0xE2,0x80,0x84],[0xE2,0x80,0x85],[0xE2,0x80,0x86],[0xE2,0x80,0x87],[0xE2,0x80,0x88],[0xE2,0x80,0x89],
    [0xE2,0x80,0x8A],[0xE2,0x80,0xA8],[0xE2,0x80,0xA9],[0xE2,0x80,0xAF],[0xE2,0x81,0x9F],[0xE3,0x80,0x80]]

def trimLeft (spaces : List Bytes) : Nat → Str → Str
  | 0,s => s
  | fuel+1,s => match spaces.find? (·.isPrefixOf s) with
    | some space => trimLeft spaces fuel (s.drop space.length)
    | none => s

-- strings.TrimSpace
def trimSpace (s : Str) : Str :=
  let left := trimLeft spaces s.length s
  (trimLeft (spaces.map List.reverse) left.length left.reverse).reverse

-- strings.Index
def indexOf (s part : Str) : Option Nat := (List.range (s.length + 1)).find? fun i => part.isPrefixOf (s.drop i)

def cleanSubscribeError (msg : Str) : Str :=
  match indexOf msg (Bytes.text "couldn't subscribe to") with
  | some idx => match indexOf (msg.drop idx) (Bytes.text "]: ") with
    | some atIdx => trimSpace (msg.drop (idx + atIdx + 3))
    | none => msg
  | none => msg

def relayText (rs : RelayState) (text : Str) : Str := Bytes.text "relay " ++ rs.url ++ Bytes.text ": " ++ text

def lostConnection (msg : Str) : Bool := contains msg (Bytes.text "not connected") || contains msg (Bytes.text "failed to write")

def floorReached (rs : RelayState) : QueryError := .filterRejectionError (relayText rs (Bytes.text "filter cap floor reached"))

def halvedError (rs : RelayState) (old newVal : Int) : QueryError :=
  .filterRejectionError (relayText rs (Bytes.text "filter rejection at cap " ++ Decimal.formatInt old ++ Bytes.text ", halved to " ++
    Decimal.formatInt newVal))

-- What halving leaves: never less than the floor.
def halve (old minCap : Int) : Int := if old / 2 < minCap then minCap else old / 2

def filterTooLarge (c : Crawler) (notice : Str) : Bool :=
  let lower := Whitelist.toLower c.unicode notice
  contains lower (Bytes.text "filter") && contains lower (Bytes.text "too large")

inductive Action where
  | call (authors : List Str) (connected : Bool)
  | loop
  | subscribed
  | subscribeFailed (msg : Str) (quick : Bool)
  | expired (deadline : Bool)
  | eose
  | dropped (cause : Str)
  | counted
  | notice (k : Nat) (text : Str)
  | handle (k : Nat)

def send (q : Query) (chunk : Chunk) : Query :=
  { q with
    pc := .subscribing chunk
    asked := q.asked ++ [⟨chunk.authors,chunk.authors.length + chunk.rest.length,chunk.cap,inForce q.rs.filterCap,
      if chunk.isProbing then some chunk.batchCap else none,false⟩]
    noticed := none
    refused := false }

def chunkOf (authors : List Str) (cap batchCap : Int) (isProbing : Bool) : Chunk :=
  let chunk := nextAuthorChunk authors batchCap
  ⟨chunk,authors.drop chunk.length,cap,batchCap,isProbing⟩

def drainLast (asked : List Asked) : List Asked := asked.dropLast ++ (asked.getLast?.map fun last => { last with drained := true }).toList

-- The steps that the goroutine takes by itself.
def loopStep (c : Crawler) (q : Query) : Option Query :=
  match q.pc with
  | .top authors =>
    if authors.length > 0 then
      some { q with pc := .sized authors (inForce q.rs.filterCap) }
    else some { q with pc := .returning none }
  | .sized authors batchCap =>
    let probe := if batchCap * 2 > c.filterBatchSize then c.filterBatchSize else batchCap * 2
    if q.rs.successStreak ≥ 10 ∧ probe > batchCap then some { q with pc := .marking authors batchCap probe }
    else some (send q (chunkOf authors batchCap batchCap false))
  | .marking authors batchCap probe => some (send { q with rs := { q.rs with probing := true } } (chunkOf authors batchCap probe true))
  | .drained chunk =>
    if chunk.isProbing ∧ chunk.batchCap > q.rs.filterCap then some { q with pc := .raising chunk }
    else some { q with pc := .top chunk.rest }
  | .raising chunk => some { q with pc := .raised chunk, rs := { q.rs with filterCap := int32 chunk.batchCap } }
  | .raised chunk => some { q with pc := .top chunk.rest, rs := { q.rs with successStreak := 0 } }
  | .rejected chunk =>
    if q.rs.filterCap > 10 then some { q with pc := .halving chunk q.rs.filterCap (halve q.rs.filterCap 10) }
    else some { q with pc := .returning (some (floorReached q.rs)) }
  | .halving chunk old newVal => some { q with pc := .halved chunk old newVal, rs := { q.rs with filterCap := newVal } }
  | .halved chunk old newVal => some { q with pc := .clearing chunk old newVal, rs := { q.rs with successStreak := 0 } }
  | .clearing chunk old newVal =>
    let err := if chunk.isProbing then none else some (halvedError q.rs old newVal)
    some { q with pc := .returning err, rs := { q.rs with probing := false }, rejectedProbe := chunk.isProbing }
  | .returning err => some { q with pc := .returned err, rs := { q.rs with probing := false } }
  | _ => none

def subscribeError (q : Query) (chunk : Chunk) (msg : Str) (quick : Bool) : Query :=
  if quick ∧ lostConnection msg then { q with pc := .rejected chunk }
  else
    let text := relayText q.rs (cleanSubscribeError msg)
    if lostConnection msg then { q with pc := .returning (some (.transportError text)) }
    else { q with pc := .returning (some (.subscriptionError text)) }

-- The chunk in flight, from its REQ to the last step that its outcome calls for.
def Pc.chunk : Pc → Option Chunk
  | .subscribing chunk | .draining chunk | .drained chunk | .raising chunk | .rejected chunk | .halving chunk _ _ => some chunk
  | _ => none

-- Before its EOSE.
def Pc.open : Pc → Bool
  | .subscribing _ | .draining _ => true
  | _ => false

-- What a swap leaves noted: the new cap, where a probe is in flight.
def noted (q : Query) (newVal : Int) : Option Int := if (q.pc.chunk.map Chunk.isProbing).getD false then some newVal else q.noticed

-- One step of a notice handler; its floor is 10.
def handlerStep (q : Query) (k : Nat) : Option Query :=
  let enter (q : Query) (stage : Handler) : Query := { q with handler := Function.update q.handler k stage }
  match q.handler k with
  | .idle => none
  | .loading =>
    if q.rs.filterCap ≤ 10 then some (enter q .idle) else some (enter q (.swapping q.rs.filterCap (halve q.rs.filterCap 10)))
  | .swapping old newVal =>
    if q.rs.filterCap = old then
      some (enter { q with rs := { q.rs with filterCap := newVal }, noticed := noted q newVal } .resetting)
    else some (enter q .loading)
  | .resetting => some (enter { q with rs := { q.rs with successStreak := 0 } } .unmarking)
  | .unmarking => some (enter { q with rs := { q.rs with probing := false } } .idle)

def step (c : Crawler) (q : Query) : Action → Option Query
  | .call authors connected =>
    match q.pc with
    | .ready | .returned _ =>
      let q := { q with call := authors, asked := [], rejectedProbe := false, noticed := none, refused := false }
      if connected then some { q with pc := .top authors }
      else some { q with pc := .returned (some (.transportError (relayText q.rs (Bytes.text "connection is nil (closed concurrently)")))) }
    | _ => none
  | .loop => loopStep c q
  | .subscribed =>
    match q.pc with
    | .subscribing chunk => some { q with pc := .draining chunk }
    | _ => none
  | .subscribeFailed msg quick =>
    match q.pc with
    | .subscribing chunk => some (subscribeError q chunk msg quick)
    | _ => none
  | .expired deadline =>
    match q.pc with
    | .subscribing _ | .draining _ => some { q with pc := .returning (some (.context deadline)) }
    | _ => none
  | .eose =>
    match q.pc with
    | .draining chunk => some { q with pc := .drained chunk, asked := drainLast q.asked }
    | _ => none
  | .dropped cause =>
    match q.pc with
    | .draining _ => some { q with pc := .returning (some (.transportError (relayText q.rs cause))) }
    | _ => none
  | .counted =>
    match q.pc with
    | .returned none => some { q with pc := .ready, rs := { q.rs with successStreak := int32 (q.rs.successStreak + 1) } }
    | _ => none
  | .notice k text =>
    match q.handler k with
    | .idle =>
      if filterTooLarge c text then some { q with handler := Function.update q.handler k .loading, refused := q.refused || q.pc.open }
      else some q
    | _ => none
  | .handle k => handlerStep q k

-- All that a step can do.
inductive Moved (c : Crawler) (q : Query) : Action → Query → Prop where
  | call (authors : List Str) : Moved c q (.call authors true)
      { q with call := authors, asked := [], rejectedProbe := false, noticed := none, refused := false, pc := .top authors }
  | closed (authors : List Str) (e : QueryError) : Moved c q (.call authors false)
      { q with call := authors, asked := [], rejectedProbe := false, noticed := none, refused := false, pc := .returned (some e) }
  | load (authors : List Str) : q.pc = .top authors → 0 < authors.length → Moved c q .loop { q with pc := .sized authors (inForce q.rs.filterCap) }
  | finish : q.pc = .top [] → Moved c q .loop { q with pc := .returning none }
  | tries (authors : List Str) (batchCap probe : Int) : q.pc = .sized authors batchCap → batchCap < probe → probe ≤ batchCap * 2 →
      probe ≤ c.filterBatchSize → Moved c q .loop { q with pc := .marking authors batchCap probe }
  | plain (authors : List Str) (batchCap : Int) : q.pc = .sized authors batchCap →
      Moved c q .loop (send q (chunkOf authors batchCap batchCap false))
  | probe (authors : List Str) (batchCap probe : Int) : q.pc = .marking authors batchCap probe →
      Moved c q .loop (send { q with rs := { q.rs with probing := true } } (chunkOf authors batchCap probe true))
  | compare (chunk : Chunk) : q.pc = .drained chunk → chunk.isProbing = true → q.rs.filterCap < chunk.batchCap →
      Moved c q .loop { q with pc := .raising chunk }
  | pass (chunk : Chunk) : q.pc = .drained chunk → Moved c q .loop { q with pc := .top chunk.rest }
  | raise (chunk : Chunk) : q.pc = .raising chunk →
      Moved c q .loop { q with pc := .raised chunk, rs := { q.rs with filterCap := int32 chunk.batchCap } }
  | restart (chunk : Chunk) : q.pc = .raised chunk → Moved c q .loop { q with pc := .top chunk.rest, rs := { q.rs with successStreak := 0 } }
  | reject (chunk : Chunk) : q.pc = .rejected chunk → 10 < q.rs.filterCap →
      Moved c q .loop { q with pc := .halving chunk q.rs.filterCap (halve q.rs.filterCap 10) }
  | floor (chunk : Chunk) (e : QueryError) : q.pc = .rejected chunk → Moved c q .loop { q with pc := .returning (some e) }
  | halve (chunk : Chunk) (old newVal : Int) : q.pc = .halving chunk old newVal →
      Moved c q .loop { q with pc := .halved chunk old newVal, rs := { q.rs with filterCap := newVal } }
  | unstreak (chunk : Chunk) (old newVal : Int) : q.pc = .halved chunk old newVal →
      Moved c q .loop { q with pc := .clearing chunk old newVal, rs := { q.rs with successStreak := 0 } }
  | excuse (chunk : Chunk) (old newVal : Int) : q.pc = .clearing chunk old newVal → chunk.isProbing = true →
      Moved c q .loop { q with pc := .returning none, rs := { q.rs with probing := false }, rejectedProbe := true }
  | blame (chunk : Chunk) (old newVal : Int) (e : QueryError) : q.pc = .clearing chunk old newVal → chunk.isProbing = false →
      Moved c q .loop { q with pc := .returning (some e), rs := { q.rs with probing := false }, rejectedProbe := false }
  | leave (err : Option QueryError) : q.pc = .returning err →
      Moved c q .loop { q with pc := .returned err, rs := { q.rs with probing := false } }
  | subscribed (chunk : Chunk) : q.pc = .subscribing chunk → Moved c q .subscribed { q with pc := .draining chunk }
  | refused (chunk : Chunk) (msg : Str) : q.pc = .subscribing chunk → Moved c q (.subscribeFailed msg true) { q with pc := .rejected chunk }
  | failed (msg : Str) (quick : Bool) (e : QueryError) : Moved c q (.subscribeFailed msg quick) { q with pc := .returning (some e) }
  | expired (deadline : Bool) : Moved c q (.expired deadline) { q with pc := .returning (some (.context deadline)) }
  | eose (chunk : Chunk) : q.pc = .draining chunk → Moved c q .eose { q with pc := .drained chunk, asked := drainLast q.asked }
  | dropped (cause : Str) (e : QueryError) : Moved c q (.dropped cause) { q with pc := .returning (some e) }
  | counted : Moved c q .counted { q with pc := .ready, rs := { q.rs with successStreak := int32 (q.rs.successStreak + 1) } }
  | notice (k : Nat) (text : Str) : Moved c q (.notice k text)
      { q with handler := Function.update q.handler k .loading, refused := q.refused || q.pc.open }
  | ignored (k : Nat) (text : Str) : Moved c q (.notice k text) q
  | low (k : Nat) : Moved c q (.handle k) { q with handler := Function.update q.handler k .idle }
  | loaded (k : Nat) : 10 < q.rs.filterCap → Moved c q (.handle k)
      { q with handler := Function.update q.handler k (.swapping q.rs.filterCap (WebOfTrust.QueryRelay.halve q.rs.filterCap 10)) }
  | swap (k : Nat) (old newVal : Int) : q.handler k = .swapping old newVal → q.rs.filterCap = old → Moved c q (.handle k)
      { q with rs := { q.rs with filterCap := newVal }, noticed := noted q newVal, handler := Function.update q.handler k .resetting }
  | retry (k : Nat) : Moved c q (.handle k) { q with handler := Function.update q.handler k .loading }
  | reset (k : Nat) : Moved c q (.handle k)
      { q with rs := { q.rs with successStreak := 0 }, handler := Function.update q.handler k .unmarking }
  | unmark (k : Nat) : Moved c q (.handle k) { q with rs := { q.rs with probing := false }, handler := Function.update q.handler k .idle }

section Moved
variable {c : Crawler} {q next : Query}

theorem loopStep_moved (moved : loopStep c q = some next) : Moved c q .loop next := by
  unfold loopStep at moved
  split at moved
  · rename_i authors pc
    split at moved
    · rename_i some
      cases moved
      exact .load authors pc some
    · rename_i none
      cases moved
      have empty : authors = [] := List.length_eq_zero_iff.mp (by omega)
      rw [empty] at pc
      exact .finish pc
  · rename_i authors batchCap pc
    dsimp only at moved
    generalize size : (if batchCap * 2 > c.filterBatchSize then c.filterBatchSize else batchCap * 2) = probe at moved
    split at moved
    · rename_i tries
      cases moved
      refine .tries authors batchCap probe pc tries.2 ?_ ?_
      · split at size <;> omega
      · split at size <;> omega
    · cases moved
      exact .plain authors batchCap pc
  · rename_i authors batchCap probe pc
    cases moved
    exact .probe authors batchCap probe pc
  · rename_i chunk pc
    split at moved
    · rename_i above
      cases moved
      exact .compare chunk pc above.1 above.2
    · cases moved
      exact .pass chunk pc
  · rename_i chunk pc
    cases moved
    exact .raise chunk pc
  · rename_i chunk pc
    cases moved
    exact .restart chunk pc
  · rename_i chunk pc
    split at moved
    · rename_i above
      cases moved
      exact .reject chunk pc above
    · cases moved
      exact .floor chunk _ pc
  · rename_i chunk old newVal pc
    cases moved
    exact .halve chunk old newVal pc
  · rename_i chunk old newVal pc
    cases moved
    exact .unstreak chunk old newVal pc
  · rename_i chunk old newVal pc
    cases moved
    cases probing : chunk.isProbing with
    | true => exact .excuse chunk old newVal pc probing
    | false => exact .blame chunk old newVal _ pc probing
  · rename_i err pc
    cases moved
    exact .leave err pc
  · cases moved

theorem handlerStep_moved {k : Nat} (moved : handlerStep q k = some next) : Moved c q (.handle k) next := by
  unfold handlerStep at moved
  dsimp only at moved
  split at moved
  · cases moved
  · split at moved
    · cases moved
      exact .low k
    · rename_i above
      cases moved
      exact .loaded k (by omega)
  · rename_i old newVal here
    split at moved
    · rename_i same
      cases moved
      exact .swap k old newVal here same
    · cases moved
      exact .retry k
  · cases moved
    exact .reset k
  · cases moved
    exact .unmark k

theorem step_moved {action : Action} (moved : step c q action = some next) : Moved c q action next := by
  unfold step at moved
  cases action with
  | call authors connected =>
    dsimp only at moved
    split at moved
    · cases connected <;> cases moved
      · exact .closed authors _
      · exact .call authors
    · cases connected <;> cases moved
      · exact .closed authors _
      · exact .call authors
    · cases moved
  | loop => exact loopStep_moved moved
  | subscribed =>
    dsimp only at moved
    split at moved
    · rename_i chunk pc
      cases moved
      exact .subscribed chunk pc
    · cases moved
  | subscribeFailed msg quick =>
    dsimp only at moved
    split at moved
    · rename_i chunk pc
      cases moved
      unfold subscribeError
      split
      · rename_i rejected
        rw [rejected.1]
        exact .refused chunk msg pc
      · dsimp only
        split <;> exact .failed msg quick _
    · cases moved
  | expired deadline =>
    dsimp only at moved
    split at moved <;> cases moved <;> exact .expired deadline
  | eose =>
    dsimp only at moved
    split at moved
    · rename_i chunk pc
      cases moved
      exact .eose chunk pc
    · cases moved
  | dropped cause =>
    dsimp only at moved
    split at moved <;> cases moved
    exact .dropped cause _
  | counted =>
    dsimp only at moved
    split at moved <;> cases moved
    exact .counted
  | notice k text =>
    dsimp only at moved
    split at moved
    · split at moved <;> cases moved
      · exact .notice k text
      · exact .ignored k text
    · cases moved
  | handle k => exact handlerStep_moved moved
end Moved

end DeepFry.WebOfTrust.QueryRelay
