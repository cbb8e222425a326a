import DeepFry.EventForwarder.Window
import DeepFry.Lib.Machine
import DeepFry.Lib.Ring

namespace DeepFry.EventForwarder.Telemetry

inductive ErrorSeverity where
  | info
  | warning
  | error
  | critical
deriving DecidableEq

-- What the aggregator reads of an event.
inductive TelemetryEvent where
  | eventReceived
  | eventForwarded (kind latency : Int)
  | syncProgressUpdated (fromTs toTs : Int)
  | connectionStatusChanged (relayURL : Str) (connected : Bool)
  | forwarderError (err context : Str) (severity : ErrorSeverity)
  | syncModeChanged (mode : Str)
  | realtimeProgressUpdated (eventsSinceUpdate : Int)
deriving DecidableEq

structure Config where
  bufferSize : Nat
  maxRecentErrors : Nat
  rateWindowSeconds : Int

def DefaultConfig : Config := ⟨1000,50,10⟩

-- Times and durations in nanoseconds. A key that is not in a map counts 0.
structure Aggregator where
  cfg : Config
  eventsReceived : Nat
  eventsForwarded : Nat
  errorsTotal : Nat
  eventsForwardedByKind : Int → Nat
  errorsByType : Str → Nat
  errorsBySeverity : ErrorSeverity → Nat
  eventTimes : List Int
  forwardTimes : List Int
  syncWindowFrom : Int
  syncWindowTo : Int
  currentSyncMode : Str
  eventsSinceUpdate : Int
  sourceRelayConnected : Bool
  deepFryRelayConnected : Bool
  recentErrors : List Str
  errorIndex : Nat
  latencies : List Int
  latencyIndex : Nat
  startTime : Int

def windowed : Str := Bytes.text "windowed"

def newAggregator (cfg : Config) (now : Int) : Aggregator where
  cfg := cfg
  eventsReceived := 0
  eventsForwarded := 0
  errorsTotal := 0
  eventsForwardedByKind := fun _ => 0
  errorsByType := fun _ => 0
  errorsBySeverity := fun _ => 0
  eventTimes := []
  forwardTimes := []
  syncWindowFrom := 0
  syncWindowTo := 0
  currentSyncMode := windowed
  eventsSinceUpdate := 0
  sourceRelayConnected := false
  deepFryRelayConnected := false
  recentErrors := List.replicate cfg.maxRecentErrors []
  errorIndex := 0
  latencies := List.replicate 100 0
  latencyIndex := 0
  startTime := now

def source : Str := Bytes.text "source"

def deepfry : Str := Bytes.text "deepfry"

-- addEventTime and addForwardTime
def addTime (cfg : Config) (t : Int) (times : List Int) : List Int :=
  times.dropWhile (fun old => decide (old < t - cfg.rateWindowSeconds * SECOND)) ++ [t]

def increment {κ : Type} [DecidableEq κ] (counts : κ → Nat) (key : κ) : κ → Nat := Function.update counts key (counts key + 1)

def Aggregator.addLatency (latency : Int) (a : Aggregator) : Aggregator :=
  { a with latencies := a.latencies.set a.latencyIndex latency, latencyIndex := (a.latencyIndex + 1) % a.latencies.length }

def Aggregator.addRecentError (err : Str) (a : Aggregator) : Aggregator :=
  { a with recentErrors := a.recentErrors.set a.errorIndex err, errorIndex := (a.errorIndex + 1) % a.recentErrors.length }

def Aggregator.handleEvent (now : Int) (a : Aggregator) : TelemetryEvent → Aggregator
  | .eventReceived => { a with eventsReceived := a.eventsReceived + 1, eventTimes := addTime a.cfg now a.eventTimes }
  | .eventForwarded kind latency =>
    { a with
      eventsForwarded := a.eventsForwarded + 1
      eventsForwardedByKind := increment a.eventsForwardedByKind kind
      forwardTimes := addTime a.cfg now a.forwardTimes }.addLatency latency
  | .syncProgressUpdated fromTs toTs => { a with syncWindowFrom := fromTs, syncWindowTo := toTs }
  | .connectionStatusChanged relayURL connected =>
    if relayURL = source then { a with sourceRelayConnected := connected }
    else if relayURL = deepfry then { a with deepFryRelayConnected := connected }
    else a
  | .forwarderError err context severity =>
    { a with
      errorsTotal := a.errorsTotal + 1
      errorsByType := increment a.errorsByType context
      errorsBySeverity := increment a.errorsBySeverity severity }.addRecentError err
  | .syncModeChanged mode => { a with currentSyncMode := mode }
  | .realtimeProgressUpdated n => { a with eventsSinceUpdate := n }

-- The rates, latencies and seconds before they are rounded to floats.
structure Snapshot where
  eventsReceived : Nat
  eventsForwarded : Nat
  errorsTotal : Nat
  eventsForwardedByKind : Int → Nat
  errorsByType : Str → Nat
  errorsBySeverity : ErrorSeverity → Nat
  syncLagSeconds : ℚ
  syncWindowFrom : Int
  syncWindowTo : Int
  currentSyncMode : Str
  eventsSinceUpdate : Int
  sourceRelayConnected : Bool
  deepFryRelayConnected : Bool
  recentErrors : List Str
  eventsPerSecond : ℚ
  forwardsPerSecond : ℚ
  avgLatencyMs : ℚ
  p95LatencyMs : ℚ
  uptimeSeconds : ℚ
  channelUtilization : ℚ

def calculateRate (cfg : Config) (times : List Int) (now : Int) : ℚ :=
  (times.countP fun t => decide (now - cfg.rateWindowSeconds * SECOND < t)) / cfg.rateWindowSeconds

-- The average, and the greatest latency for the 95th percentile.
def calculateLatencyMetrics (latencies : List Int) : ℚ × ℚ :=
  match latencies.filter fun lat => decide (0 < lat) with
  | [] => (0,0)
  | first :: rest => (((first :: rest).sum : ℚ) / (first :: rest).length / 1000000,((rest.foldl max first : Int) : ℚ) / 1000000)

def Aggregator.readErrors (a : Aggregator) : List Str :=
  ((List.range a.cfg.maxRecentErrors).map fun i =>
    a.recentErrors.getD ((a.errorIndex + a.recentErrors.length - i - 1) % a.recentErrors.length) []).filter fun err => err != []

def Aggregator.snapshot (a : Aggregator) (now : Int) (waiting : Nat) : Snapshot where
  eventsReceived := a.eventsReceived
  eventsForwarded := a.eventsForwarded
  errorsTotal := a.errorsTotal
  eventsForwardedByKind := a.eventsForwardedByKind
  errorsByType := a.errorsByType
  errorsBySeverity := a.errorsBySeverity
  syncLagSeconds := if 0 < a.syncWindowTo then (now - a.syncWindowTo * SECOND : ℚ) / SECOND else 0
  syncWindowFrom := a.syncWindowFrom
  syncWindowTo := a.syncWindowTo
  currentSyncMode := a.currentSyncMode
  eventsSinceUpdate := a.eventsSinceUpdate
  sourceRelayConnected := a.sourceRelayConnected
  deepFryRelayConnected := a.deepFryRelayConnected
  recentErrors := a.readErrors
  eventsPerSecond := calculateRate a.cfg a.eventTimes now
  forwardsPerSecond := calculateRate a.cfg a.forwardTimes now
  avgLatencyMs := (calculateLatencyMetrics a.latencies).1
  p95LatencyMs := (calculateLatencyMetrics a.latencies).2
  uptimeSeconds := (now - a.startTime : ℚ) / SECOND
  channelUtilization := (waiting : ℚ) / a.cfg.bufferSize * 100

def sinkSize : Nat := 200

-- The sink's channel, the event its goroutine holds, and the aggregator with its channel. emitted, handled, lostAtSink and
-- lostAtAggregator: what was emitted, what was handled and when, and how many events a full channel dropped; nothing reads these.
structure Pipeline where
  sink : List TelemetryEvent
  moving : Option TelemetryEvent
  eventCh : List TelemetryEvent
  aggregator : Aggregator
  emitted : List TelemetryEvent
  handled : List (Int × TelemetryEvent)
  lostAtSink : Nat
  lostAtAggregator : Nat
  clock : Int

inductive PipelineStep where
  | emitRaw (event : TelemetryEvent)
  | take
  | publish
  | handle (now : Int)

def step (s : Pipeline) : PipelineStep → Option Pipeline
  | .emitRaw event =>
    if s.sink.length < sinkSize then some { s with sink := s.sink ++ [event], emitted := s.emitted ++ [event] }
    else some { s with emitted := s.emitted ++ [event], lostAtSink := s.lostAtSink + 1 }
  | .take =>
    match s.moving,s.sink with
    | none,event :: rest => some { s with sink := rest, moving := some event }
    | _,_ => none
  | .publish =>
    match s.moving with
    | some event =>
      if s.eventCh.length < s.aggregator.cfg.bufferSize then some { s with moving := none, eventCh := s.eventCh ++ [event] }
      else some { s with moving := none, lostAtAggregator := s.lostAtAggregator + 1 }
    | none => none
  | .handle now =>
    match s.eventCh with
    | event :: rest =>
      some { s with eventCh := rest, aggregator := s.aggregator.handleEvent now event, handled := s.handled ++ [(now,event)], clock := now }
    | [] => none

-- The clock does not go back.
def monotone (s : Pipeline) : PipelineStep → Prop
  | .handle now => s.clock ≤ now
  | _ => True

def boot (cfg : Config) (now : Int) : Pipeline := ⟨[],none,[],newAggregator cfg now,[],[],0,0,now⟩

-- What an event says, by the parts of the aggregator it moves.
def receivedAt (entry : Int × TelemetryEvent) : Option Int :=
  match entry.2 with
  | .eventReceived => some entry.1
  | _ => none

def forwardedAt (entry : Int × TelemetryEvent) : Option (Int × Int × Int) :=
  match entry.2 with
  | .eventForwarded kind latency => some (entry.1,kind,latency)
  | _ => none

def failure (entry : Int × TelemetryEvent) : Option (Str × Str × ErrorSeverity) :=
  match entry.2 with
  | .forwarderError err context severity => some (err,context,severity)
  | _ => none

def progress (entry : Int × TelemetryEvent) : Option (Int × Int) :=
  match entry.2 with
  | .syncProgressUpdated fromTs toTs => some (fromTs,toTs)
  | _ => none

def link (url : Str) (entry : Int × TelemetryEvent) : Option Bool :=
  match entry.2 with
  | .connectionStatusChanged relayURL connected => if relayURL = url then some connected else none
  | _ => none

def modeSet (entry : Int × TelemetryEvent) : Option Str :=
  match entry.2 with
  | .syncModeChanged mode => some mode
  | _ => none

def realtime (entry : Int × TelemetryEvent) : Option Int :=
  match entry.2 with
  | .realtimeProgressUpdated n => some n
  | _ => none

def lastOf {α : Type} (told : Int × TelemetryEvent → Option α) (initial : α) (handled : List (Int × TelemetryEvent)) : α :=
  (handled.filterMap told).getLast?.getD initial

section Handle
variable {a : Aggregator} {now : Int} {e : TelemetryEvent}

theorem handle_cfg : (a.handleEvent now e).cfg = a.cfg ∧ (a.handleEvent now e).startTime = a.startTime := by
  cases e with
  | connectionStatusChanged relayURL connected =>
    rw [Aggregator.handleEvent]
    split
    · exact ⟨rfl,rfl⟩
    · split <;> exact ⟨rfl,rfl⟩
  | _ => exact ⟨rfl,rfl⟩

-- Three counters, each with the maps that split it up.
theorem handle_counts :
    (a.handleEvent now e).eventsReceived = a.eventsReceived + (receivedAt (now,e)).toList.length ∧
    ((a.handleEvent now e).eventsForwarded = a.eventsForwarded + (forwardedAt (now,e)).toList.length ∧
      ∀ kind, (a.handleEvent now e).eventsForwardedByKind kind =
        a.eventsForwardedByKind kind + (forwardedAt (now,e)).toList.countP fun entry => decide (entry.2.1 = kind)) ∧
    (a.handleEvent now e).errorsTotal = a.errorsTotal + (failure (now,e)).toList.length ∧
      (∀ context, (a.handleEvent now e).errorsByType context =
        a.errorsByType context + (failure (now,e)).toList.countP fun entry => decide (entry.2.1 = context)) ∧
      ∀ severity, (a.handleEvent now e).errorsBySeverity severity =
        a.errorsBySeverity severity + (failure (now,e)).toList.countP fun entry => decide (entry.2.2 = severity) := by
  have added : ∀ {κ : Type} [DecidableEq κ] (counts : κ → Nat) (key other : κ),
      increment counts key other = counts other + if key = other then 1 else 0 := by
    intro κ _ counts key other
    by_cases same : other = key
    · simp [increment,same]
    · simp [increment,same,Ne.symm same]
  cases e with
  | eventForwarded kind latency =>
    refine ⟨rfl,⟨rfl,fun other => ?_⟩,rfl,fun _ => rfl,fun _ => rfl⟩
    exact (added _ _ _).trans (by simp [forwardedAt,List.countP_cons])
  | forwarderError err context severity =>
    refine ⟨rfl,⟨rfl,fun _ => rfl⟩,rfl,fun other => ?_,fun other => ?_⟩
    · exact (added _ _ _).trans (by simp [failure,List.countP_cons])
    · exact (added _ _ _).trans (by simp [failure,List.countP_cons])
  | connectionStatusChanged relayURL connected =>
    rw [Aggregator.handleEvent]
    split
    · exact ⟨rfl,⟨rfl,fun _ => rfl⟩,rfl,fun _ => rfl,fun _ => rfl⟩
    · split <;> exact ⟨rfl,⟨rfl,fun _ => rfl⟩,rfl,fun _ => rfl,fun _ => rfl⟩
  | _ => exact ⟨rfl,⟨rfl,fun _ => rfl⟩,rfl,fun _ => rfl,fun _ => rfl⟩

theorem handle_values :
    ((a.handleEvent now e).syncWindowFrom,(a.handleEvent now e).syncWindowTo) = (progress (now,e)).getD (a.syncWindowFrom,a.syncWindowTo) ∧
    (a.handleEvent now e).currentSyncMode = (modeSet (now,e)).getD a.currentSyncMode ∧
    (a.handleEvent now e).eventsSinceUpdate = (realtime (now,e)).getD a.eventsSinceUpdate ∧
    (a.handleEvent now e).sourceRelayConnected = (link source (now,e)).getD a.sourceRelayConnected ∧
    (a.handleEvent now e).deepFryRelayConnected = (link deepfry (now,e)).getD a.deepFryRelayConnected := by
  cases e with
  | connectionStatusChanged relayURL connected =>
    rw [Aggregator.handleEvent]
    by_cases first : relayURL = source
    · subst first
      refine ⟨rfl,rfl,rfl,?_,?_⟩ <;> simp [link,show source ≠ deepfry by decide]
    · by_cases other : relayURL = deepfry
      · subst other
        refine ⟨?_,?_,?_,?_,?_⟩ <;> simp [progress,modeSet,realtime,link,show deepfry ≠ source by decide]
      · refine ⟨?_,?_,?_,?_,?_⟩ <;> simp [progress,modeSet,realtime,link,first,other]
  | _ => exact ⟨rfl,rfl,rfl,rfl,rfl⟩

theorem handle_times :
    (a.handleEvent now e).eventTimes = (receivedAt (now,e)).elim a.eventTimes (addTime a.cfg · a.eventTimes) ∧
    (a.handleEvent now e).forwardTimes = (forwardedAt (now,e)).elim a.forwardTimes fun entry => addTime a.cfg entry.1 a.forwardTimes := by
  cases e with
  | connectionStatusChanged relayURL connected =>
    rw [Aggregator.handleEvent]
    split
    · exact ⟨rfl,rfl⟩
    · split <;> exact ⟨rfl,rfl⟩
  | _ => exact ⟨rfl,rfl⟩

theorem handle_rings {errors : List Str} {latencies : List Int} (failed : Ring.Holds [] a.recentErrors a.errorIndex errors)
    (timed : Ring.Holds 0 a.latencies a.latencyIndex latencies) :
    (Ring.Holds [] (a.handleEvent now e).recentErrors (a.handleEvent now e).errorIndex
        (errors ++ (failure (now,e)).toList.map fun entry => entry.1) ∧
      (a.handleEvent now e).recentErrors.length = a.recentErrors.length) ∧
    Ring.Holds 0 (a.handleEvent now e).latencies (a.handleEvent now e).latencyIndex
        (latencies ++ (forwardedAt (now,e)).toList.map fun entry => entry.2.2) ∧
      (a.handleEvent now e).latencies.length = a.latencies.length := by
  have same_errors : errors ++ ([] : List (Str × Str × ErrorSeverity)).map (fun entry => entry.1) = errors := List.append_nil _
  have same_latencies : latencies ++ ([] : List (Int × Int × Int)).map (fun entry => entry.2.2) = latencies := List.append_nil _
  cases e with
  | eventForwarded kind latency => exact ⟨⟨same_errors.symm ▸ failed,rfl⟩,timed.put,List.length_set⟩
  | forwarderError err context severity => exact ⟨⟨failed.put,List.length_set⟩,same_latencies.symm ▸ timed,rfl⟩
  | connectionStatusChanged relayURL connected =>
    rw [Aggregator.handleEvent]
    split
    · exact ⟨⟨same_errors.symm ▸ failed,rfl⟩,same_latencies.symm ▸ timed,rfl⟩
    · split <;> exact ⟨⟨same_errors.symm ▸ failed,rfl⟩,same_latencies.symm ▸ timed,rfl⟩
  | _ => exact ⟨⟨same_errors.symm ▸ failed,rfl⟩,same_latencies.symm ▸ timed,rfl⟩

end Handle

-- The times that are kept, against all there were: what was dropped is out of every window still to come.
def Kept (cfg : Config) (clock : Int) (times all : List Int) : Prop :=
  ∃ dropped, all = dropped ++ times ∧ ∀ t ∈ dropped, t < clock - cfg.rateWindowSeconds * SECOND

theorem Kept.later {cfg : Config} {clock now : Int} {times all : List Int} (kept : Kept cfg clock times all) (later : clock ≤ now) :
    Kept cfg now times all := by
  obtain ⟨dropped,whole,old⟩ := kept
  exact ⟨dropped,whole,fun t member => by have := old t member; omega⟩

theorem Kept.add {cfg : Config} {now : Int} {times all : List Int} (kept : Kept cfg now times all) :
    Kept cfg now (addTime cfg now times) (all ++ [now]) := by
  obtain ⟨dropped,rfl,old⟩ := kept
  refine ⟨dropped ++ times.takeWhile (fun t => decide (t < now - cfg.rateWindowSeconds * SECOND)),?_,?_⟩
  · rw [addTime,List.append_assoc,List.append_assoc,← List.append_assoc (times.takeWhile _),List.takeWhile_append_dropWhile]
  · intro t member
    rcases List.mem_append.mp member with earlier | pruned
    · exact old t earlier
    · exact of_decide_eq_true (List.all_eq_true.mp List.all_takeWhile t pruned)

-- A rate counts as if nothing had been dropped.
theorem Kept.rate {cfg : Config} {clock now : Int} {times all : List Int} (kept : Kept cfg clock times all) (later : clock ≤ now) :
    calculateRate cfg times now = calculateRate cfg all now := by
  obtain ⟨dropped,rfl,old⟩ := kept
  have none : (dropped.countP fun t => decide (now - cfg.rateWindowSeconds * SECOND < t)) = 0 := by
    refine List.countP_eq_zero.mpr fun t member => ?_
    have := old t member
    rw [decide_eq_true_eq]
    omega
  rw [calculateRate,calculateRate,List.countP_append,none,Nat.zero_add]

-- The aggregator against the events it has handled.
structure Reads (cfg : Config) (booted clock : Int) (a : Aggregator) (handled : List (Int × TelemetryEvent)) : Prop where
  config : a.cfg = cfg ∧ a.startTime = booted
  received : a.eventsReceived = (handled.filterMap receivedAt).length
  forwarded : a.eventsForwarded = (handled.filterMap forwardedAt).length
  byKind : ∀ kind, a.eventsForwardedByKind kind = (handled.filterMap forwardedAt).countP fun entry => decide (entry.2.1 = kind)
  errors : a.errorsTotal = (handled.filterMap failure).length
  byType : ∀ context, a.errorsByType context = (handled.filterMap failure).countP fun entry => decide (entry.2.1 = context)
  bySeverity : ∀ severity, a.errorsBySeverity severity = (handled.filterMap failure).countP fun entry => decide (entry.2.2 = severity)
  window : (a.syncWindowFrom,a.syncWindowTo) = lastOf progress (0,0) handled
  mode : a.currentSyncMode = lastOf modeSet windowed handled
  sinceUpdate : a.eventsSinceUpdate = lastOf realtime 0 handled
  sourceLink : a.sourceRelayConnected = lastOf (link source) false handled
  deepFryLink : a.deepFryRelayConnected = lastOf (link deepfry) false handled
  recent : Ring.Holds [] a.recentErrors a.errorIndex ((handled.filterMap failure).map fun entry => entry.1)
  recentSize : a.recentErrors.length = cfg.maxRecentErrors
  timed : Ring.Holds 0 a.latencies a.latencyIndex ((handled.filterMap forwardedAt).map fun entry => entry.2.2)
  timedSize : a.latencies.length = 100
  eventTimes : Kept cfg clock a.eventTimes (handled.filterMap receivedAt)
  forwardTimes : Kept cfg clock a.forwardTimes ((handled.filterMap forwardedAt).map fun entry => entry.1)

section Reading
variable {cfg : Config} {booted clock now : Int} {a : Aggregator} {handled : List (Int × TelemetryEvent)} {e : TelemetryEvent}

theorem filterMap_concat {α : Type} (told : Int × TelemetryEvent → Option α) (entry : Int × TelemetryEvent) :
    (handled ++ [entry]).filterMap told = handled.filterMap told ++ (told entry).toList := by
  rw [List.filterMap_append]
  cases said : told entry <;> simp [said]

theorem lastOf_concat {α : Type} (told : Int × TelemetryEvent → Option α) (initial : α) (entry : Int × TelemetryEvent) :
    lastOf told initial (handled ++ [entry]) = (told entry).getD (lastOf told initial handled) := by
  rw [lastOf,filterMap_concat]
  cases told entry with
  | none => rw [Option.toList_none,List.append_nil]; rfl
  | some x => rw [Option.toList_some,List.getLast?_concat]; rfl

theorem Reads.boot (positive : 0 < cfg.maxRecentErrors) (now : Int) : Reads cfg now now (newAggregator cfg now) [] where
  config := ⟨rfl,rfl⟩
  received := rfl
  forwarded := rfl
  byKind := fun _ => rfl
  errors := rfl
  byType := fun _ => rfl
  bySeverity := fun _ => rfl
  window := rfl
  mode := rfl
  sinceUpdate := rfl
  sourceLink := rfl
  deepFryLink := rfl
  recent := Ring.Holds.start positive
  recentSize := List.length_replicate
  timed := Ring.Holds.start (by decide)
  timedSize := List.length_replicate
  eventTimes := ⟨[],rfl,fun _ member => nomatch member⟩
  forwardTimes := ⟨[],rfl,fun _ member => nomatch member⟩

theorem Reads.handle (reads : Reads cfg booted clock a handled) (later : clock ≤ now) :
    Reads cfg booted now (a.handleEvent now e) (handled ++ [(now,e)]) := by
  obtain ⟨receivedCount,⟨forwardedCount,kinds⟩,errorCount,types,severities⟩ := @handle_counts a now e
  obtain ⟨window,mode,sinceUpdate,sourceLink,deepFryLink⟩ := @handle_values a now e
  obtain ⟨eventTimes,forwardTimes⟩ := @handle_times a now e
  obtain ⟨⟨recent,recentSize⟩,timed,timedSize⟩ := @handle_rings a now e _ _ reads.recent reads.timed
  obtain ⟨config,startTime⟩ := @handle_cfg a now e
  have keptEvents := reads.eventTimes.later later
  have keptForwards := reads.forwardTimes.later later
  refine ⟨⟨config.trans reads.config.1,startTime.trans reads.config.2⟩,?_,?_,fun kind => ?_,?_,fun context => ?_,fun severity => ?_,?_,?_,?_,
    ?_,?_,?_,recentSize.trans reads.recentSize,?_,timedSize.trans reads.timedSize,?_,?_⟩
  · rw [receivedCount,reads.received,filterMap_concat,List.length_append]
  · rw [forwardedCount,reads.forwarded,filterMap_concat,List.length_append]
  · rw [kinds,reads.byKind,filterMap_concat,List.countP_append]
  · rw [errorCount,reads.errors,filterMap_concat,List.length_append]
  · rw [types,reads.byType,filterMap_concat,List.countP_append]
  · rw [severities,reads.bySeverity,filterMap_concat,List.countP_append]
  · rw [window,reads.window,lastOf_concat]
  · rw [mode,reads.mode,lastOf_concat]
  · rw [sinceUpdate,reads.sinceUpdate,lastOf_concat]
  · rw [sourceLink,reads.sourceLink,lastOf_concat]
  · rw [deepFryLink,reads.deepFryLink,lastOf_concat]
  · rwa [filterMap_concat,List.map_append]
  · rwa [filterMap_concat,List.map_append]
  · rw [eventTimes,filterMap_concat,reads.config.1]
    cases at_ : receivedAt (now,e) with
    | none => rwa [Option.toList_none,List.append_nil]
    | some t =>
      have same : t = now := by
        unfold receivedAt at at_
        split at at_
        · exact (Option.some.inj at_).symm
        · cases at_
      subst same
      exact keptEvents.add
  · rw [forwardTimes,filterMap_concat,List.map_append,reads.config.1]
    cases at_ : forwardedAt (now,e) with
    | none => rwa [Option.toList_none,List.map_nil,List.append_nil]
    | some entry =>
      have same : entry.1 = now := by
        unfold forwardedAt at at_
        split at at_
        · cases at_
          rfl
        · cases at_
      rw [Option.toList_some,List.map_singleton,Option.elim_some,same]
      exact keptForwards.add

end Reading

section Run
variable {cfg : Config} {start : Int} {s next : Pipeline}

-- What the pipeline keeps: the aggregator reads what was handled, and what was emitted is handled, on its way, or lost at a full channel.
structure Flows (cfg : Config) (start : Int) (s : Pipeline) : Prop where
  reads : Reads cfg start s.clock s.aggregator s.handled
  order : (s.handled.map Prod.snd ++ s.eventCh ++ s.moving.toList ++ s.sink).Sublist s.emitted
  total : s.emitted.length = s.handled.length + s.eventCh.length + s.moving.toList.length + s.sink.length + s.lostAtSink + s.lostAtAggregator
  sinkRoom : s.sink.length ≤ sinkSize
  channelRoom : s.eventCh.length ≤ cfg.bufferSize

theorem Flows.boot (positive : 0 < cfg.maxRecentErrors) (start : Int) : Flows cfg start (boot cfg start) :=
  ⟨Reads.boot positive start,List.Sublist.refl _,rfl,Nat.zero_le _,Nat.zero_le _⟩

theorem Flows.step {action : PipelineStep} (flows : Flows cfg start s) (later : monotone s action)
    (moved : Telemetry.step s action = some next) : Flows cfg start next := by
  obtain ⟨reads,order,total,sinkRoom,channelRoom⟩ := flows
  cases action with
  | emitRaw event =>
    simp only [Telemetry.step] at moved
    split at moved
    · next room =>
      cases moved
      refine ⟨reads,?_,?_,?_,channelRoom⟩
      · rw [← List.append_assoc]
        exact order.append (List.Sublist.refl _)
      · simp only [List.length_append,List.length_singleton,total]
        omega
      · rw [List.length_append]
        exact room
    · cases moved
      refine ⟨reads,order.trans (List.sublist_append_left _ _),?_,sinkRoom,channelRoom⟩
      simp only [List.length_append,List.length_singleton,total]
      omega
  | take =>
    simp only [Telemetry.step] at moved
    split at moved
    · next event rest idle waiting =>
      cases moved
      rw [idle,waiting] at order total
      rw [waiting,List.length_cons] at sinkRoom
      refine ⟨reads,?_,?_,Nat.le_of_succ_le sinkRoom,channelRoom⟩
      · simpa using order
      · simp only [Option.toList_none,Option.toList_some,List.length_nil,List.length_cons] at total ⊢
        omega
    · cases moved
  | publish =>
    simp only [Telemetry.step] at moved
    split at moved
    · next event moving =>
      rw [moving] at order total
      split at moved
      · next room =>
        cases moved
        refine ⟨reads,?_,?_,sinkRoom,?_⟩
        · simpa using order
        · simp only [Option.toList_none,Option.toList_some,List.length_nil,List.length_singleton,List.length_append] at total ⊢
          omega
        · rw [reads.config.1] at room
          rw [List.length_append]
          exact room
      · cases moved
        refine ⟨reads,?_,?_,sinkRoom,channelRoom⟩
        · refine List.Sublist.trans ?_ order
          simp only [Option.toList_none,Option.toList_some,List.append_nil,List.append_assoc]
          exact (List.Sublist.refl _).append ((List.Sublist.refl _).append (List.sublist_append_right _ _))
        · simp only [Option.toList_none,Option.toList_some,List.length_nil,List.length_singleton] at total ⊢
          omega
    · cases moved
  | handle now =>
    simp only [Telemetry.step] at moved
    split at moved
    · next event rest waiting =>
      cases moved
      rw [waiting] at order total channelRoom
      refine ⟨reads.handle later,?_,?_,sinkRoom,?_⟩
      · simpa using order
      · simp only [List.length_append,List.length_cons,List.length_nil] at total ⊢
        omega
      · rw [List.length_cons] at channelRoom
        exact Nat.le_of_succ_le channelRoom
    · cases moved

-- The last errors, the newest first, without the empty ones.
theorem Reads.errors_read {clock : Int} {a : Aggregator} {handled : List (Int × TelemetryEvent)} (reads : Reads cfg start clock a handled) :
    a.readErrors = (((handled.filterMap failure).map fun entry => entry.1).reverse.take cfg.maxRecentErrors).filter fun err => err != [] := by
  have size := reads.recentSize
  have listed := @Ring.read_newest _ a.recentErrors a.errorIndex [] reads.recent.inside
  have recent := reads.recent.recent
  rw [size] at recent
  rw [Aggregator.readErrors,reads.config.1,← size,listed,recent,size,List.take_append,List.filter_append]
  have blank : ((List.replicate cfg.maxRecentErrors ([] : Str)).take
      (cfg.maxRecentErrors - ((handled.filterMap failure).map fun entry => entry.1).reverse.length)).filter (fun err => err != []) = [] := by
    refine List.filter_eq_nil_iff.mpr fun err member => ?_
    rw [List.eq_of_mem_replicate (List.mem_of_mem_take member)]
    decide
  rw [blank,List.append_nil]

theorem greatest_perm {first second : Int} {rest more : List Int} (same : (first :: rest).Perm (second :: more)) :
    rest.foldl max first = more.foldl max second := by
  have left : (first :: rest).max? = some (rest.foldl max first) := List.max?_cons'
  have right : (second :: more).max? = some (more.foldl max second) := List.max?_cons'
  obtain ⟨member,top⟩ := List.max?_eq_some_iff.mp left
  obtain ⟨listed,bound⟩ := List.max?_eq_some_iff.mp right
  exact le_antisymm (bound _ (same.mem_iff.mp member)) (top _ (same.mem_iff.mpr listed))

theorem latency_perm {latencies other : List Int} (same : latencies.Perm other) :
    calculateLatencyMetrics latencies = calculateLatencyMetrics other := by
  have kept := same.filter fun lat => decide (0 < lat)
  unfold calculateLatencyMetrics
  generalize latencies.filter (fun lat => decide (0 < lat)) = left at *
  generalize other.filter (fun lat => decide (0 < lat)) = right at *
  cases left with
  | nil => rw [kept.nil_eq]
  | cons first rest =>
    cases right with
    | nil => exact absurd kept.length_eq (by simp)
    | cons second more => simp only [kept.sum_eq,kept.length_eq,greatest_perm kept]

-- The last hundred latencies; the ring is not read in the order they came.
theorem Reads.latencies_read {clock : Int} {a : Aggregator} {handled : List (Int × TelemetryEvent)} (reads : Reads cfg start clock a handled) :
    calculateLatencyMetrics a.latencies =
      calculateLatencyMetrics (((handled.filterMap forwardedAt).map fun entry => entry.2.2).reverse.take 100) := by
  rw [← latency_perm (Ring.newest_perm a.latencies a.latencyIndex),reads.timed.recent,reads.timedSize,List.take_append]
  have blank : ∀ n : Nat, ((List.replicate 100 (0 : Int)).take n).filter (fun lat => decide (0 < lat)) = [] := by
    intro n
    refine List.filter_eq_nil_iff.mpr fun lat member => ?_
    rw [List.eq_of_mem_replicate (List.mem_of_mem_take member)]
    decide
  unfold calculateLatencyMetrics
  rw [List.filter_append,blank,List.append_nil]

-- Telemetry drops events only at a full channel, keeps their order, and a snapshot says of the events handled exactly what they told.
theorem telemetry_exact (positive : 0 < cfg.maxRecentErrors) (path : Machine.Reached Telemetry.step monotone (boot cfg start) s) {now : Int}
    (later : s.clock ≤ now) :
    ((s.handled.map Prod.snd ++ s.eventCh ++ s.moving.toList ++ s.sink).Sublist s.emitted ∧
      s.emitted.length = s.handled.length + s.eventCh.length + s.moving.toList.length + s.sink.length + s.lostAtSink + s.lostAtAggregator ∧
      s.sink.length ≤ sinkSize ∧ s.eventCh.length ≤ cfg.bufferSize) ∧
    let seen := s.aggregator.snapshot now s.eventCh.length
    let forwarded := s.handled.filterMap forwardedAt
    let failures := s.handled.filterMap failure
    (seen.eventsReceived = (s.handled.filterMap receivedAt).length ∧ seen.eventsForwarded = forwarded.length ∧ seen.errorsTotal = failures.length ∧
      (∀ kind, seen.eventsForwardedByKind kind = forwarded.countP fun entry => decide (entry.2.1 = kind)) ∧
      (∀ context, seen.errorsByType context = failures.countP fun entry => decide (entry.2.1 = context)) ∧
      ∀ severity, seen.errorsBySeverity severity = failures.countP fun entry => decide (entry.2.2 = severity)) ∧
    ((seen.syncWindowFrom,seen.syncWindowTo) = lastOf progress (0,0) s.handled ∧ seen.currentSyncMode = lastOf modeSet windowed s.handled ∧
      seen.eventsSinceUpdate = lastOf realtime 0 s.handled ∧ seen.sourceRelayConnected = lastOf (link source) false s.handled ∧
      seen.deepFryRelayConnected = lastOf (link deepfry) false s.handled) ∧
    seen.recentErrors = ((failures.map fun entry => entry.1).reverse.take cfg.maxRecentErrors).filter (fun err => err != []) ∧
    seen.eventsPerSecond = calculateRate cfg (s.handled.filterMap receivedAt) now ∧
    seen.forwardsPerSecond = calculateRate cfg (forwarded.map fun entry => entry.1) now ∧
    (seen.avgLatencyMs,seen.p95LatencyMs) = calculateLatencyMetrics ((forwarded.map fun entry => entry.2.2).reverse.take 100) := by
  have flows : Flows cfg start s := path.invariant _ (Flows.boot positive start) fun flows later moved => flows.step later moved
  obtain ⟨reads,order,total,sinkRoom,channelRoom⟩ := flows
  have config := reads.config.1
  refine ⟨⟨order,total,sinkRoom,channelRoom⟩,⟨reads.received,reads.forwarded,reads.errors,reads.byKind,reads.byType,reads.bySeverity⟩,
    ⟨reads.window,reads.mode,reads.sinceUpdate,reads.sourceLink,reads.deepFryLink⟩,reads.errors_read,?_,?_,reads.latencies_read⟩
  · rw [← reads.eventTimes.rate later,← config]
    rfl
  · rw [← reads.forwardTimes.rate later,← config]
    rfl

end Run

-- Room for one event and for one error; the second event is lost at the sink's goroutine.
def sampleRun : List PipelineStep :=
  [.emitRaw .eventReceived,.emitRaw (.forwarderError [1] [2] .warning),.take,.publish,.take,.publish,.handle 5,
    .emitRaw (.forwarderError [3] [2] .error),.take,.publish,.handle 7]

instance (s : Pipeline) (action : PipelineStep) : Decidable (monotone s action) := by
  unfold monotone
  split <;> infer_instance

theorem telemetry_exact_sample : ∃ s : Pipeline, Machine.Reached step monotone (boot ⟨1,1,10⟩ 0) s ∧ s.lostAtAggregator = 1 ∧
    (s.aggregator.snapshot 9 s.eventCh.length).eventsReceived = (s.handled.filterMap receivedAt).length ∧
    (s.aggregator.snapshot 9 s.eventCh.length).recentErrors =
      ((((s.handled.filterMap failure).map fun entry => entry.1).reverse.take 1).filter fun err => err != []) := by
  obtain ⟨s,path,found⟩ := Machine.replay_final step monotone (boot ⟨1,1,10⟩ 0) sampleRun
    (fun s : Pipeline => decide (s.lostAtAggregator = 1 ∧ s.clock ≤ 9)) (by decide +kernel) (by decide +kernel)
  obtain ⟨lost,later⟩ := of_decide_eq_true found
  obtain ⟨_,counts,_,recent,_⟩ := telemetry_exact (by decide) path later
  exact ⟨s,path,lost,counts.1,recent⟩

end DeepFry.EventForwarder.Telemetry
