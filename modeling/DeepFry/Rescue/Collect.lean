import DeepFry.Rescue.Export

namespace DeepFry.Rescue.Export
open Machine

-- What collect has grouped, and that grouping keeps export order within a pubkey.
def group (events : List RawEvent) : List (Bytes × List RawEvent) := events.foldl (fun groups event => appendTo event groups) []

structure Grouped (groups : List (Bytes × List RawEvent)) (events : List RawEvent) : Prop where
  keyed : (groups.map Prod.fst).Nodup
  entries : ∀ pubkey members, (pubkey,members) ∈ groups ↔
    members = events.filter (fun event => event.pubkey = pubkey) ∧ members ≠ []

theorem appendTo_keys (event : RawEvent) (groups : List (Bytes × List RawEvent)) (pubkey : Bytes) :
    pubkey ∈ (appendTo event groups).map Prod.fst ↔ pubkey ∈ groups.map Prod.fst ∨ pubkey = event.pubkey := by
  induction groups with
  | nil => simp [appendTo]
  | cons entry rest ih =>
    obtain ⟨key,members⟩ := entry
    rw [appendTo]
    split
    · rename_i same
      rw [List.map_cons,List.map_cons,List.mem_cons,same]
      constructor
      · exact Or.inl
      · intro found
        obtain found | found := found
        · exact found
        · exact .inl found
    · rw [List.map_cons,List.map_cons,List.mem_cons,List.mem_cons,ih,or_assoc]

theorem appendTo_keyed {event : RawEvent} {groups : List (Bytes × List RawEvent)}
    (keyed : (groups.map Prod.fst).Nodup) : ((appendTo event groups).map Prod.fst).Nodup := by
  induction groups with
  | nil => simp [appendTo]
  | cons entry rest ih =>
    obtain ⟨key,members⟩ := entry
    rw [List.map_cons,List.nodup_cons] at keyed
    rw [appendTo]
    split
    · rw [List.map_cons,List.nodup_cons]
      exact keyed
    · rename_i apart
      rw [List.map_cons,List.nodup_cons]
      refine ⟨?_,ih keyed.2⟩
      intro again
      obtain older | same := (appendTo_keys event rest key).mp again
      · exact keyed.1 older
      · exact apart same

-- The entry under the event's key grows by it, and no other entry changes.
theorem appendTo_mem {event : RawEvent} {groups : List (Bytes × List RawEvent)} (keyed : (groups.map Prod.fst).Nodup)
    (pubkey : Bytes) (members : List RawEvent) : (pubkey,members) ∈ appendTo event groups ↔
      (pubkey ≠ event.pubkey ∧ (pubkey,members) ∈ groups) ∨ (pubkey = event.pubkey ∧
        ((∃ older, (pubkey,older) ∈ groups ∧ members = older ++ [event]) ∨
          (pubkey ∉ groups.map Prod.fst ∧ members = [event]))) := by
  induction groups with
  | nil => simp [appendTo]
  | cons entry rest ih =>
    obtain ⟨key,held⟩ := entry
    rw [List.map_cons,List.nodup_cons] at keyed
    rw [appendTo]
    by_cases same : key = event.pubkey
    · rw [if_pos same]
      subst same
      have absent : ∀ older, (event.pubkey,older) ∉ rest := by
        intro older member
        exact keyed.1 (List.mem_map.mpr ⟨_,member,rfl⟩)
      by_cases own : pubkey = event.pubkey
      · subst own
        simp [absent]
      · simp [own]
    · rw [if_neg same,List.mem_cons,ih keyed.2]
      by_cases own : pubkey = event.pubkey
      · subst own
        simp [Ne.symm same]
      · simp [own]

theorem grouped_append {groups : List (Bytes × List RawEvent)} {events : List RawEvent} (grouped : Grouped groups events)
    (event : RawEvent) : Grouped (appendTo event groups) (events ++ [event]) := by
  refine ⟨appendTo_keyed grouped.keyed,?_⟩
  intro pubkey members
  rw [appendTo_mem grouped.keyed,List.filter_append]
  by_cases own : pubkey = event.pubkey
  · subst own
    have last : [event].filter (fun other => other.pubkey = event.pubkey) = [event] := by simp
    have missing : event.pubkey ∉ groups.map Prod.fst ↔
        events.filter (fun other => other.pubkey = event.pubkey) = [] := by
      constructor
      · intro absent
        by_contra present
        exact absent (List.mem_map.mpr ⟨_,(grouped.entries _ _).mpr ⟨rfl,present⟩,rfl⟩)
      · intro empty found
        obtain ⟨⟨key,older⟩,member,same⟩ := List.mem_map.mp found
        subst same
        obtain ⟨listed,filled⟩ := (grouped.entries _ _).mp member
        exact filled (listed.trans empty)
    rw [last]
    constructor
    · intro found
      obtain ⟨apart,_⟩ | ⟨_,⟨older,member,rfl⟩ | ⟨absent,rfl⟩⟩ := found
      · exact absurd rfl apart
      · rw [((grouped.entries _ _).mp member).1]
        simp
      · rw [missing.mp absent]
        simp
    · intro ⟨listed,_⟩
      refine .inr ⟨rfl,?_⟩
      by_cases empty : events.filter (fun other => other.pubkey = event.pubkey) = []
      · exact .inr ⟨missing.mpr empty,by rw [listed,empty,List.nil_append]⟩
      · exact .inl ⟨_,(grouped.entries _ _).mpr ⟨rfl,empty⟩,listed⟩
  · have last : [event].filter (fun other => other.pubkey = pubkey) = [] := by simp [Ne.symm own]
    rw [last,List.append_nil,← grouped.entries]
    simp [own]

theorem grouped_group (events : List RawEvent) : Grouped (group events) events := by
  have fold : ∀ (later earlier : List RawEvent) (groups : List (Bytes × List RawEvent)), Grouped groups earlier →
      Grouped (later.foldl (fun groups event => appendTo event groups) groups) (earlier ++ later) := by
    intro later
    induction later with
    | nil =>
      intro earlier groups grouped
      rw [List.append_nil]
      exact grouped
    | cons event rest ih =>
      intro earlier groups grouped
      have next := ih _ _ (grouped_append grouped event)
      rw [List.append_assoc] at next
      exact next
  exact fold events [] [] ⟨List.nodup_nil,by simp⟩

-- What the goroutine has still to send.
def Producer.pending (unmarshal : Bytes → Option MinEvent) : Producer → List RawEvent
  | .scanning lines => lines.filterMap (parse unmarshal)
  | .sending event lines => event :: lines.filterMap (parse unmarshal)
  | _ => []

-- The export has failed, and collect is told or has been.
def State.Told (s : State) : Prop :=
  (∃ err, s.producer = .failing err) ∨ s.errs ≠ [] ∨ ∃ err, s.consumer = .returned (some err)

-- Nothing is lost or reordered between the export and the groups; a cancellation drops a tail, and fails the export.
structure Held (unmarshal : Bytes → Option MinEvent) (limit : Int) (lines : List Bytes) (taken dropped : List RawEvent)
    (s : State) : Prop where
  groups : s.byPubkey = group taken
  total : s.total = taken.length
  order : taken ++ s.events ++ s.producer.pending unmarshal ++ dropped = lines.filterMap (parse unmarshal)
  kept : dropped = [] ∨ s.Told
  room : s.events.length ≤ eventsCapacity
  below : s.consumer = .receiving → limit > 0 → (s.total : Int) < limit
  left : s.consumer ≠ .receiving → (limit > 0 ∧ (s.total : Int) = limit) ∨
    (s.eventsClosed = true ∧ s.events = [] ∧ (limit > 0 → (s.total : Int) ≤ limit))
  eventsClosed : s.eventsClosed = true ↔ s.producer = .returned
  errsClosed : s.errsClosed = true ↔ s.producer = .closingEvents ∨ s.producer = .returned
  answered : s.consumer = .returned none → s.errs = [] ∧ s.errsClosed = true

section Steps

variable {unmarshal : Bytes → Option MinEvent} {limit : Int} {lines : List Bytes} {s next : State} {action : Action}

theorem start_held : Held unmarshal limit lines [] [] (start lines) := by
  refine ⟨rfl,rfl,?_,.inl rfl,Nat.zero_le _,?_,?_,?_,?_,nofun⟩
  · simp [start,Producer.pending]
  · intro _ positive
    exact positive
  · intro left
    exact absurd rfl left
  · simp [start]
  · simp [start]

theorem group_append (taken : List RawEvent) (event : RawEvent) : group (taken ++ [event]) = appendTo event (group taken) := by
  unfold group
  rw [List.foldl_append]
  rfl

theorem Held.unfailing {taken dropped : List RawEvent} (held : Held unmarshal limit lines taken dropped s)
    (closed : s.errsClosed = true) {err : String} : s.producer ≠ .failing err := by
  rcases held.errsClosed.mp closed with closing | ended
  · rw [closing]
    exact Producer.noConfusion
  · rw [ended]
    exact Producer.noConfusion

theorem Held.told {taken dropped : List RawEvent} (held : Held unmarshal limit lines taken dropped s) (told : s.Told)
    (moved : Moved unmarshal limit s action next) : next.Told := by
  cases moved with
  | cancel _ => exact told
  | skip scanning _ | scan scanning _ | clean scanning =>
    rcases told with ⟨err,failing⟩ | rest
    · cases scanning.symm.trans failing
    · exact .inr rest
  | send sending _ =>
    rcases told with ⟨err,failing⟩ | rest
    · cases sending.symm.trans failing
    · exact .inr rest
  | done _ _ | broken _ _ => exact .inl ⟨_,rfl⟩
  | fail _ => exact .inr (.inl (by simp))
  | closeErrs closing | closeEvents closing =>
    rcases told with ⟨err,failing⟩ | rest
    · cases closing.symm.trans failing
    · exact .inr rest
  | receive receiving _ | drained receiving _ _ =>
    rcases told with failing | some_err | ⟨err,returned⟩
    · exact .inl failing
    · exact .inr (.inl some_err)
    · cases receiving.symm.trans returned
  | err _ _ => exact .inr (.inr ⟨_,rfl⟩)
  | none waiting empty closed =>
    rcases told with ⟨err,failing⟩ | some_err | ⟨err,returned⟩
    · exact absurd failing (held.unfailing closed)
    · exact absurd empty some_err
    · cases waiting.symm.trans returned

theorem Held.silent {taken dropped : List RawEvent} (held : Held unmarshal limit lines taken dropped s)
    (moved : Moved unmarshal limit s action next) (returned : next.consumer = .returned none) :
    next.errs = [] ∧ next.errsClosed = true := by
  cases moved with
  | fail failing => exact absurd failing (held.unfailing (held.answered returned).2)
  | closeErrs _ => exact ⟨(held.answered returned).1,rfl⟩
  | receive _ _ =>
    dsimp only at returned
    split at returned
    · cases returned
    · cases returned
  | drained _ _ _ | err _ _ => cases returned
  | none _ empty closed => exact ⟨empty,closed⟩
  | _ => exact held.answered returned

theorem moved_held {taken dropped : List RawEvent} (held : Held unmarshal limit lines taken dropped s)
    (moved : Moved unmarshal limit s action next) : ∃ taken dropped, Held unmarshal limit lines taken dropped next := by
  have silent := held.silent moved
  have kept : dropped = [] ∨ next.Told := held.kept.imp_right fun told => held.told told moved
  obtain ⟨groups,total,order,_,room,below,left,eventsClosed,errsClosed,_⟩ := held
  cases moved with
  | cancel _ => exact ⟨taken,dropped,groups,total,order,kept,room,below,left,eventsClosed,errsClosed,silent⟩
  | skip scanning skipped =>
    simp only [scanning,Producer.pending,List.filterMap_cons,skipped] at order
    rw [scanning] at eventsClosed errsClosed
    exact ⟨taken,dropped,groups,total,order,kept,room,below,left,by simpa using eventsClosed,by simpa using errsClosed,silent⟩
  | scan scanning parsed =>
    simp only [scanning,Producer.pending,List.filterMap_cons,parsed] at order
    rw [scanning] at eventsClosed errsClosed
    exact ⟨taken,dropped,groups,total,order,kept,room,below,left,by simpa using eventsClosed,by simpa using errsClosed,silent⟩
  | @send event rest sending free =>
    simp only [sending,Producer.pending] at order
    rw [sending] at eventsClosed errsClosed
    refine ⟨taken,dropped,groups,total,?_,kept,?_,below,?_,by simpa using eventsClosed,by simpa using errsClosed,silent⟩
    · rw [← order]
      simp [Producer.pending]
    · simp only [List.length_append,List.length_singleton]
      omega
    · intro gone
      obtain reached | ⟨closed,_⟩ := left gone
      · exact .inl reached
      · exact absurd (eventsClosed.mp closed) Producer.noConfusion
  | @done event rest sending cancelled =>
    simp only [sending,Producer.pending] at order
    rw [sending] at eventsClosed errsClosed
    refine ⟨taken,event :: rest.filterMap (parse unmarshal) ++ dropped,groups,total,?_,.inr (.inl ⟨_,rfl⟩),room,below,left,
      by simpa using eventsClosed,by simpa using errsClosed,silent⟩
    · rw [← order]
      simp [Producer.pending]
  | clean scanning =>
    simp only [scanning,Producer.pending,List.filterMap_nil] at order
    rw [scanning] at eventsClosed errsClosed
    exact ⟨taken,dropped,groups,total,order,kept,room,below,left,by simpa using eventsClosed,by simpa using errsClosed,silent⟩
  | broken scanning _ =>
    simp only [scanning,Producer.pending,List.filterMap_nil] at order
    rw [scanning] at eventsClosed errsClosed
    exact ⟨taken,dropped,groups,total,order,kept,room,below,left,by simpa using eventsClosed,by simpa using errsClosed,silent⟩
  | fail failing =>
    simp only [failing,Producer.pending] at order
    rw [failing] at eventsClosed errsClosed
    exact ⟨taken,dropped,groups,total,order,kept,room,below,left,by simpa using eventsClosed,by simpa using errsClosed,silent⟩
  | closeErrs closing =>
    simp only [closing,Producer.pending] at order
    rw [closing] at eventsClosed
    exact ⟨taken,dropped,groups,total,order,kept,room,below,left,by simpa using eventsClosed,by simp,silent⟩
  | closeEvents closing =>
    simp only [closing,Producer.pending] at order
    rw [closing] at eventsClosed errsClosed
    refine ⟨taken,dropped,groups,total,order,kept,room,below,?_,by simp,by simpa using errsClosed,silent⟩
    intro gone
    obtain reached | ⟨closed,_⟩ := left gone
    · exact .inl reached
    · exact absurd (eventsClosed.mp closed) Producer.noConfusion
  | @receive event rest receiving there =>
    rw [there] at order room
    refine ⟨taken ++ [event],dropped,?_,?_,?_,kept,?_,?_,?_,eventsClosed,errsClosed,silent⟩
    · rw [group_append,← groups]
    · simp [total]
    · rw [← order]
      simp
    · exact Nat.le_of_succ_le room
    · intro still positive
      dsimp only at still
      split at still
      · cases still
      · rename_i under
        dsimp only
        omega
    · intro gone
      dsimp only at gone
      split at gone
      · rename_i reached
        have before := below receiving reached.1
        dsimp only
        exact .inl ⟨reached.1,by omega⟩
      · exact absurd rfl gone
  | drained receiving empty closed =>
    refine ⟨taken,dropped,groups,total,order,kept,room,nofun,?_,eventsClosed,errsClosed,silent⟩
    intro _
    exact .inr ⟨closed,empty,fun positive => (below receiving positive).le⟩
  | err waiting _ =>
    refine ⟨taken,dropped,groups,total,order,kept,room,nofun,?_,eventsClosed,errsClosed,silent⟩
    intro _
    exact left (by rw [waiting]; exact Consumer.noConfusion)
  | none waiting _ _ =>
    refine ⟨taken,dropped,groups,total,order,kept,room,nofun,?_,eventsClosed,errsClosed,silent⟩
    intro _
    exact left (by rw [waiting]; exact Consumer.noConfusion)

end Steps

-- Runs without a cancellation whose command ends cleanly.
def quiet (_ : State) : Action → Prop
  | .cancel => False
  | .finish ending => ending = .clean
  | _ => True

structure Calm (s : State) : Prop where
  cancelled : s.cancelled = false
  errs : s.errs = []
  producer : ∀ err, s.producer ≠ .failing err
  consumer : ∀ err, s.consumer ≠ .returned (some err)

def expected (limit : Int) (events : List RawEvent) : List RawEvent :=
  if limit > 0 then events.take limit.toNat else events

structure Collected (limit : Int) (events : List RawEvent) (s : State) : Prop where
  returned : s.consumer = .returned none
  groups : Grouped s.byPubkey (expected limit events)
  total : s.total = (expected limit events).length

-- collect waits on errs while the exporter waits for room in events.
structure Deadlocked (s : State) : Prop where
  waiting : s.consumer = .waiting
  sending : ∃ event rest, s.producer = .sending event rest
  full : s.events.length = eventsCapacity

section Quiet

variable {unmarshal : Bytes → Option MinEvent} {limit : Int} {lines : List Bytes} {s next : State} {action : Action}

theorem moved_calm (calm : Calm s) (allowed : quiet s action) (moved : Moved unmarshal limit s action next) : Calm next := by
  obtain ⟨cancelled,errs,producer,consumer⟩ := calm
  cases moved with
  | cancel _ => cases allowed
  | skip _ _ => exact ⟨cancelled,errs,fun _ => Producer.noConfusion,consumer⟩
  | scan _ _ => exact ⟨cancelled,errs,fun _ => Producer.noConfusion,consumer⟩
  | send _ _ => exact ⟨cancelled,errs,fun _ => Producer.noConfusion,consumer⟩
  | done _ stopped => exact absurd (cancelled.symm.trans stopped) Bool.noConfusion
  | clean _ => exact ⟨cancelled,errs,fun _ => Producer.noConfusion,consumer⟩
  | broken _ dirty => exact absurd allowed dirty
  | fail failing => exact absurd failing (producer _)
  | closeErrs _ => exact ⟨cancelled,errs,fun _ => Producer.noConfusion,consumer⟩
  | closeEvents _ => exact ⟨cancelled,errs,fun _ => Producer.noConfusion,consumer⟩
  | receive _ _ =>
    refine ⟨cancelled,errs,producer,?_⟩
    intro err
    dsimp only
    split <;> exact Consumer.noConfusion
  | drained _ _ _ => exact ⟨cancelled,errs,producer,fun _ => Consumer.noConfusion⟩
  | err _ there => exact absurd (there.symm.trans errs) (List.cons_ne_nil _ _)
  | none _ _ _ =>
    refine ⟨cancelled,errs,producer,?_⟩
    intro err same
    cases same

-- The invariant of a quiet run.
def Running (unmarshal : Bytes → Option MinEvent) (limit : Int) (lines : List Bytes) (s : State) : Prop :=
  Calm s ∧ ∃ taken dropped, Held unmarshal limit lines taken dropped s

theorem start_running : Running unmarshal limit lines (start lines) :=
  ⟨⟨rfl,rfl,fun _ => Producer.noConfusion,fun _ => Consumer.noConfusion⟩,[],[],start_held⟩

theorem step_running (running : Running unmarshal limit lines s) (allowed : quiet s action)
    (moved : step unmarshal limit s action = some next) : Running unmarshal limit lines next := by
  obtain ⟨calm,taken,dropped,held⟩ := running
  exact ⟨moved_calm calm allowed (step_moved moved),moved_held held (step_moved moved)⟩

def Producer.work : Producer → Nat
  | .scanning lines => 3 * lines.length + 4
  | .sending _ lines => 3 * lines.length + 6
  | .failing _ => 3
  | .closingErrs => 2
  | .closingEvents => 1
  | .returned => 0

def Consumer.work : Consumer → Nat
  | .receiving => 2
  | .waiting => 1
  | .returned _ => 0

def work (s : State) : Nat := s.producer.work + s.events.length + s.consumer.work + if s.cancelled then 0 else 1

theorem moved_work (moved : Moved unmarshal limit s action next) : work next < work s := by
  unfold work
  cases moved with
  | cancel fresh => simp [fresh]
  | skip scanning _ =>
    simp only [scanning,Producer.work,List.length_cons]
    omega
  | scan scanning _ =>
    simp only [scanning,Producer.work,List.length_cons]
    omega
  | send sending _ =>
    simp only [sending,Producer.work,List.length_append,List.length_singleton]
    omega
  | done sending _ =>
    simp only [sending,Producer.work]
    omega
  | clean scanning =>
    simp only [scanning,Producer.work]
    omega
  | broken scanning _ =>
    simp only [scanning,Producer.work]
    omega
  | fail failing =>
    simp only [failing,Producer.work]
    omega
  | closeErrs closing =>
    simp only [closing,Producer.work]
    omega
  | closeEvents closing =>
    simp only [closing,Producer.work]
    omega
  | receive receiving there =>
    simp only [receiving,there,List.length_cons]
    split <;> simp only [Consumer.work] <;> omega
  | drained receiving _ _ =>
    simp only [receiving,Consumer.work]
    omega
  | err waiting _ =>
    simp only [waiting,Consumer.work]
    omega
  | none waiting _ _ =>
    simp only [waiting,Consumer.work]
    omega

-- A tail that was dropped fails the export.
theorem Held.whole {taken dropped : List RawEvent} (held : Held unmarshal limit lines taken dropped s)
    (returned : s.consumer = .returned none) : dropped = [] := by
  obtain ⟨silent,closed⟩ := held.answered returned
  rcases held.kept with nothing | ⟨err,failing⟩ | some_err | ⟨err,told⟩
  · exact nothing
  · exact absurd failing (held.unfailing closed)
  · exact absurd silent some_err
  · cases returned.symm.trans told

theorem Held.expected {taken dropped : List RawEvent} (held : Held unmarshal limit lines taken dropped s)
    (returned : s.consumer = .returned none) : taken = expected limit (lines.filterMap (parse unmarshal)) := by
  have left := held.left (by rw [returned]; exact Consumer.noConfusion)
  rw [← held.order,held.whole returned,List.append_nil,List.append_assoc]
  unfold Export.expected
  obtain ⟨positive,reached⟩ | ⟨closed,empty,under⟩ := left
  · have size : limit.toNat = taken.length := by
      have total := held.total
      omega
    rw [if_pos positive,size,List.take_left]
  · rw [empty,held.eventsClosed.mp closed]
    simp only [Producer.pending,List.append_nil]
    split
    · rename_i positive
      have below := under positive
      have total := held.total
      exact (List.take_of_length_le (by omega)).symm
    · rfl

theorem returned_collected (running : Running unmarshal limit lines s) (returned : s.consumer = .returned none) :
    Collected limit (lines.filterMap (parse unmarshal)) s := by
  obtain ⟨_,taken,dropped,held⟩ := running
  have all := held.expected returned
  refine ⟨returned,?_,?_⟩
  · rw [held.groups,← all]
    exact grouped_group taken
  · rw [held.total,all]

variable (unmarshal limit) in
theorem scan_enabled {line : Bytes} {rest : List Bytes} (scanning : s.producer = .scanning (line :: rest)) :
    ∃ next, step unmarshal limit s .scan = some next := by
  simp only [step,stepProducer,scanning]
  cases parse unmarshal line with
  | none => exact ⟨_,rfl⟩
  | some event => exact ⟨_,rfl⟩

variable (unmarshal limit) in
theorem receive_enabled {event : RawEvent} {rest : List RawEvent} (receiving : s.consumer = .receiving)
    (there : s.events = event :: rest) : ∃ next, step unmarshal limit s .receive = some next := by
  simp only [step,stepConsumer,receiving,there]
  exact ⟨_,rfl⟩

-- With room for all that a limit leaves behind, some step is left until collect has returned.
theorem running_live (enough : limit ≤ 0 ∨ ((lines.filterMap (parse unmarshal)).length : Int) ≤ limit + eventsCapacity)
    (running : Running unmarshal limit lines s) (unmet : ¬ Collected limit (lines.filterMap (parse unmarshal)) s) :
    ∃ action next, quiet s action ∧ step unmarshal limit s action = some next := by
  have held := running.2
  obtain ⟨taken,dropped,held⟩ := held
  have calm := running.1
  cases producing : s.producer with
  | scanning rest =>
    cases rest with
    | nil => exact ⟨.finish .clean,_,rfl,by simp only [step,stepProducer,producing]; rfl⟩
    | cons line rest =>
      obtain ⟨next,moved⟩ := scan_enabled unmarshal limit producing
      exact ⟨.scan,next,trivial,moved⟩
  | failing err => exact absurd producing (calm.producer err)
  | closingErrs => exact ⟨.closeErrs,_,trivial,by simp only [step,stepProducer,producing]; rfl⟩
  | closingEvents => exact ⟨.closeEvents,_,trivial,by simp only [step,stepProducer,producing]; rfl⟩
  | sending event rest =>
    by_cases room : s.events.length < eventsCapacity
    · exact ⟨.send,_,trivial,by simp only [step,stepProducer,producing,if_pos room]; rfl⟩
    have full : s.events.length = eventsCapacity := Nat.le_antisymm held.room (Nat.le_of_not_lt room)
    have open_ : s.eventsClosed ≠ true := by
      intro closed
      exact absurd (producing.symm.trans (held.eventsClosed.mp closed)) Producer.noConfusion
    cases consuming : s.consumer with
    | receiving =>
      cases there : s.events with
      | nil =>
        rw [there] at full
        cases full
      | cons first others =>
        obtain ⟨next,moved⟩ := receive_enabled unmarshal limit consuming there
        exact ⟨.receive,next,trivial,moved⟩
    | waiting =>
      -- Only the limit ends the reading early, and then the events left over fit.
      obtain ⟨positive,reached⟩ | ⟨closed,_⟩ := held.left (by rw [consuming]; exact Consumer.noConfusion)
      · have count := congrArg List.length held.order
        have total := held.total
        simp only [List.length_append,producing,Producer.pending,List.length_cons] at count
        omega
      · exact absurd closed open_
    | returned err =>
      cases err with
      | none => exact absurd (returned_collected running consuming) unmet
      | some err => exact absurd consuming (calm.consumer err)
  | returned =>
    have errsClosed := held.errsClosed.mpr (.inr producing)
    have closed := held.eventsClosed.mpr producing
    cases consuming : s.consumer with
    | receiving =>
      cases there : s.events with
      | nil => exact ⟨.drained,_,trivial,by simp only [step,stepConsumer,consuming,there,closed]; rfl⟩
      | cons first others =>
        obtain ⟨next,moved⟩ := receive_enabled unmarshal limit consuming there
        exact ⟨.receive,next,trivial,moved⟩
    | waiting => exact ⟨.answer,_,trivial,by simp only [step,stepConsumer,consuming,calm.errs,errsClosed]; rfl⟩
    | returned err =>
      cases err with
      | none => exact absurd (returned_collected running consuming) unmet
      | some err => exact absurd consuming (calm.consumer err)

theorem running_free (enough : limit ≤ 0 ∨ ((lines.filterMap (parse unmarshal)).length : Int) ≤ limit + eventsCapacity)
    (running : Running unmarshal limit lines s) : ¬ Deadlocked s := by
  intro ⟨waiting,⟨event,rest,sending⟩,full⟩
  obtain ⟨_,taken,dropped,held⟩ := running
  obtain ⟨positive,reached⟩ | ⟨closed,_⟩ := held.left (by rw [waiting]; exact Consumer.noConfusion)
  · have count := congrArg List.length held.order
    have total := held.total
    simp only [List.length_append,sending,Producer.pending,List.length_cons] at count
    omega
  · exact absurd (sending.symm.trans (held.eventsClosed.mp closed)) Producer.noConfusion

end Quiet

section Stuck

variable {unmarshal : Bytes → Option MinEvent} {limit : Int}

-- The goroutine between two lines, with the channels open.
def between (lines : List Bytes) (events : List RawEvent) (consumer : Consumer) (byPubkey : List (Bytes × List RawEvent))
    (total : Nat) : State := ⟨.scanning lines,events,false,[],false,consumer,byPubkey,total,false⟩

variable {line : Bytes} {lines : List Bytes} {event : RawEvent} {events : List RawEvent} {consumer : Consumer}
  {byPubkey : List (Bytes × List RawEvent)} {total : Nat}

theorem between_scan (parsed : parse unmarshal line = some event) :
    step unmarshal limit (between (line :: lines) events consumer byPubkey total) .scan =
      some {between lines events consumer byPubkey total with producer := .sending event lines} := by
  simp [step,stepProducer,between,parsed]

theorem between_send (room : events.length < eventsCapacity) :
    step unmarshal limit {between lines events consumer byPubkey total with producer := .sending event lines} .send =
      some (between lines (events ++ [event]) consumer byPubkey total) := by
  simp [step,stepProducer,between,room]

theorem between_sent {s : State} (parsed : parse unmarshal line = some event) (room : events.length < eventsCapacity)
    (path : Reached (step unmarshal limit) quiet (between lines (events ++ [event]) consumer byPubkey total) s) :
    Reached (step unmarshal limit) quiet (between (line :: lines) events consumer byPubkey total) s := by
  refine Reached.head ?_ (between_scan parsed) (Reached.head ?_ (between_send room) path)
  · trivial
  · trivial

theorem between_received {s : State} (path : Reached (step unmarshal limit) quiet (between lines []
      (if limit > 0 ∧ ((total + 1 : Nat) : Int) ≥ limit then .waiting else .receiving) (appendTo event byPubkey) (total + 1)) s) :
    Reached (step unmarshal limit) quiet (between lines [event] .receiving byPubkey total) s := by
  have received : step unmarshal limit (between lines [event] .receiving byPubkey total) .receive = some (between lines []
      (if limit > 0 ∧ ((total + 1 : Nat) : Int) ≥ limit then .waiting else .receiving)
      (appendTo event byPubkey) (total + 1)) := by
    simp [step,stepConsumer,between]
  refine Reached.head ?_ received path
  trivial

-- The consumer keeps up until it has read as many events as the limit, and leaves.
theorem reach_limit {front : List Bytes} (parsed : ∀ line ∈ front, (parse unmarshal line).isSome)
    (filled : front ≠ []) (reaches : ((total + front.length : Nat) : Int) = limit) :
    ∃ groups, Reached (step unmarshal limit) quiet (between (front ++ lines) [] .receiving byPubkey total)
      (between lines [] .waiting groups (total + front.length)) := by
  induction front generalizing byPubkey total with
  | nil => exact absurd rfl filled
  | cons line rest ih =>
    obtain ⟨event,read⟩ := Option.isSome_iff_exists.mp (parsed line List.mem_cons_self)
    rw [List.length_cons] at reaches
    by_cases last : rest = []
    · subst last
      have left : limit > 0 ∧ ((total + 1 : Nat) : Int) ≥ limit := by
        rw [List.length_nil] at reaches
        omega
      refine ⟨appendTo event byPubkey,between_sent read (Nat.succ_pos _) (between_received ?_)⟩
      rw [if_pos left]
      exact .refl
    · have filled := List.length_pos_iff.mpr last
      have more : ¬ (limit > 0 ∧ ((total + 1 : Nat) : Int) ≥ limit) := by omega
      have later := @ih (appendTo event byPubkey) (total + 1)
        (fun other member => parsed other (List.mem_cons_of_mem line member)) last (by omega)
      obtain ⟨groups,path⟩ := later
      have count : total + 1 + rest.length = total + (line :: rest).length := by
        rw [List.length_cons]
        omega
      rw [count] at path
      refine ⟨groups,between_sent read (Nat.succ_pos _) (between_received ?_)⟩
      rw [if_neg more]
      exact path

-- With nobody reading, the channel fills.
theorem reach_full {front : List Bytes} (parsed : ∀ line ∈ front, (parse unmarshal line).isSome)
    (fits : events.length + front.length ≤ eventsCapacity) :
    ∃ filled, filled.length = events.length + front.length ∧ Reached (step unmarshal limit) quiet
      (between (front ++ lines) events .waiting byPubkey total) (between lines filled .waiting byPubkey total) := by
  induction front generalizing events with
  | nil => exact ⟨events,rfl,.refl⟩
  | cons line rest ih =>
    obtain ⟨event,read⟩ := Option.isSome_iff_exists.mp (parsed line List.mem_cons_self)
    rw [List.length_cons] at fits
    have later := @ih (events ++ [event]) (fun other member => parsed other (List.mem_cons_of_mem line member))
      (by rw [List.length_append,List.length_singleton]; omega)
    obtain ⟨filled,size,path⟩ := later
    refine ⟨filled,?_,between_sent read (by omega) path⟩
    rw [size,List.length_append,List.length_singleton,List.length_cons]
    omega

-- One line more than the limit and the channel's room leaves both waiting.
theorem reach_deadlock {lines : List Bytes} (wellFormed : ∀ line ∈ lines, (parse unmarshal line).isSome)
    (positive : limit > 0) (beyond : (lines.length : Int) > limit + eventsCapacity) :
    ∃ s, Reached (step unmarshal limit) quiet (start lines) s ∧ Deadlocked s := by
  have whole : lines = lines.take limit.toNat ++ ((lines.drop limit.toNat).take eventsCapacity ++
      (lines.drop limit.toNat).drop eventsCapacity) := by
    rw [List.take_append_drop,List.take_append_drop]
  have front : (lines.take limit.toNat).length = limit.toNat := by
    rw [List.length_take]
    omega
  have middle : ((lines.drop limit.toNat).take eventsCapacity).length = eventsCapacity := by
    rw [List.length_take,List.length_drop]
    omega
  have back : ((lines.drop limit.toNat).drop eventsCapacity).length > 0 := by
    rw [List.length_drop,List.length_drop]
    omega
  cases rest : (lines.drop limit.toNat).drop eventsCapacity with
  | nil =>
    rw [rest] at back
    cases back
  | cons line others =>
    have inFront : ∀ other ∈ lines.take limit.toNat, (parse unmarshal other).isSome := by
      intro other member
      exact wellFormed other (List.mem_of_mem_take member)
    have inMiddle : ∀ other ∈ (lines.drop limit.toNat).take eventsCapacity, (parse unmarshal other).isSome := by
      intro other member
      exact wellFormed other (List.mem_of_mem_drop (List.mem_of_mem_take member))
    have last : line ∈ lines := by
      apply List.mem_of_mem_drop
      apply List.mem_of_mem_drop
      rw [rest]
      exact List.mem_cons_self
    obtain ⟨event,read⟩ := Option.isSome_iff_exists.mp (wellFormed line last)
    have filled : lines.take limit.toNat ≠ [] := by
      intro empty
      rw [empty] at front
      simp only [List.length_nil] at front
      omega
    obtain ⟨groups,reading⟩ := @reach_limit unmarshal limit
      ((lines.drop limit.toNat).take eventsCapacity ++ line :: others) [] 0 (lines.take limit.toNat) inFront filled
      (by rw [front]; omega)
    obtain ⟨held,size,filling⟩ := @reach_full unmarshal limit (line :: others) [] groups
      (0 + (lines.take limit.toNat).length) ((lines.drop limit.toNat).take eventsCapacity) inMiddle (by simp [middle])
    rw [← rest,← whole] at reading
    rw [← rest] at filling
    have path := reading.trans filling
    rw [rest] at path
    refine ⟨_,.step path ?_ (between_scan read),⟨rfl,⟨event,others,rfl⟩,?_⟩⟩
    · trivial
    · change held.length = eventsCapacity
      rw [size,middle,List.length_nil,Nat.zero_add]

end Stuck

-- Two that wait for each other wait for good.
theorem deadlocked_final {unmarshal : Bytes → Option MinEvent} {limit : Int} {lines : List Bytes} {s : State}
    (running : Running unmarshal limit lines s) (deadlocked : Deadlocked s) (action : Action) (allowed : quiet s action) :
    step unmarshal limit s action = none := by
  obtain ⟨waiting,⟨event,rest,sending⟩,full⟩ := deadlocked
  obtain ⟨calm,taken,dropped,held⟩ := running
  have open_ : s.errsClosed = false := by
    cases closed : s.errsClosed with
    | false => rfl
    | true =>
      obtain same | same := held.errsClosed.mp closed <;> exact absurd (sending.symm.trans same) Producer.noConfusion
  cases action with
  | cancel => cases allowed
  | send => simp [step,stepProducer,sending,full]
  | done => simp [step,stepProducer,sending,calm.cancelled]
  | answer => simp [step,stepConsumer,waiting,calm.errs,open_]
  | receive => simp [step,stepConsumer,waiting]
  | drained => simp [step,stepConsumer,waiting]
  | scan => simp [step,stepProducer,sending]
  | finish ending => simp [step,stepProducer,sending]
  | fail => simp [step,stepProducer,sending]
  | closeErrs => simp [step,stepProducer,sending]
  | closeEvents => simp [step,stepProducer,sending]

theorem collect_returns (unmarshal : Bytes → Option MinEvent) (lines : List Bytes)
    (wellFormed : ∀ line ∈ lines, (parse unmarshal line).isSome) (limit : Int) :
    ((∀ s, Reached (step unmarshal limit) quiet (start lines) s → ¬ Deadlocked s) ∧
      Inevitable (step unmarshal limit) quiet (Collected limit (lines.filterMap (parse unmarshal))) (start lines)) ↔
    limit ≤ 0 ∨ (lines.length : Int) ≤ limit + 256 := by
  have count : (lines.filterMap (parse unmarshal)).length = lines.length :=
    List.filterMap_length_eq_length.mpr wellFormed
  constructor
  · intro ⟨free,_⟩
    by_contra beyond
    simp only [not_or,not_le] at beyond
    obtain ⟨s,path,deadlocked⟩ := reach_deadlock wellFormed beyond.1 beyond.2
    exact free s path deadlocked
  · intro enough
    have fits : limit ≤ 0 ∨ ((lines.filterMap (parse unmarshal)).length : Int) ≤ limit + eventsCapacity := by
      rw [count]
      exact enough
    constructor
    · intro s path
      exact running_free fits (path.invariant (Running unmarshal limit lines) start_running step_running)
    · exact .of_measure (Running unmarshal limit lines) work step_running
        (fun _ _ moved => moved_work (step_moved moved)) (running_live fits) start_running

-- The line of a note whose second has one digit, and json.Unmarshal on the lines of some notes.
def noteLine (ev : MinEvent) : Bytes :=
  Bytes.text "\x7b\"id\":\"" ++ ev.id ++ Bytes.text "\",\"pubkey\":\"" ++ ev.pubkey ++ Bytes.text "\",\"kind\":1,\"created_at\":" ++
    [48 + UInt8.ofNat ev.createdAt.toNat] ++ Bytes.text "\x7d"

def reads (notes : List MinEvent) (line : Bytes) : Option MinEvent := notes.find? fun ev => line = noteLine ev

def noteOf (author : UInt8) (n : Nat) (createdAt : Int) : MinEvent :=
  ⟨Bytes.hexEncode (UInt8.ofNat (n / 256) :: UInt8.ofNat n :: List.replicate 30 0),Bytes.hexEncode (author :: List.replicate 31 7),1,createdAt⟩

theorem reads_wellFormed {notes : List MinEvent} (noted : ∀ ev ∈ notes, ∃ author n createdAt, ev = noteOf author n createdAt) :
    ∀ line ∈ notes.map noteLine, (parse (reads notes) line).isSome := by
  intro line member
  obtain ⟨ev,listed,rfl⟩ := List.mem_map.mp member
  cases found : reads notes (noteLine ev) with
  | none => exact absurd (List.find?_eq_none.mp found ev listed) (by simp)
  | some other =>
    obtain ⟨author,n,createdAt,rfl⟩ := noted other (List.mem_of_find?_eq_some found)
    have some_line : noteLine ev ≠ [] := by simp [noteLine]
    unfold parse
    rw [if_neg some_line,found]
    simp [noteOf,Bytes.hexEncode]

def notesOf (count : Nat) : List MinEvent := (List.range count).map fun n => noteOf 0 n 1

theorem notesOf_wellFormed (count : Nat) : ∀ line ∈ (notesOf count).map noteLine, (parse (reads (notesOf count)) line).isSome := by
  refine reads_wellFormed fun ev member => ?_
  obtain ⟨n,_,rfl⟩ := List.mem_map.mp member
  exact ⟨0,n,1,rfl⟩

theorem collect_returns_three : Inevitable (step (reads (notesOf 3)) 2) quiet
    (Collected 2 (((notesOf 3).map noteLine).filterMap (parse (reads (notesOf 3))))) (start ((notesOf 3).map noteLine)) :=
  ((collect_returns (reads (notesOf 3)) _ (notesOf_wellFormed 3) 2).mpr (.inr (by decide))).2

theorem collect_returns_fails :
    ¬ ((∀ s, Reached (step (reads (notesOf 258)) 1) quiet (start ((notesOf 258).map noteLine)) s → ¬ Deadlocked s) ∧
    Inevitable (step (reads (notesOf 258)) 1) quiet
      (Collected 1 (((notesOf 258).map noteLine).filterMap (parse (reads (notesOf 258))))) (start ((notesOf 258).map noteLine))) := by
  intro ⟨free,_⟩
  obtain ⟨s,path,deadlocked⟩ := @reach_deadlock (reads (notesOf 258)) 1 _ (notesOf_wellFormed 258) (by decide)
    (by simp [notesOf,eventsCapacity])
  exact free s path deadlocked

end DeepFry.Rescue.Export
