import DeepFry.EventForwarder.Resume

namespace DeepFry.EventForwarder

-- An open subscription without time bounds first brings the newest stored events, as many as its limit asks for.
def subscribed (c : Config) (source : Finset Event) (batch : List Event) : Prop :=
  batch.Nodup ∧ (∀ e ∈ batch, e ∈ source) ∧
    batch.length = (if c.maxBatch = 0 then source.card else min c.maxBatch.toNat source.card) ∧
    ∀ e ∈ batch, ∀ older ∈ source, older ∉ batch → older.createdAt ≤ e.createdAt

instance (c : Config) (source : Finset Event) (batch : List Event) : Decidable (subscribed c source batch) :=
  inferInstanceAs (Decidable (_ ∧ _ ∧ _ ∧ _))

instance (c : Config) (s : Deployment) (w : Window) (a : Attempt) : Decidable (syncs c s w a) :=
  inferInstanceAs (Decidable (_ ∧ _ ∧ _ ∧ _))

-- What is noted of a run. floor: where the last completed windowed window ends, before any where the first begins.
-- pending: what the open subscription has still to deliver.
structure Watch where
  floor : Option Int
  pending : Finset Event
deriving DecidableEq

def Watch.since (watch : Watch) (e : Event) : Bool := watch.floor.any fun floor => decide (floor ≤ e.createdAt)

def Watch.begun (tp : TimePackage) (c : Config) (queryError : Option Str) (s : Deployment) (watch : Watch) : Watch :=
  match getOrCreate tp c s.now queryError s.progress with
  | .ok w => { watch with floor := watch.floor.or (some (unix w.From)) }
  | .error _ => watch

-- The list is what a new subscription brings. An event that reaches the source is sent to an open one.
def Watch.note (tp : TimePackage) (c : Config) (s : Deployment) (action : Action × List Event) (watch : Watch) : Watch :=
  match action.1 with
  | .source content =>
    match s.process with
    | .realtime _ _ => { watch with pending := watch.pending ∪ (content \ s.source) }
    | _ => watch
  | .turn a =>
    match s.process with
    | .windowed w => if syncs c s w a then { watch with floor := some (unix w.To) } else watch
    | _ => watch
  | .start queryError => watch.begun tp c queryError s
  | .subscribe failed queryError => if failed then watch.begun tp c queryError s else { watch with pending := action.2.toFinset }
  | .receive (some e) _ _ => { watch with pending := watch.pending.erase e }
  | _ => watch

def opens (c : Config) (s : Deployment) (action : Action × List Event) : Bool :=
  match action.1 with
  | .subscribe false _ => decide (subscribed c s.source action.2)
  | _ => true

def watched (tp : TimePackage) (c : Config) : Deployment × Watch → Action × List Event → Option (Deployment × Watch) :=
  Machine.traced (Watch.note tp c) fun s action => if opens c s action then step tp c s action.1 else none

def undertaken (now : Int) (source accepted : Finset Event) (progress : Option SyncEvent) : Deployment × Watch :=
  (deploy now source accepted progress,⟨none,∅⟩)

-- The source holds more events since the floor than a subscription brings.
def Watch.overflows (c : Config) (source : Finset Event) (watch : Watch) : Bool :=
  decide (c.maxBatch ≠ 0) && decide (c.maxBatch.toNat < (source.filter fun e => watch.since e = true).card)

-- What the limit cuts off when a subscription opens, and what DeepFry refuses, it had accepted before.
def listens (c : Config) (s : Deployment × Watch) (action : Action × List Event) : Bool :=
  match action.1 with
  | .subscribe false _ =>
    !s.2.overflows c s.1.source || decide (∀ e ∈ s.1.source, s.2.since e = true → e ∉ action.2 → e ∈ s.1.accepted)
  | .receive (some e) reply _ => reply.accepts || decide (e ∈ s.1.source → s.2.since e = true → e ∈ s.1.accepted)
  | _ => true

-- An update that DeepFry keeps: a valid window, a signed event, a newer one than before.
def Update.lands (u : Update) (w : Window) (stored : Option SyncEvent) : Bool :=
  w.validate.isOk && u.signError.isNone && u.reply.accepts && u.kept stored

-- Where a later start or fallback begins.
def resumePoint (tp : TimePackage) (c : Config) (s : Deployment) : Option Int :=
  if c.startTime = [] then recordedEnd s else (tp.parse c.startTime).map unix

-- The same for the window that an update at this time records.
def nextPoint (tp : TimePackage) (c : Config) (now : Int) : Option Int :=
  if c.startTime = [] then (if Decimal.fits (unix now) then some (unix now) else none) else (tp.parse c.startTime).map unix

-- Everything between the floor and the end recorded now is forwarded, or a restart reaches back to it.
def NoGap (tp : TimePackage) (c : Config) (watch : Watch) (s : Deployment) : Prop :=
  ∀ e ∈ s.source, watch.since e = true → e.createdAt ≤ unix s.now →
    e ∈ s.accepted ∨ (resumePoint tp c s).any (fun point => decide (point ≤ e.createdAt)) = true

-- No event still to be delivered lies between the floor and the next resume point.
def settled (tp : TimePackage) (c : Config) (event : Option Event) (s : Deployment × Watch) : Bool :=
  decide (∀ e ∈ s.2.pending, some e ≠ event → e ∈ s.1.source → s.2.since e = true → e.createdAt ≤ unix s.1.now →
    e ∈ s.1.accepted ∨ (nextPoint tp c s.1.now).any (fun point => decide (point ≤ e.createdAt)) = true)

section Opening
variable {c : Config} {source : Finset Event} {batch : List Event} {watch : Watch} {e : Event}

-- Without an overflow the newest events are all those since the floor.
theorem subscribed_whole (brought : subscribed c source batch) (fits : watch.overflows c source = false) (held : e ∈ source)
    (since : watch.since e = true) : e ∈ batch := by
  obtain ⟨distinct,inside,size,newest⟩ := brought
  by_contra absent
  have late : ∀ kept ∈ insert e batch.toFinset, kept ∈ source.filter fun e => watch.since e = true := by
    intro kept member
    rcases Finset.mem_insert.mp member with rfl | member
    · exact Finset.mem_filter.mpr ⟨held,since⟩
    · have member := List.mem_toFinset.mp member
      refine Finset.mem_filter.mpr ⟨inside kept member,?_⟩
      unfold Watch.since at since ⊢
      obtain ⟨floor,noted,reached⟩ := (Option.any_eq_true _ _).mp since
      apply (Option.any_eq_true _ _).mpr
      exact ⟨floor,noted,decide_eq_true ((of_decide_eq_true reached).trans (newest kept member e held absent))⟩
  have larger := Finset.card_le_card late
  rw [Finset.card_insert_of_notMem fun member => absent (List.mem_toFinset.mp member),List.toFinset_card_of_nodup distinct,size] at larger
  have few := Finset.card_filter_le source fun e => watch.since e = true
  unfold Watch.overflows at fits
  split at larger
  · omega
  · rename_i limited
    rw [decide_eq_true limited,Bool.true_and,decide_eq_false_iff_not,not_lt] at fits
    omega
end Opening

-- A running process has a floor, and what an open subscription left out since then is accepted.
structure Listening (s : Deployment × Watch) : Prop where
  begun : s.1.process ≠ .down → s.2.floor.isSome = true
  whole : ∀ w n, s.1.process = .realtime w n → ∀ e ∈ s.1.source, s.2.since e = true → e ∈ s.1.accepted ∨ e ∈ s.2.pending

section Runs
variable {tp : TimePackage} {c : Config} {s next : Deployment} {watch : Watch} {action : Action} {batch : List Event}
  {a : Attempt} {u : Update} {w : Window} {n : Nat} {event : Option Event} {reply : Reply} {e : Event}

theorem updateWindow_lands (mode : SyncMode) : (updateWindow c u mode w s).2.progress =
    if u.lands w s.progress = true then some (syncEvent c.sourceRelayURL u.createdAt w) else s.progress := by
  unfold updateWindow Update.lands
  cases w.validate with
  | error e => rfl
  | ok _ =>
    cases u.signError with
    | some error => rfl
    | none =>
      dsimp only
      rw [replaced_eq rfl]
      cases u.reply with
      | stored => rfl
      | lost error => rfl
      | refused error => rfl

-- What a forwarded event leaves of the deployment, whether its update lands or not.
structure Received (c : Config) (event : Option Event) (reply : Reply) (u : Update) (s next : Deployment) : Prop where
  source : next.source = s.source
  now : next.now = s.now
  accepted : next.accepted = (forwardEvent reply event s.accepted).2
  process : ∃ w n, next.process = .realtime w n
  progress : completesCount s event reply = true → next.progress =
    if u.lands ⟨s.now - c.windowDuration,s.now⟩ s.progress = true then
      some (syncEvent c.sourceRelayURL u.createdAt ⟨s.now - c.windowDuration,s.now⟩)
    else s.progress

theorem updateRealtimeWindow_same (u : Update) (w : Window) (s : Deployment) :
    (updateRealtimeWindow c u w s).source = s.source ∧ (updateRealtimeWindow c u w s).now = s.now ∧
    (updateRealtimeWindow c u w s).accepted = s.accepted ∧ (∃ v n, (updateRealtimeWindow c u w s).process = .realtime v n) ∧
    (updateRealtimeWindow c u w s).progress = (updateWindow c u .realtime ⟨s.now - c.windowDuration,s.now⟩ s).2.progress := by
  obtain ⟨_,source,accepted,now⟩ := updateWindow_same c u .realtime ⟨s.now - c.windowDuration,s.now⟩ s
  unfold updateRealtimeWindow
  dsimp only
  split
  · rename_i updated
    rw [updated] at source accepted now ⊢
    exact ⟨source,now,accepted,⟨_,0,rfl⟩,rfl⟩
  · rename_i updated
    rw [updated] at source accepted now ⊢
    exact ⟨source,now,accepted,⟨_,0,rfl⟩,rfl⟩

theorem receive_received (event : Option Event) (reply : Reply) (u : Update) (process : s.process = .realtime w n) : Received c event reply u s (receive c event reply u w n s) := by
  unfold receive
  cases forwarded : forwardEvent reply event s.accepted with
  | mk sent accepted =>
    cases sent with
    | false =>
      refine ⟨rfl,rfl,?_,⟨w,n,process⟩,?_⟩
      · rw [forwarded]
        rfl
      · unfold completesCount
        rw [process]
        dsimp only
        rw [forwarded]
        exact nofun
    | true =>
      dsimp only
      rw [if_pos rfl]
      split
      · obtain ⟨source,now,same,realtime,progress⟩ := updateRealtimeWindow_same (c := c) u w { s with accepted }
        refine ⟨source,now,same.trans ?_,realtime,fun _ => progress.trans (updateWindow_lands .realtime)⟩
        rw [forwarded]
      · refine ⟨rfl,rfl,?_,⟨_,_,rfl⟩,?_⟩
        · rw [forwarded]
        · rename_i few
          unfold completesCount
          rw [process]
          dsimp only
          rw [forwarded,decide_eq_false few]
          exact nofun

theorem forwardEvent_keeps (before : e ∈ s.accepted) : e ∈ (forwardEvent reply event s.accepted).2 :=
  (mem_forwardEvent reply event).mpr (.inl before)

theorem windowedTurn_process (process : s.process = .windowed w) (moved : windowedTurn c a w s = some next) :
    ∀ w n, next.process ≠ .realtime w n := by
  unfold windowedTurn at moved
  split at moved
  · cases moved
    exact fun _ _ => nofun
  · split at moved
    · split at moved
      · have same := syncWindow_process (c := c) (a := a) (w := w) (s := s)
        cases outcome : syncWindow c a w s with
        | mk result after =>
          rw [outcome] at moved same
          cases result with
          | synced =>
            cases moved
            exact fun _ _ => nofun
          | failed e =>
            cases moved
            rw [same,process]
            exact fun _ _ => nofun
          | crashed =>
            cases moved
            exact fun _ _ => nofun
      · cases moved
    · cases moved
      rw [process]
      exact fun _ _ => nofun

-- Where a start or a fallback succeeds the run has a floor from then on.
theorem begun_floor (queryError : Option Str) (watch : Watch) (alive : (resume tp c queryError s).process ≠ .down) :
    (watch.begun tp c queryError s).floor.isSome = true := by
  unfold Watch.begun
  unfold resume at alive
  cases got : getOrCreate tp c s.now queryError s.progress with
  | ok w =>
    dsimp only
    cases watch.floor with
    | none => rfl
    | some floor => rfl
  | error e =>
    rw [got] at alive
    exact absurd rfl alive

theorem resume_process (queryError : Option Str) : ∀ w n, (resume tp c queryError s).process ≠ .realtime w n := by
  unfold resume
  split
  · exact fun _ _ => nofun
  · exact fun _ _ => nofun

-- In a run that is not realtime the note of what was left out is empty of content.
theorem listening_idle {next : Deployment × Watch} (begun : next.1.process ≠ .down → next.2.floor.isSome = true)
    (idle : ∀ w n, next.1.process ≠ .realtime w n) : Listening next :=
  ⟨begun,fun w n process => absurd process (idle w n)⟩

theorem resume_listening (queryError : Option Str) (watch : Watch) :
    Listening (resume tp c queryError s,watch.begun tp c queryError s) :=
  listening_idle (begun_floor queryError watch) (resume_process queryError)

-- A delivered event is accepted by then or lies outside; the others are still to be delivered.
theorem receive_listening (listening : Listening (s,watch)) (process : s.process = .realtime w n)
    (heard : listens c (s,watch) (.receive event reply u,batch) = true) :
    Listening (receive c event reply u w n s,watch.note tp c s (.receive event reply u,batch)) := by
  have received := receive_received (c := c) event reply u process
  have floor : (watch.note tp c s (.receive event reply u,batch)).floor = watch.floor := by
    cases event with
    | none => rfl
    | some e => rfl
  constructor
  · intro _
    dsimp only
    rw [floor]
    exact listening.begun (by rw [process]; nofun)
  · intro w' n' _ e held since
    dsimp only at held since ⊢
    rw [received.source] at held
    have since : watch.since e = true := by
      unfold Watch.since at since ⊢
      rw [floor] at since
      exact since
    rw [received.accepted]
    rcases listening.whole w n process e held since with accepted | pending
    · exact .inl (forwardEvent_keeps accepted)
    · cases event with
      | none => exact .inr pending
      | some arrived =>
        by_cases same : e = arrived
        · left
          unfold listens at heard
          rw [same] at held since ⊢
          rcases (Bool.or_eq_true _ _).mp heard with accepts | before
          · exact (mem_forwardEvent reply (some arrived)).mpr (.inr ⟨rfl,accepts⟩)
          · exact forwardEvent_keeps (of_decide_eq_true before held since)
        · exact .inr (Finset.mem_erase.mpr ⟨same,pending⟩)

theorem subscribe_listening (listening : Listening (s,watch)) (process : s.process = .subscribing w n) (queryError : Option Str)
    (brought : subscribed c s.source batch) (heard : listens c (s,watch) (.subscribe false queryError,batch) = true) :
    Listening ({ s with process := .realtime w n },{ watch with pending := batch.toFinset }) := by
  constructor
  · intro _
    exact listening.begun (by rw [process]; nofun)
  · intro w' n' _ e held since
    by_cases member : e ∈ batch
    · exact .inr (List.mem_toFinset.mpr member)
    · left
      unfold listens at heard
      rcases (Bool.or_eq_true _ _).mp heard with fits | before
      · rw [Bool.not_eq_true'] at fits
        exact absurd (subscribed_whole brought fits held since) member
      · exact of_decide_eq_true before e held since member

theorem source_listening (listening : Listening (s,watch)) (content : Finset Event) :
    Listening ({ s with source := content },watch.note tp c s (.source content,batch)) := by
  have floor : (watch.note tp c s (.source content,batch)).floor = watch.floor := by
    unfold Watch.note
    cases s.process with
    | realtime w n => rfl
    | _ => rfl
  constructor
  · intro alive
    dsimp only
    rw [floor]
    exact listening.begun alive
  · intro w n process e held since
    have pending : (watch.note tp c s (.source content,batch)).pending = watch.pending ∪ (content \ s.source) := by
      unfold Watch.note
      dsimp only at process ⊢
      rw [process]
    have since : watch.since e = true := by
      unfold Watch.since at since ⊢
      dsimp only at since
      rw [floor] at since
      exact since
    dsimp only
    rw [pending]
    by_cases before : e ∈ s.source
    · rcases listening.whole w n process e before since with accepted | waiting
      · exact .inl accepted
      · exact .inr (Finset.mem_union_left _ waiting)
    · exact .inr (Finset.mem_union_right _ (Finset.mem_sdiff.mpr ⟨held,before⟩))

theorem turn_listening (listening : Listening (s,watch)) (process : s.process = .windowed w) (moved : windowedTurn c a w s = some next) :
    Listening (next,watch.note tp c s (.turn a,batch)) := by
  apply listening_idle
  · intro _
    unfold Watch.note
    rw [process]
    dsimp only
    split
    · rfl
    · exact listening.begun (by rw [process]; nofun)
  · exact windowedTurn_process process moved

theorem stepped_listening (listening : Listening (s,watch)) (opened : opens c s (action,batch) = true)
    (heard : listens c (s,watch) (action,batch) = true) (moved : step tp c s action = some next) :
    Listening (next,watch.note tp c s (action,batch)) := by
  cases step_cases moved with
  | source content => exact source_listening listening content
  | accept e =>
    refine ⟨listening.begun,?_⟩
    intro w n process other held since
    rcases listening.whole w n process other held since with accepted | pending
    · exact .inl (Finset.mem_insert_of_mem accepted)
    · exact .inr pending
  | clock now => exact ⟨listening.begun,listening.whole⟩
  | start queryError down => exact resume_listening queryError watch
  | stop => exact listening_idle (fun alive => absurd rfl alive) fun _ _ => nofun
  | turn process moved => exact turn_listening listening process moved
  | fallback queryError process => exact resume_listening queryError watch
  | subscribe queryError process => exact subscribe_listening listening process queryError (of_decide_eq_true opened) heard
  | close process => exact listening_idle (fun _ => listening.begun (by rw [process]; nofun)) fun _ _ => nofun
  | receive event reply u process => exact receive_listening listening process heard

theorem watched_listening {s next : Deployment × Watch} {action : Action × List Event} (listening : Listening s)
    (heard : listens c s action = true) (moved : watched tp c s action = some next) : Listening next := by
  obtain ⟨stepped,noted⟩ := Machine.traced_parts moved
  split at stepped
  · rename_i opened
    obtain ⟨after,watch⟩ := next
    dsimp only at stepped noted
    rw [noted]
    exact stepped_listening listening opened heard stepped
  · cases stepped

-- Where the update lands, the point that a restart takes up is the one foreseen.
theorem resumePoint_landed {createdAt : Int} (landed : next.progress = some (syncEvent c.sourceRelayURL createdAt ⟨s.now - c.windowDuration,s.now⟩)) :
    resumePoint tp c next = nextPoint tp c s.now := by
  unfold resumePoint nextPoint recordedEnd
  rw [landed,Option.bind_some,syncEvent_to,Decimal.parseInt_formatInt]

theorem parseWindow_end {stored : SyncEvent} {last : Window} (parsed : parseWindow stored = .ok last) :
    Decimal.parseInt (lastTag (Bytes.text "to") stored.tags) = some (unix last.To) := by
  unfold parseWindow at parsed
  dsimp only at parsed
  split at parsed
  · cases parsed
  · split at parsed
    · cases parsed
    · split at parsed
      · cases parsed
      · rename_i finish
        cases parsed
        rw [finish]
        exact congrArg some (unix_seconds _).symm

-- Every later start and fallback that finds an event kept begins at the resume point.
theorem getOrCreate_point {later : Int} {queryError : Option Str} (kept : s.progress ≠ none)
    (got : getOrCreate tp c later queryError s.progress = .ok w) : resumePoint tp c s = some (unix w.From) := by
  obtain ⟨_,resumed⟩ := getOrCreate_resumed got
  unfold resumePoint
  cases resumed with
  | startTime startTime given parsed =>
    rw [if_neg given,parsed]
    rfl
  | fresh _ unstored => exact absurd unstored kept
  | last e before absent found parsed =>
    unfold recordedEnd
    rw [if_pos absent,found]
    exact parseWindow_end parsed

theorem forwarded_stored {accepted : Finset Event} (sent : (forwardEvent reply event accepted).1 = true) :
    ∃ e, event = some e ∧ reply = .stored := by
  cases event with
  | none => cases sent
  | some e =>
    cases reply with
    | stored => exact ⟨e,rfl,rfl⟩
    | lost error => cases sent
    | refused error => cases sent

theorem completesCount_stored (counted : completesCount s event reply = true) :
    (∃ w n, s.process = .realtime w n) ∧ ∃ e, event = some e ∧ reply = .stored := by
  unfold completesCount at counted
  split at counted
  · rename_i w n process
    exact ⟨⟨w,n,process⟩,forwarded_stored ((Bool.and_eq_true _ _).mp counted).1⟩
  · cases counted

theorem noGap_settled (listening : Listening (s,watch)) (process : s.process = .realtime w n)
    (received : Received c (some e) .stored u s next) (point : resumePoint tp c next = nextPoint tp c s.now) :
    NoGap tp c { watch with pending := watch.pending.erase e } next ↔ settled tp c (some e) (s,watch) = true := by
  have taken : ∀ other, other ∈ next.accepted ↔ other ∈ s.accepted ∨ other = e := by
    intro other
    rw [received.accepted,mem_forwardEvent,Option.some.injEq]
    exact or_congr Iff.rfl ⟨fun both => both.1.symm,fun same => ⟨same.symm,rfl⟩⟩
  unfold NoGap settled
  rw [decide_eq_true_eq,received.source,received.now,point]
  constructor
  · intro covered other _ different held since before
    rcases covered other held since before with accepted | reached
    · rcases (taken other).mp accepted with earlier | same
      · exact .inl earlier
      · exact absurd (congrArg some same) different
    · exact .inr reached
  · intro waiting other held since before
    by_cases same : other = e
    · exact .inl ((taken other).mpr (.inr same))
    · rcases listening.whole w n process other held since with accepted | pending
      · exact .inl ((taken other).mpr (.inl accepted))
      · rcases waiting other pending (fun equal => same (Option.some.inj equal)) held since before with accepted | reached
        · exact .inl ((taken other).mpr (.inl accepted))
        · exact .inr reached
end Runs

-- Whatever switches, closures, restarts and rates came before, an update that records the current end leaves no gap exactly if what
-- the subscription has not delivered yet is settled, and later starts and fallbacks begin at the resume point.
theorem realtime_progress {tp : TimePackage} {c : Config} {now : Int} {source accepted : Finset Event} {progress : Option SyncEvent}
    {s next : Deployment × Watch} {event : Option Event} {reply : Reply} {u : Update} {batch : List Event}
    (path : Machine.Reached (watched tp c) (fun s action => listens c s action = true) (undertaken now source accepted progress) s)
    (counted : completesCount s.1 event reply = true) (lands : u.lands ⟨s.1.now - c.windowDuration,s.1.now⟩ s.1.progress = true)
    (moved : watched tp c s (.receive event reply u,batch) = some next) :
    Recorded c next.1 ⟨s.1.now - c.windowDuration,s.1.now⟩ ∧ next.2.floor.isSome = true ∧
    (NoGap tp c next.2 next.1 ↔ settled tp c event s = true) ∧
    ∀ later queryError w, getOrCreate tp c later queryError next.1.progress = .ok w → resumePoint tp c next.1 = some (unix w.From) := by
  have initial : Listening (undertaken now source accepted progress) := ⟨fun alive => absurd rfl alive,fun w n process => nomatch process⟩
  have listening : Listening s := path.invariant Listening initial fun kept allowed moved => watched_listening kept allowed moved
  obtain ⟨⟨w,n,process⟩,e,rfl,rfl⟩ := completesCount_stored counted
  obtain ⟨stepped,noted⟩ := Machine.traced_parts moved
  obtain ⟨before,watch⟩ := s
  obtain ⟨after,later⟩ := next
  dsimp only at counted lands process stepped noted ⊢
  have opened : opens c before (.receive (some e) .stored u,batch) = true := rfl
  rw [if_pos opened,step,process] at stepped
  cases stepped
  subst noted
  have received := receive_received (c := c) (some e) .stored u process
  have landed := (received.progress counted).trans (if_pos lands)
  refine ⟨⟨_,landed⟩,listening.begun (by dsimp only; rw [process]; nofun),?_,?_⟩
  · exact noGap_settled listening process received (resumePoint_landed landed)
  · intro time queryError v got
    exact getOrCreate_point (by rw [landed]; nofun) got

section Samples
variable {tp : TimePackage} {c : Config} {s : Deployment} {watch : Watch} {w : Window} {n : Nat} {start : Deployment × Watch}
  {admitted : Deployment × Watch → Action × List Event → Prop}

def sending : Update := ⟨1700000012,none,.stored,false⟩

def delivered (e : Event) : Action × List Event := (.receive (some e) .stored sending,[])

-- Below the count that records, every delivery adds its event and counts it.
theorem delivered_reached (batch : List Event) (free : ∀ s e, admitted s (delivered e)) (process : s.process = .realtime w n)
    (few : n + batch.length < EVENTS_PER_WINDOW_UPDATE) (path : Machine.Reached (watched tp c) admitted start (s,watch)) :
    Machine.Reached (watched tp c) admitted start
      ({ s with accepted := s.accepted ∪ batch.toFinset, process := .realtime w (n + batch.length) },
        { watch with pending := watch.pending \ batch.toFinset }) := by
  induction batch generalizing s watch n with
  | nil =>
    have same : s = { s with accepted := s.accepted ∪ ([] : List Event).toFinset, process := .realtime w (n + 0) } := by
      rw [List.toFinset_nil,Finset.union_empty,Nat.add_zero,← process]
    have kept : watch = { watch with pending := watch.pending \ ([] : List Event).toFinset } := by
      rw [List.toFinset_nil,Finset.sdiff_empty]
    rw [List.length_nil,← same,← kept]
    exact path
  | cons e rest ih =>
    rw [List.length_cons] at few
    have moved : watched tp c (s,watch) (delivered e) = some ({ s with accepted := insert e s.accepted, process := .realtime w (n + 1) },
        { watch with pending := watch.pending.erase e }) := by
      have short : ¬ EVENTS_PER_WINDOW_UPDATE ≤ n + 1 := by omega
      have opened : opens c s (delivered e) = true := rfl
      unfold watched Machine.traced
      dsimp only
      rw [if_pos opened]
      unfold delivered step
      dsimp only
      rw [process]
      unfold receive forwardEvent
      dsimp only
      rw [if_pos rfl,if_neg short]
      rfl
    have later := ih (s := { s with accepted := insert e s.accepted, process := .realtime w (n + 1) })
      rfl (by omega) (path.step (free _ e) moved)
    rw [List.toFinset_cons,List.length_cons,Finset.union_insert,Finset.sdiff_insert]
    rw [Finset.insert_union,Finset.erase_sdiff_comm,Nat.add_assoc,Nat.add_comm 1] at later
    exact later

def prompt : Config := { defaults with maxCatchupLagSeconds := 2 }

def promptSingles : Config := { prompt with maxBatch := 1 }

def cutOff : Event := ⟨[254],1700000007⟩

def newer : Event := ⟨[255],1700000008⟩

def lastOne : Event := ⟨[253],1700000011⟩

def crowd (n : Nat) : List Event := (List.range n).map fun i => ⟨[UInt8.ofNat i],1700000011⟩

-- One window is synced, the next is current at the switch, and the subscription brings its batch.
def switched (batch : List Event) : List (Action × List Event) :=
  [(.start none,[]),(.clock (1700000011 * SECOND),[]),(.turn (quiet 1700000011),[]),(.turn (quiet 1700000011),[]),
    (.subscribe false none,batch)]

def watching : Deployment × Watch := undertaken (1700000000 * SECOND) {cutOff,newer} ∅ none

def currentWindow : Window := ⟨1700000005 * SECOND,1700000010 * SECOND⟩

def closing : Window := ⟨1700000007 * SECOND,1700000012 * SECOND⟩

def listening (c : Config) (batch : List Event) (s : Deployment × Watch) : Bool :=
  decide (s.1.process = .realtime currentWindow 0) && decide (s.1.progress = some (syncEvent c.sourceRelayURL 1700000011 firstWindow)) &&
    decide (s.1.source = {cutOff,newer}) && decide (s.1.accepted = ∅) && decide (s.2 = ⟨some 1700000005,batch.toFinset⟩)

def content (n : Nat) : List Event := cutOff :: newer :: lastOne :: crowd n

-- More events arrive, all that the subscription brings are delivered but one, and a second passes.
def crowded (batch : List Event) (n : Nat) (published : List Published) : Deployment × Watch where
  fst.now := 1700000012 * SECOND
  fst.source := (content n).toFinset
  fst.accepted := ∅ ∪ (batch ++ crowd n).toFinset
  fst.progress := some (syncEvent (Bytes.text "wss://source") 1700000011 firstWindow)
  fst.process := .realtime currentWindow (0 + (batch ++ crowd n).length)
  fst.published := published
  snd.floor := some 1700000005
  snd.pending := (batch.toFinset ∪ ((content n).toFinset \ {cutOff,newer})) \ (batch ++ crowd n).toFinset

theorem mem_crowd {e : Event} (n : Nat) (member : e ∈ crowd n) : e.createdAt = 1700000011 := by
  obtain ⟨i,_,rfl⟩ := List.mem_map.mp member
  rfl

theorem crowd_length (batch : List Event) (n : Nat) : (batch ++ crowd n).length = batch.length + n := by
  rw [List.length_append,crowd,List.length_map,List.length_range]

theorem crowded_reached {batch : List Event} {s : Deployment × Watch} (n : Nat) (free : ∀ s e, admitted s (delivered e))
    (world : ∀ s action, (∃ content, action = .source content) ∨ (∃ now, action = .clock now) → admitted s (action,[]))
    (named : c.sourceRelayURL = Bytes.text "wss://source") (few : batch.length + n < EVENTS_PER_WINDOW_UPDATE)
    (heard : listening c batch s = true) (path : Machine.Reached (watched tp c) admitted start s) :
    ∃ published, Machine.Reached (watched tp c) admitted start (crowded batch n published) := by
  obtain ⟨⟨now,source,accepted,progress,process,published⟩,noted⟩ := s
  unfold listening at heard
  simp only [Bool.and_eq_true,decide_eq_true_eq] at heard
  obtain ⟨⟨⟨⟨rfl,rfl⟩,rfl⟩,rfl⟩,rfl⟩ := heard
  rw [named] at path
  rw [← crowd_length] at few
  have arrived := path.step (world _ (.source (content n).toFinset) (.inl ⟨_,rfl⟩)) rfl
  have sent := delivered_reached (batch ++ crowd n) free rfl (by omega) arrived
  exact ⟨published,sent.step (world _ (.clock (1700000012 * SECOND)) (.inr ⟨_,rfl⟩)) rfl⟩

-- The last event makes the count and its update lands.
theorem crowded_counts (batch : List Event) (n : Nat) (published : List Published) (full : batch.length + n + 1 = EVENTS_PER_WINDOW_UPDATE) :
    completesCount (crowded batch n published).1 (some lastOne) .stored = true := by
  unfold completesCount crowded forwardEvent
  dsimp only
  rw [crowd_length,Nat.zero_add,full,Bool.true_and,decide_eq_true (le_refl _)]

theorem delivered_received {e : Event} {next : Deployment × Watch} (process : s.process = .realtime w n)
    (moved : watched tp c (s,watch) (delivered e) = some next) :
    Received c (some e) .stored sending s next.1 ∧ next.2 = { watch with pending := watch.pending.erase e } := by
  obtain ⟨stepped,noted⟩ := Machine.traced_parts moved
  have opened : opens c s (delivered e) = true := rfl
  rw [if_pos opened,delivered,step,process] at stepped
  have same := Option.some.inj stepped
  dsimp only at same
  rw [← same]
  exact ⟨receive_received (some e) .stored sending process,noted⟩

theorem sending_lands : sending.lands closing (some (syncEvent (Bytes.text "wss://source") 1700000011 firstWindow)) = true := by
  decide +kernel

-- The older of two events in the window current at the switch is cut off, never sent, and a restart begins behind it.
theorem realtime_progress_fails : promptSingles.validate plainYears = .ok () ∧ ∃ s next,
    Machine.Reached (watched plainYears promptSingles) (fun _ _ => True) watching s ∧
    watched plainYears promptSingles s (delivered lastOne) = some next ∧ completesCount s.1 (some lastOne) .stored = true ∧
    Recorded promptSingles next.1 closing ∧ next.2.floor = some 1700000005 ∧ ¬ NoGap plainYears promptSingles next.2 next.1 := by
  refine ⟨by decide +kernel,?_⟩
  obtain ⟨before,opened,heard⟩ := Machine.replay_final (watched plainYears promptSingles) (fun _ _ => True) watching (switched [newer])
    (listening promptSingles [newer]) (by decide +kernel) (by decide +kernel)
  obtain ⟨published,reached⟩ := crowded_reached 248 (fun _ _ => trivial) (fun _ _ _ => trivial) rfl (by decide) heard opened
  have counted := crowded_counts [newer] 248 published rfl
  obtain ⟨next,moved⟩ : ∃ next, watched plainYears promptSingles (crowded [newer] 248 published) (delivered lastOne) = some next := ⟨_,rfl⟩
  obtain ⟨received,noted⟩ := delivered_received rfl moved
  have landed := (received.progress counted).trans (if_pos sending_lands)
  have floor : next.2.floor = some 1700000005 := congrArg Watch.floor noted
  refine ⟨_,next,reached,moved,counted,⟨_,landed⟩,floor,?_⟩
  intro covered
  have held : cutOff ∈ next.1.source := by
    rw [received.source]
    exact List.mem_toFinset.mpr List.mem_cons_self
  have since : next.2.since cutOff = true := by
    unfold Watch.since
    rw [floor]
    rfl
  have before : cutOff.createdAt ≤ unix next.1.now := by
    rw [received.now]
    change cutOff.createdAt ≤ unix (1700000012 * SECOND)
    decide
  rcases covered cutOff held since before with accepted | reached
  · rw [received.accepted,mem_forwardEvent] at accepted
    rcases accepted with earlier | last
    · have member := List.mem_toFinset.mp ((Finset.mem_union.mp earlier).resolve_left (Finset.notMem_empty _))
      rcases List.mem_append.mp member with brought | arrived
      · exact absurd brought (by decide)
      · exact absurd (mem_crowd 248 arrived) (by decide)
    · exact absurd last.1 (by decide)
  · rw [resumePoint_landed landed] at reached
    have behind : (nextPoint plainYears promptSingles (1700000012 * SECOND)).any (fun point => decide (point ≤ cutOff.createdAt)) = false := by
      decide +kernel
    exact Bool.false_ne_true (behind.symm.trans reached)

-- With room for both, the update leaves no gap.
theorem realtime_progress_sample : ∃ s next, Machine.Reached (watched plainYears prompt) (fun s action => listens prompt s action = true) watching s ∧
    watched plainYears prompt s (delivered lastOne) = some next ∧ next.2.floor = some 1700000005 ∧ NoGap plainYears prompt next.2 next.1 := by
  obtain ⟨before,opened,heard⟩ := Machine.replay_final (watched plainYears prompt) (fun s action => listens prompt s action = true) watching
    (switched [newer,cutOff]) (listening prompt [newer,cutOff]) (by decide +kernel) (by decide +kernel)
  have world : ∀ s action, (∃ content, action = .source content) ∨ (∃ now, action = .clock now) → listens prompt s (action,[]) = true := by
    intro s action either
    rcases either with ⟨content,rfl⟩ | ⟨now,rfl⟩
    · rfl
    · rfl
  obtain ⟨published,reached⟩ := crowded_reached 247 (fun _ _ => rfl) world rfl (by decide) heard opened
  have counted := crowded_counts [newer,cutOff] 247 published rfl
  obtain ⟨next,moved⟩ : ∃ next, watched plainYears prompt (crowded [newer,cutOff] 247 published) (delivered lastOne) = some next := ⟨_,rfl⟩
  -- Everything of the source but the last event has been delivered.
  have none_left : settled plainYears prompt (some lastOne) (crowded [newer,cutOff] 247 published) = true := by
    apply decide_eq_true
    intro e pending other held
    obtain ⟨_,undelivered⟩ := Finset.mem_sdiff.mp pending
    have absent : ∀ other ∈ [newer,cutOff] ++ crowd 247, e ≠ other := fun other member same =>
      undelivered (List.mem_toFinset.mpr (same ▸ member))
    rcases List.mem_cons.mp (List.mem_toFinset.mp held) with rfl | held
    · exact absurd rfl (absent _ (List.mem_append_left _ (by decide)))
    · rcases List.mem_cons.mp held with rfl | held
      · exact absurd rfl (absent _ (List.mem_append_left _ (by decide)))
      · rcases List.mem_cons.mp held with rfl | held
        · exact absurd rfl other
        · exact absurd rfl (absent _ (List.mem_append_right _ held))
  have progress := realtime_progress reached counted sending_lands moved
  exact ⟨_,next,reached,moved,congrArg Watch.floor (delivered_received rfl moved).2,progress.2.2.1.mpr none_left⟩
end Samples

end DeepFry.EventForwarder
