import DeepFry.EventForwarder.Coverage

namespace DeepFry.EventForwarder

section Windows
variable {tp : TimePackage} {c : Config} {w next : Window} {now d : Int} {queryError : Option Str} {stored : Option SyncEvent}

theorem unix_seconds (n : Int) : unix (n * SECOND) = n := Int.mul_ediv_cancel n (by decide)

theorem unix_mono {s t : Int} (before : s ≤ t) : unix s ≤ unix t := Int.ediv_le_ediv (by decide) before

theorem validateDuration_ok (valid : validateDuration d = .ok ()) : SECOND ≤ d ∧ d ≤ MAX_DURATION := by
  unfold validateDuration at valid
  split at valid
  · cases valid
  · split at valid
    · cases valid
    · split at valid
      · cases valid
      · constructor <;> omega

theorem validated_same {checked : Window} (valid : validated w = .ok checked) : checked = w := by
  unfold validated at valid
  cases result : w.validate with
  | error e =>
    rw [result] at valid
    cases valid
  | ok _ =>
    rw [result] at valid
    cases valid
    rfl

theorem safeNext_same (stepped : w.safeNext d = .ok next) : next = w.next d := by
  unfold Window.safeNext at stepped
  cases source : w.validate with
  | error e =>
    rw [source] at stepped
    cases stepped
  | ok _ =>
    cases duration : validateDuration d with
    | error e =>
      rw [source,duration] at stepped
      cases stepped
    | ok _ =>
      cases result : validated (w.next d) with
      | error e =>
        rw [source,duration,result] at stepped
        cases stepped
      | ok checked =>
        rw [source,duration,result] at stepped
        cases stepped
        exact validated_same result

-- The validated and the plain variant step to the same window.
theorem advance_next (c : Config) (w : Window) : advance c w = w.next c.windowDuration := by
  unfold advance
  split
  · rename_i stepped
    exact safeNext_same stepped
  · rfl

-- Where a start or a fallback begins.
inductive Resumed (tp : TimePackage) (c : Config) (now : Int) (stored : Option SyncEvent) : Window → Prop where
  | startTime (startTime : Int) : c.startTime ≠ [] → tp.parse c.startTime = some startTime →
      Resumed tp c now stored (newWindowFromStart startTime c.windowDuration)
  | fresh : c.startTime = [] → stored = none → Resumed tp c now stored (newWindow now c.windowDuration)
  | last (e : SyncEvent) (last : Window) : c.startTime = [] → stored = some e → parseWindow e = .ok last →
      Resumed tp c now stored (last.next c.windowDuration)

theorem fromStart_same {startTime : Int} (started : safeNewWindowFromStart tp now startTime d = .ok w) : w = newWindowFromStart startTime d := by
  unfold safeNewWindowFromStart at started
  cases timestamp : validateTimestamp tp now startTime with
  | error e =>
    rw [timestamp] at started
    cases started
  | ok _ =>
    cases duration : validateDuration d with
    | error e =>
      rw [timestamp,duration] at started
      cases started
    | ok _ =>
      rw [timestamp,duration] at started
      exact validated_same started

theorem newWindow_same (started : safeNewWindow now d = .ok w) : w = newWindow now d := by
  unfold safeNewWindow at started
  cases duration : validateDuration d with
  | error e =>
    rw [duration] at started
    cases started
  | ok _ =>
    rw [duration] at started
    exact validated_same started

theorem mapError_ok {ε ε' α : Type} {result : Except ε α} {f : ε → ε'} {a : α} (good : result.mapError f = .ok a) : result = .ok a := by
  cases result with
  | error e => cases good
  | ok b =>
    cases good
    rfl

theorem getLastWindow_cases {last : Option Window} (read : getLastWindow queryError stored = .ok last) :
    stored = none ∧ last = none ∨ ∃ e w, stored = some e ∧ parseWindow e = .ok w ∧ last = some w := by
  unfold getLastWindow at read
  split at read
  · cases read
  · cases read
    exact .inl ⟨rfl,rfl⟩
  · rename_i e
    cases parsed : parseWindow e with
    | error error =>
      rw [parsed] at read
      cases read
    | ok w =>
      rw [parsed] at read
      cases read
      exact .inr ⟨e,w,rfl,parsed,rfl⟩

theorem getOrCreate_resumed (got : getOrCreate tp c now queryError stored = .ok w) :
    (SECOND ≤ c.windowDuration ∧ c.windowDuration ≤ MAX_DURATION) ∧ Resumed tp c now stored w := by
  unfold getOrCreate at got
  cases duration : validateDuration c.windowDuration with
  | error e =>
    rw [duration] at got
    cases got
  | ok _ =>
    rw [duration] at got
    refine ⟨validateDuration_ok duration,?_⟩
    change (if c.startTime ≠ [] then _ else _) = Except.ok w at got
    split at got
    · rename_i given
      split at got
      · cases got
      · rename_i startTime parsed
        rw [fromStart_same (mapError_ok got)]
        exact .startTime startTime given parsed
    · rename_i absent
      have absent := not_not.mp absent
      cases read : getLastWindow queryError stored with
      | error e =>
        rw [read] at got
        cases got
      | ok last =>
        rw [read] at got
        rcases getLastWindow_cases read with ⟨unstored,rfl⟩ | ⟨e,found,kept,parsed,rfl⟩
        · rw [newWindow_same (mapError_ok got)]
          exact .fresh absent unstored
        · rw [safeNext_same (mapError_ok got)]
          exact .last e found absent kept parsed
end Windows

def Update.kept (u : Update) (stored : Option SyncEvent) : Bool :=
  match stored with
  | none => true
  | some old => decide (old.createdAt < u.createdAt) || (decide (old.createdAt = u.createdAt) && u.lowestId)

-- A relay that keeps an older event of the address does not confirm the publish.
def Update.honest (u : Update) (stored : Option SyncEvent) : Bool := decide (u.reply ≠ .stored) || u.kept stored

def Action.honest (s : Deployment) : Action → Bool
  | .turn a => a.update.honest s.progress
  | .receive _ _ u => u.honest s.progress
  | _ => true

-- The progress event that DeepFry keeps is the one of that window.
def Recorded (c : Config) (s : Deployment) (w : Window) : Prop :=
  ∃ createdAt, s.progress = some (syncEvent c.sourceRelayURL createdAt w)

def recordedEnd (s : Deployment) : Option Int := s.progress.bind fun e => Decimal.parseInt (lastTag (Bytes.text "to") e.tags)

-- The window of the start time neither begins after the recorded end nor ends before it.
def startsWithin (tp : TimePackage) (c : Config) (s : Deployment) : Bool :=
  match tp.parse c.startTime with
  | some startTime => c.startTime.isEmpty || s.progress.isNone ||
      (recordedEnd s).any fun last => decide (unix startTime ≤ last) && decide (last ≤ unix (startTime + c.windowDuration))
  | none => true

-- The clock is not behind the recorded end.
def clockAhead (s : Deployment) : Bool := s.progress.isNone || (recordedEnd s).any fun last => decide (last ≤ unix s.now)

-- The forwarded event is the one that makes realtime mode update its window.
def completesCount (s : Deployment) (event : Option Event) (reply : Reply) : Bool :=
  match s.process with
  | .realtime _ n => (forwardEvent reply event s.accepted).1 && decide (EVENTS_PER_WINDOW_UPDATE ≤ n + 1)
  | _ => false

def Action.resumes (tp : TimePackage) (c : Config) (s : Deployment) : Action → Bool
  | .start _ => startsWithin tp c s
  | .subscribe failed _ => !failed || startsWithin tp c s
  | .receive event reply _ => !completesCount s event reply || clockAhead s
  | _ => true

-- The turn is one that syncs the window, and the sync succeeds.
def syncs (c : Config) (s : Deployment) (w : Window) (a : Attempt) : Prop :=
  s.process = .windowed w ∧ shouldSwitchToRealtime s.now w = false ∧ overdue c s.now w = true ∧ (syncWindow c a w s).1 = .synced

-- The recorded end does not decrease, and a synced window begins by the end recorded before it.
structure Continues (c : Config) (s : Deployment) (action : Action) (next : Deployment) : Prop where
  forward : ∀ last, Recorded c s last → ∃ current, Recorded c next current ∧ unix last.To ≤ unix current.To
  adjacent : ∀ a w, action = .turn a → syncs c s w a → ∀ last, Recorded c s last → unix w.From ≤ unix last.To

section Updates
variable {c : Config} {u : Update} {a : Attempt} {mode : SyncMode} {w : Window} {s next : Deployment}

-- The event kept is as it was, or the one of that window.
def Recording (c : Config) (w : Window) (s next : Deployment) : Prop := next.progress = s.progress ∨ Recorded c next w

theorem recorded_end {last : Window} (recorded : Recorded c s w) (again : Recorded c s last) : unix last.To = unix w.To := by
  obtain ⟨at₁,stored⟩ := recorded
  obtain ⟨at₂,kept⟩ := again
  have same : syncEvent c.sourceRelayURL at₂ last = syncEvent c.sourceRelayURL at₁ w := Option.some.inj (kept.symm.trans stored)
  have tags := congrArg (fun e => lastTag (Bytes.text "to") e.tags) same
  rw [syncEvent_to,syncEvent_to] at tags
  exact Decimal.formatInt_injective tags

theorem recordedEnd_exact {last : Int} (recorded : Recorded c s w) (found : recordedEnd s = some last) : last = unix w.To := by
  obtain ⟨createdAt,stored⟩ := recorded
  unfold recordedEnd at found
  rw [stored,Option.bind_some,syncEvent_to] at found
  exact Decimal.parseInt_exact found

theorem recorded_kept (same : next.progress = s.progress) : Recorded c next w ↔ Recorded c s w := by
  unfold Recorded
  rw [same]

theorem replaced_eq {stored : Option SyncEvent} {new : SyncEvent} (same : new.createdAt = u.createdAt) :
    replaced stored new u.lowestId = if u.kept stored = true then some new else stored := by
  unfold replaced Update.kept
  cases stored with
  | none => rfl
  | some old =>
    simp only [same,Bool.or_eq_true,Bool.and_eq_true,decide_eq_true_eq]

theorem updateWindow_same (c : Config) (u : Update) (mode : SyncMode) (w : Window) (s : Deployment) :
    (updateWindow c u mode w s).2.process = s.process ∧ (updateWindow c u mode w s).2.source = s.source ∧
    (updateWindow c u mode w s).2.accepted = s.accepted ∧ (updateWindow c u mode w s).2.now = s.now := by
  unfold updateWindow
  split
  · exact ⟨rfl,rfl,rfl,rfl⟩
  · split
    · exact ⟨rfl,rfl,rfl,rfl⟩
    · split
      · exact ⟨rfl,rfl,rfl,rfl⟩
      · exact ⟨rfl,rfl,rfl,rfl⟩
      · exact ⟨rfl,rfl,rfl,rfl⟩

theorem syncWindow_process : (syncWindow c a w s).2.process = s.process := by
  unfold syncWindow
  split
  · rfl
  · split
    · rfl
    · rfl
    · rename_i accepted _
      have same := (updateWindow_same c a.update .windowed w { s with accepted }).1
      split
      · rename_i updated
        rw [updated] at same
        exact same
      · rename_i updated
        rw [updated] at same
        exact same

theorem updateWindow_recording (honest : u.honest s.progress = true) {result : Except Failure Unit}
    (updated : updateWindow c u mode w s = (result,next)) : Recording c w s next ∧ (result = .ok () → Recorded c next w) := by
  unfold updateWindow at updated
  split at updated
  · cases updated
    exact ⟨.inl rfl,nofun⟩
  · split at updated
    · cases updated
      exact ⟨.inl rfl,nofun⟩
    · dsimp only at updated
      rw [replaced_eq rfl] at updated
      cases reply : u.reply with
      | stored =>
        have kept : u.kept s.progress = true := by
          unfold Update.honest at honest
          rw [reply] at honest
          exact honest
        rw [reply,if_pos kept] at updated
        cases updated
        exact ⟨.inr ⟨_,rfl⟩,fun _ => ⟨_,rfl⟩⟩
      | lost error =>
        rw [reply] at updated
        cases updated
        refine ⟨?_,nofun⟩
        by_cases kept : u.kept s.progress = true
        · exact .inr ⟨_,if_pos kept⟩
        · exact .inl (if_neg kept)
      | refused error =>
        rw [reply] at updated
        cases updated
        exact ⟨.inl rfl,nofun⟩

theorem syncWindow_recording (honest : a.update.honest s.progress = true) {outcome : Outcome}
    (synced : syncWindow c a w s = (outcome,next)) : Recording c w s next ∧ (outcome = .synced → Recorded c next w) := by
  unfold syncWindow at synced
  split at synced
  · cases synced
    exact ⟨.inl rfl,nofun⟩
  · split at synced
    · cases synced
      exact ⟨.inl rfl,nofun⟩
    · cases synced
      exact ⟨.inl rfl,nofun⟩
    · rename_i accepted _
      have honest : a.update.honest ({ s with accepted } : Deployment).progress = true := honest
      split at synced
      · rename_i updated
        cases synced
        obtain ⟨recording,recorded⟩ := updateWindow_recording honest updated
        exact ⟨recording,fun _ => recorded rfl⟩
      · rename_i updated
        cases synced
        obtain ⟨recording,_⟩ := updateWindow_recording honest updated
        refine ⟨recording,?_⟩
        split
        · exact nofun
        · exact nofun
end Updates

-- What the window in hand leaves to the next record: it begins by the recorded end and ends no earlier.
structure Continued (c : Config) (s : Deployment) (w : Window) : Prop where
  long : SECOND ≤ c.windowDuration
  size : w.To = w.From + c.windowDuration
  starts : ∀ last, Recorded c s last → unix w.From ≤ unix last.To
  ends : ∀ last, Recorded c s last → unix last.To ≤ unix w.To

structure Gapless (c : Config) (s : Deployment) : Prop where
  stored : s.progress = none ∨ ∃ w, Recorded c s w
  window : ∀ w, s.process = .windowed w → Continued c s w

section Runs
variable {tp : TimePackage} {c : Config} {s next : Deployment} {action : Action} {a : Attempt} {u : Update} {w : Window}

theorem gapless_stored (stored : s.progress = none ∨ ∃ w, Recorded c s w) (same : next.progress = s.progress) :
    next.progress = none ∨ ∃ w, Recorded c next w := by
  rcases stored with absent | ⟨w,recorded⟩
  · exact .inl (same.trans absent)
  · exact .inr ⟨w,(recorded_kept same).mpr recorded⟩

theorem continued_kept (continued : Continued c s w) (same : next.progress = s.progress) : Continued c next w where
  long := continued.long
  size := continued.size
  starts last recorded := continued.starts last ((recorded_kept same).mp recorded)
  ends last recorded := continued.ends last ((recorded_kept same).mp recorded)

theorem Continued.ordered (continued : Continued c s w) : unix w.From ≤ unix w.To := by
  have positive : 0 < SECOND := by decide
  have long := continued.long
  apply unix_mono
  rw [continued.size]
  omega

-- A step that leaves the record, and takes up no window, keeps the invariant.
theorem gapless_kept (gapless : Gapless c s) (same : next.progress = s.progress)
    (window : ∀ w, next.process = .windowed w → Continued c s w) : Gapless c next :=
  ⟨gapless_stored gapless.stored same,fun w process => continued_kept (window w process) same⟩

theorem forward_kept (same : next.progress = s.progress) :
    ∀ last, Recorded c s last → ∃ current, Recorded c next current ∧ unix last.To ≤ unix current.To :=
  fun last recorded => ⟨last,(recorded_kept same).mpr recorded,le_refl _⟩

theorem resumed_size {now : Int} {stored : Option SyncEvent} (resumed : Resumed tp c now stored w) :
    w.To = w.From + c.windowDuration := by
  cases resumed with
  | startTime startTime _ _ => rfl
  | fresh _ _ => rfl
  | last e last _ _ _ => rfl

-- A start or a fallback within the condition takes up a window around the recorded end.
theorem resumed_around {last : Window} (resumed : Resumed tp c s.now s.progress w) (long : SECOND ≤ c.windowDuration)
    (within : startsWithin tp c s = true) (recorded : Recorded c s last) :
    unix w.From ≤ unix last.To ∧ unix last.To ≤ unix w.To := by
  obtain ⟨createdAt,kept⟩ := id recorded
  cases resumed with
  | startTime startTime given parsed =>
    unfold startsWithin at within
    rw [parsed] at within
    dsimp only at within
    rw [List.isEmpty_eq_false_iff.mpr given,kept,Option.isNone_some,Bool.false_or,Bool.false_or] at within
    obtain ⟨finish,found,inside⟩ := (Option.any_eq_true _ _).mp within
    rw [recordedEnd_exact recorded found,Bool.and_eq_true,decide_eq_true_eq,decide_eq_true_eq] at inside
    exact inside
  | fresh _ unstored =>
    rw [kept] at unstored
    cases unstored
  | last e before _ found parsed =>
    rw [kept] at found
    cases found
    rw [parseWindow_exact parsed]
    have positive : 0 < SECOND := by decide
    have finish : unix (unix last.To * SECOND) = unix last.To := unix_seconds _
    have grown : unix (unix last.To * SECOND) ≤ unix (unix last.To * SECOND + c.windowDuration) := unix_mono (by omega)
    exact ⟨finish.le,finish.symm.le.trans grown⟩

theorem resumed_continued {queryError : Option Str} (within : startsWithin tp c s = true)
    (got : getOrCreate tp c s.now queryError s.progress = .ok w) : Continued c s w := by
  obtain ⟨⟨long,_⟩,resumed⟩ := getOrCreate_resumed got
  exact ⟨long,resumed_size resumed,fun last recorded => (resumed_around resumed long within recorded).1,
    fun last recorded => (resumed_around resumed long within recorded).2⟩

theorem resume_progress (queryError : Option Str) : (resume tp c queryError s).progress = s.progress := by
  unfold resume
  split
  · rfl
  · rfl

theorem resume_gapless (queryError : Option Str) (gapless : Gapless c s) (within : startsWithin tp c s = true) :
    Gapless c (resume tp c queryError s) := by
  apply gapless_kept gapless (resume_progress queryError)
  intro w process
  unfold resume at process
  split at process
  · rename_i got
    cases process
    exact resumed_continued within got
  · cases process

-- After a sync the next window begins where the recorded one ends.
theorem advance_continued (continued : Continued c s w) (recorded : Recorded c s w) : Continued c s (advance c w) := by
  have positive : 0 < SECOND := by decide
  have long := continued.long
  rw [advance_next]
  refine ⟨long,rfl,?_,?_⟩
  · intro last again
    exact (recorded_end recorded again).ge
  · intro last again
    rw [recorded_end recorded again]
    exact unix_mono (by unfold Window.next; dsimp only; omega)

-- The window in hand is recorded, or the record is as it was.
theorem recording_continued (continued : Continued c s w) (recording : Recording c w s next) : Continued c next w := by
  rcases recording with same | recorded
  · exact continued_kept continued same
  · refine ⟨continued.long,continued.size,?_,?_⟩
    · intro last again
      rw [recorded_end recorded again]
      exact continued.ordered
    · intro last again
      exact (recorded_end recorded again).le

theorem recording_stored (stored : s.progress = none ∨ ∃ w, Recorded c s w) (recording : Recording c w s next) :
    next.progress = none ∨ ∃ w, Recorded c next w := by
  rcases recording with same | recorded
  · exact gapless_stored stored same
  · exact .inr ⟨w,recorded⟩

-- Recording a window that ends no earlier than the record does not decrease the recorded end.
theorem recording_forward (ends : ∀ last, Recorded c s last → unix last.To ≤ unix w.To) (recording : Recording c w s next) :
    ∀ last, Recorded c s last → ∃ current, Recorded c next current ∧ unix last.To ≤ unix current.To := by
  intro last before
  rcases recording with same | recorded
  · exact forward_kept same last before
  · exact ⟨w,recorded,ends last before⟩

theorem windowedTurn_continues (honest : a.update.honest s.progress = true) (gapless : Gapless c s) (process : s.process = .windowed w)
    (moved : windowedTurn c a w s = some next) :
    Gapless c next ∧ ∀ last, Recorded c s last → ∃ current, Recorded c next current ∧ unix last.To ≤ unix current.To := by
  have continued := gapless.window w process
  unfold windowedTurn at moved
  split at moved
  · cases moved
    exact ⟨gapless_kept gapless rfl fun w' other => (nomatch other),forward_kept rfl⟩
  · split at moved
    · split at moved
      · cases outcome : syncWindow c a w s with
        | mk result after =>
          obtain ⟨recording,recorded⟩ := syncWindow_recording honest outcome
          have same : after.process = s.process := (congrArg (fun r => r.2.process) outcome).symm.trans syncWindow_process
          have stored := recording_stored gapless.stored recording
          have forward := recording_forward continued.ends recording
          have kept := recording_continued continued recording
          rw [outcome] at moved
          cases result with
          | synced =>
            cases moved
            refine ⟨⟨stored,?_⟩,forward⟩
            intro w' other
            cases other
            exact continued_kept (advance_continued kept (recorded rfl)) rfl
          | failed e =>
            cases moved
            refine ⟨⟨stored,?_⟩,forward⟩
            intro w' other
            rw [same,process] at other
            cases other
            exact kept
          | crashed =>
            cases moved
            exact ⟨⟨stored,fun w' other => (nomatch other)⟩,forward⟩
      · cases moved
    · cases moved
      exact ⟨gapless,forward_kept rfl⟩

theorem updateRealtimeWindow_continues (s : Deployment) (honest : u.honest s.progress = true)
    (stored : s.progress = none ∨ ∃ w, Recorded c s w) (ahead : clockAhead s = true) :
    Gapless c (updateRealtimeWindow c u w s) ∧
      ∀ last, Recorded c s last → ∃ current, Recorded c (updateRealtimeWindow c u w s) current ∧ unix last.To ≤ unix current.To := by
  have ends : ∀ last, Recorded c s last → unix last.To ≤ unix s.now := by
    intro last recorded
    obtain ⟨createdAt,kept⟩ := id recorded
    unfold clockAhead at ahead
    rw [kept,Option.isNone_some,Bool.false_or] at ahead
    obtain ⟨finish,found,inside⟩ := (Option.any_eq_true _ _).mp ahead
    rw [recordedEnd_exact recorded found,decide_eq_true_eq] at inside
    exact inside
  unfold updateRealtimeWindow
  dsimp only
  split
  · rename_i updated
    have recording := (updateWindow_recording honest updated).1
    have forward := recording_forward ends recording
    have stored := recording_stored stored recording
    exact ⟨⟨stored,fun w' other => (nomatch other)⟩,forward⟩
  · rename_i updated
    have recording := (updateWindow_recording honest updated).1
    have forward := recording_forward ends recording
    have stored := recording_stored stored recording
    exact ⟨⟨stored,fun w' other => (nomatch other)⟩,forward⟩

theorem receive_continues {event : Option Event} {reply : Reply} {n : Nat} (honest : u.honest s.progress = true) (gapless : Gapless c s)
    (process : s.process = .realtime w n) (ahead : (!completesCount s event reply || clockAhead s) = true) :
    Gapless c (receive c event reply u w n s) ∧
      ∀ last, Recorded c s last → ∃ current, Recorded c (receive c event reply u w n s) current ∧ unix last.To ≤ unix current.To := by
  unfold completesCount at ahead
  rw [process] at ahead
  unfold receive
  dsimp only at ahead ⊢
  cases forwarded : forwardEvent reply event s.accepted with
  | mk sent accepted =>
    rw [forwarded] at ahead
    cases sent with
    | false =>
      refine ⟨gapless_kept gapless rfl ?_,forward_kept rfl⟩
      intro w' other
      exact gapless.window w' other
    | true =>
      dsimp only
      rw [if_pos rfl]
      split
      · rename_i full
        rw [Bool.true_and,decide_eq_true full,Bool.not_true,Bool.false_or] at ahead
        exact updateRealtimeWindow_continues { s with accepted } honest gapless.stored ahead
      · exact ⟨gapless_kept gapless rfl fun w' other => (nomatch other),forward_kept rfl⟩

theorem step_gapless (gapless : Gapless c s) (honest : action.honest s = true) (resumes : action.resumes tp c s = true)
    (moved : step tp c s action = some next) :
    Gapless c next ∧ ∀ last, Recorded c s last → ∃ current, Recorded c next current ∧ unix last.To ≤ unix current.To := by
  cases step_cases moved with
  | source | accept | clock => exact ⟨gapless_kept gapless rfl gapless.window,forward_kept rfl⟩
  | stop => exact ⟨gapless_kept gapless rfl fun w' other => (nomatch other),forward_kept rfl⟩
  | start queryError down => exact ⟨resume_gapless queryError gapless resumes,forward_kept (resume_progress queryError)⟩
  | turn process moved => exact windowedTurn_continues honest gapless process moved
  | fallback queryError process => exact ⟨resume_gapless queryError gapless resumes,forward_kept (resume_progress queryError)⟩
  | subscribe queryError process => exact ⟨gapless_kept gapless rfl fun w' other => (nomatch other),forward_kept rfl⟩
  | close process => exact ⟨gapless_kept gapless rfl fun w' other => (nomatch other),forward_kept rfl⟩
  | receive event reply u process => exact receive_continues honest gapless process resumes

theorem run_gapless {start : Deployment} (gapless : Gapless c start)
    (path : Machine.Reached (step tp c) (fun s action => action.honest s = true ∧ action.resumes tp c s = true) start s) : Gapless c s := by
  apply path.invariant (Gapless c) gapless
  intro s action next kept admitted moved
  exact (step_gapless kept admitted.1 admitted.2 moved).1
end Runs

-- From a first start, or from one that finds an earlier record, over any stops, failures, fallbacks and switches.
theorem resume_window {tp : TimePackage} {c : Config} {now : Int} {source accepted : Finset Event} (record : Option (Int × Window))
    {s next : Deployment} {action : Action}
    (path : Machine.Reached (step tp c) (fun s action => action.honest s = true ∧ action.resumes tp c s = true)
      (deploy now source accepted (record.map fun r => syncEvent c.sourceRelayURL r.1 r.2)) s)
    (honest : action.honest s = true) (resumes : action.resumes tp c s = true) (moved : step tp c s action = some next) :
    Continues c s action next := by
  have initial : Gapless c (deploy now source accepted (record.map fun r => syncEvent c.sourceRelayURL r.1 r.2)) := by
    refine ⟨?_,fun w process => nomatch process⟩
    cases record with
    | none => exact .inl rfl
    | some r => exact .inr ⟨r.2,r.1,rfl⟩
  have gapless := run_gapless initial path
  refine ⟨(step_gapless gapless honest resumes moved).2,?_⟩
  intro a w turned synced last recorded
  exact (gapless.window w synced.1).starts last recorded

section Samples

def quiet (createdAt : Int) : Attempt := ⟨.ok [],fun _ => .reply .stored,⟨createdAt,none,.stored,false⟩,true⟩

def twoWindows : List Action := started ++ [.turn (quiet 1700000060),.turn (quiet 1700000061)]

def restarted : List Action := twoWindows ++ [.stop,.start none]

def firstWindow : Window := ⟨1700000000 * SECOND,1700000005 * SECOND⟩

def secondWindow : Window := ⟨1700000005 * SECOND,1700000010 * SECOND⟩

-- After a restart a configured start time records its first window again, behind the second.
theorem resume_window_fails : dated.validate plainYears = .ok () ∧ ∃ s next,
    Machine.Reached (step plainYears dated) (fun s action => action.honest s = true) (fresh ∅) s ∧
    step plainYears dated s (.turn (quiet 1700000062)) = some next ∧ (Action.turn (quiet 1700000062)).honest s = true ∧
    ¬ Continues dated s (.turn (quiet 1700000062)) next := by
  refine ⟨by decide +kernel,?_⟩
  obtain ⟨s,reached,checked⟩ := Machine.replay_final (step plainYears dated) (fun s action => action.honest s = true) (fresh ∅) restarted
    (fun s => decide (s.progress = some (syncEvent dated.sourceRelayURL 1700000061 secondWindow)) &&
      (Action.turn (quiet 1700000062)).honest s && (step plainYears dated s (.turn (quiet 1700000062))).any fun (next : Deployment) =>
        decide (next.progress = some (syncEvent dated.sourceRelayURL 1700000062 firstWindow)))
    (by decide +kernel) (by decide +kernel)
  rw [Bool.and_eq_true,Bool.and_eq_true,decide_eq_true_eq] at checked
  obtain ⟨⟨second,honest⟩,again⟩ := checked
  obtain ⟨next,moved,first⟩ := (Option.any_eq_true _ _).mp again
  refine ⟨s,next,reached,moved,honest,?_⟩
  intro continues
  obtain ⟨current,kept,later⟩ := continues.forward secondWindow ⟨_,second⟩
  rw [recorded_end (w := firstWindow) ⟨_,of_decide_eq_true first⟩ kept] at later
  exact absurd later (by decide)

-- Without a start time the restart goes on after the second window.
theorem resume_window_sample : ∃ s next,
    s.progress = some (syncEvent defaults.sourceRelayURL 1700000061 secondWindow) ∧ s.process = .windowed (secondWindow.next (seconds 5)) ∧
    Continues defaults s (.turn (quiet 1700000062)) next := by
  obtain ⟨s,reached,checked⟩ := Machine.replay_final (step plainYears defaults)
    (fun s action => action.honest s = true ∧ action.resumes plainYears defaults s = true)
    (deploy (1700000000 * SECOND) ∅ ∅ ((none : Option (Int × Window)).map fun r => syncEvent defaults.sourceRelayURL r.1 r.2)) restarted
    (fun s => decide (s.progress = some (syncEvent defaults.sourceRelayURL 1700000061 secondWindow)) &&
      decide (s.process = .windowed (secondWindow.next (seconds 5))) && (Action.turn (quiet 1700000062)).honest s &&
      (Action.turn (quiet 1700000062)).resumes plainYears defaults s && (step plainYears defaults s (.turn (quiet 1700000062))).isSome)
    (by decide +kernel) (by decide +kernel)
  rw [Bool.and_eq_true,Bool.and_eq_true,Bool.and_eq_true,Bool.and_eq_true,decide_eq_true_eq,decide_eq_true_eq] at checked
  obtain ⟨⟨⟨⟨second,process⟩,honest⟩,resumes⟩,moves⟩ := checked
  obtain ⟨next,moved⟩ := Option.isSome_iff_exists.mp moves
  exact ⟨s,next,second,process,resume_window none reached honest resumes moved⟩
end Samples

end DeepFry.EventForwarder
