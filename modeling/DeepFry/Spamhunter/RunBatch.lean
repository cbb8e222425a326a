import DeepFry.Lib.Machine
import DeepFry.Spamhunter.Enumerate

namespace DeepFry.Spamhunter
open Actor

-- The store, the enumeration and the scoring of one process at a time over one database file.
-- An action is one step of the writer thread, one reply of the adapter, or one synchronous step.

variable {F : Type}

def BATCH : Nat := 8192

inductive Phase where
  | off
  | probeStart (w : Walk) (attempt : Nat)
  | setStart (w : Walk) (maxStart : Int)
  | fetch (w : Walk) (attempt : Nat)
  | abort (w : Walk)
  | insert (w : Walk) (page : AuthorsPage)
  | flush (w : Walk) (pending : Option (AuthorsPage × Str))
  | await (w : Walk) (pending : Option (AuthorsPage × Str))
  | setCursor (w : Walk) (page : AuthorsPage) (cursor : Str)
  | probeEnd (w : Walk) (attempt : Nat)
  | setEnd (w : Walk) (maxEnd : Int)
  | enumerated (runId : Nat)
  | scoring (runId : Nat) (todo : List Str)
  | readEnd (runId : Nat)
  | markDone (runId : Nat) (maxEnd : Int)
  | closing

-- The walk whose next request is still to come or under way.
def walkOf : Phase → Option Walk
  | .probeStart w _ | .setStart w _ | .fetch w _ | .insert w _ | .setCursor w _ _ => some w
  | .flush w (some _) | .await w (some _) => some w
  | _ => none

def unscoredRun : Phase → Option Nat
  | .probeStart w _ | .setStart w _ | .fetch w _ | .abort w | .insert w _ | .flush w _ | .await w _ | .setCursor w _ _
  | .probeEnd w _ | .setEnd w _ => some w.runId
  | .enumerated runId => some runId
  | _ => none

def scoredRun : Phase → Option Nat
  | .scoring runId _ | .readEnd runId | .markDone runId _ => some runId
  | _ => none

-- The run whose walk is over and whose pubkeys are still to be read.
def enumeratedRun : Phase → Option Nat
  | .enumerated runId => some runId
  | _ => none

theorem enumeratedRun_some {phase : Phase} {runId : Nat} (here : enumeratedRun phase = some runId) : phase = .enumerated runId := by
  cases phase with
  | enumerated other =>
    cases here
    rfl
  | _ => cases here

def activeRun (phase : Phase) : Option Nat := (unscoredRun phase).or (scoredRun phase)

def todoOf : Phase → List Str
  | .scoring _ todo => todo
  | _ => []

-- acked: the barrier under way was acknowledged after a commit.
structure System (F : Type) where
  store : Thread (Tables F) (WriteMsg F)
  acked : Bool
  runs : Runs
  phase : Phase

def System.empty : System F := ⟨fresh Tables.empty,false,Runs.empty,.off⟩

inductive Action (F : Type) where
  | receive
  | begin
  | commit
  | fail
  | stop
  | start (resume : Bool) (now : Int) (configJson : Str) (limit : Option Nat)
  | stats (reply : Except ClientError Int)
  | page (reply : Except ClientError AuthorsPage)
  | proceed (now : Int)
  | storeError
  | score (p : Persist F)
  | fetchError
  | crash

def isFlush : WriteMsg F → Bool
  | .Flush => true
  | _ => false

-- Some flush barrier is still in the buffer or the queue.
def flushing (s : System F) : Bool := (outstanding s.store).any isFlush

-- Store::flush returns Ok whether or not the barrier was acknowledged.
def afterFlush (w : Walk) : Option (AuthorsPage × Str) → Phase
  | some (page,cursor) => .setCursor w page cursor
  | none => .probeEnd w 1

def advanced (w : Walk) (cursor : Str) : Walk := { w with after := some cursor }

def counted (w : Walk) (page : AuthorsPage) : Walk := { w with count := w.count + (valid page).length }

def proceed (now : Int) (s : System F) : Option (System F) :=
  match s.phase with
  | .setStart w maxStart =>
    some { s with
      runs := if w.existingStart.isNone then setRunMaxLevStart s.runs w.runId maxStart else s.runs
      phase := .fetch w 1 }
  | .abort w => some { s with runs := markRunAborted s.runs w.runId now, phase := .closing }
  | .insert w page =>
    match send s.store (.Pubkeys (valid page)) with
    -- insert_pubkeys panics when the writer is gone
    | none => some { s with phase := .closing }
    | some store => some { s with store, phase := .flush (counted w page) (page.endCursor.map (page,·)) }
  | .flush w pending =>
    match send s.store .Flush with
    | none => some { s with phase := afterFlush w pending }
    | some store => some { s with store, acked := false, phase := .await w pending }
  | .await w pending => if flushing s then none else some { s with phase := afterFlush w pending }
  | .setCursor w _ cursor =>
    some { s with
      runs := setRunCursor s.runs w.runId cursor
      phase := if (advanced w cursor).limited then .flush (advanced w cursor) none else .fetch (advanced w cursor) 1 }
  | .setEnd w maxEnd => some { s with runs := setRunMaxLevEnd s.runs w.runId maxEnd, phase := .enumerated w.runId }
  | .enumerated runId => some { s with phase := .scoring runId (readPubkeys s.store.committed) }
  | .scoring runId [] => some { s with phase := .readEnd runId }
  | .readEnd runId =>
    match readMaxLevEnd s.runs runId with
    | none => some { s with phase := .closing }
    | some v => some { s with phase := .markDone runId v }
  | .markDone runId v =>
    match markRunDone s.runs runId now v with
    | none => some { s with phase := .closing }
    | some runs => some { s with runs, phase := .closing }
  | .closing => if s.store.stage.live then none else some { s with phase := .off }
  | _ => none

def replyStats (reply : Except ClientError Int) (s : System F) : Option (System F) :=
  match s.phase with
  | .probeStart w attempt =>
    match retry attempt reply with
    | .returns v => some { s with phase := .setStart w v }
    | .again next => some { s with phase := .probeStart w next }
    | .fails _ => some { s with phase := .closing }
  | .probeEnd w attempt =>
    match retry attempt reply with
    | .returns v => some { s with phase := .setEnd w v }
    | .again next => some { s with phase := .probeEnd w next }
    | .fails _ => some { s with phase := .closing }
  | _ => none

def replyPage (reply : Except ClientError AuthorsPage) (s : System F) : Option (System F) :=
  match s.phase with
  | .fetch w attempt =>
    match retry attempt reply with
    | .returns page => some { s with phase := .insert w page }
    | .again next => some { s with phase := .fetch w next }
    | .fails e =>
      if restarts w.after e then some { s with phase := .fetch { w with after := none } 1 }
      else some { s with phase := .abort w }
  | _ => none

-- The phases whose store call can return an error, which leaves run_batch at once.
def callsStore : Phase → Bool
  | .setStart .. | .abort .. | .setCursor .. | .setEnd .. | .enumerated .. | .readEnd .. | .markDone .. => true
  | _ => false

-- The scoring stage takes the pubkeys in order, each with one submitted payload.
def score (p : Persist F) (s : System F) : Option (System F) :=
  match s.phase with
  | .scoring runId (pk :: todo) =>
    if p.runId = runId ∧ p.pubkey = pk then
      match send s.store (.Score p) with
      | none => some { s with phase := .closing }
      | some store => some { s with store, phase := .scoring runId todo }
    else none
  | _ => none

def step (s : System F) : Action F → Option (System F)
  | .receive => (receive BATCH s.store).map fun store => { s with store }
  | .begin => (begin BATCH s.store).map fun store => { s with store }
  | .commit =>
    if s.store.stage.buffer.all (foreignKeys s.runs) then
      (commit execute s.store).map fun store => { s with store, acked := s.acked || s.store.stage.buffer.any isFlush }
    else none
  | .fail => (fail s.store).map fun store => { s with store }
  | .stop =>
    match s.phase with
    | .closing => (stop s.store).map fun store => { s with store }
    | _ => none
  | .start resume now configJson limit =>
    match s.phase with
    | .off =>
      let (w,runs) := select resume now configJson limit s.runs
      some ⟨fresh s.store.committed,false,runs,.probeStart w 1⟩
    | _ => none
  | .stats reply => replyStats reply s
  | .page reply => replyPage reply s
  | .proceed now => proceed now s
  | .storeError => if callsStore s.phase then some { s with phase := .closing } else none
  | .score p => score p s
  | .fetchError =>
    match s.phase with
    | .scoring .. => some { s with phase := .closing }
    | _ => none
  | .crash => some ⟨fresh s.store.committed,false,s.runs,.off⟩

-- The moves of the writer thread; the process and its run table stand still.
inductive Writes (s : System F) : Action F → System F → Prop where
  | quiet {store action} : action = .receive ∨ action = .begin → store.committed = s.store.committed →
      outstanding store = outstanding s.store → s.store.stage.live = true → store.stage.live = true →
      Writes s action { s with store }
  | commit {store} : commit execute s.store = some store →
      Writes s .commit { s with store, acked := s.acked || s.store.stage.buffer.any isFlush }
  | fail {store} : fail s.store = some store → Writes s .fail { s with store }
  | stop {store} : s.phase = .closing → stop s.store = some store → Writes s .stop { s with store }

-- What each move of the system does, and from where.
inductive Step : System F → Action F → System F → Prop where
  | writer {s action next} : Writes s action next → Step s action next
  | start {s resume now configJson limit} : s.phase = .off →
      Step s (.start resume now configJson limit) ⟨fresh s.store.committed,false,
        (select resume now configJson limit s.runs).2,.probeStart (select resume now configJson limit s.runs).1 1⟩
  | probe {s w attempt reply phase} : s.phase = .probeStart w attempt →
      (∃ v, phase = .setStart w v) ∨ (∃ next, phase = .probeStart w next) ∨ phase = .closing →
      Step s (.stats reply) { s with phase }
  | probeEnd {s w attempt reply phase} : s.phase = .probeEnd w attempt →
      (∃ v, phase = .setEnd w v) ∨ (∃ next, phase = .probeEnd w next) ∨ phase = .closing →
      Step s (.stats reply) { s with phase }
  | page {s w attempt page} : s.phase = .fetch w attempt → Step s (.page (.ok page)) { s with phase := .insert w page }
  | again {s w attempt next e} : s.phase = .fetch w attempt → Step s (.page (.error e)) { s with phase := .fetch w next }
  | restart {s w attempt e} : s.phase = .fetch w attempt → restarts w.after e = true →
      Step s (.page (.error e)) { s with phase := .fetch { w with after := none } 1 }
  | failed {s w attempt e} : s.phase = .fetch w attempt → Step s (.page (.error e)) { s with phase := .abort w }
  | setStart {s w v now} : s.phase = .setStart w v →
      Step s (.proceed now) { s with
        runs := if w.existingStart.isNone then setRunMaxLevStart s.runs w.runId v else s.runs, phase := .fetch w 1 }
  | abort {s w now} : s.phase = .abort w →
      Step s (.proceed now) { s with runs := markRunAborted s.runs w.runId now, phase := .closing }
  | panic {s w page now} : s.phase = .insert w page → s.store.stage = .ended →
      Step s (.proceed now) { s with phase := .closing }
  | insert {s w page now store} : s.phase = .insert w page → send s.store (.Pubkeys (valid page)) = some store →
      Step s (.proceed now) { s with store, phase := .flush (counted w page) (page.endCursor.map (page,·)) }
  | unheard {s w pending now} : s.phase = .flush w pending → s.store.stage = .ended →
      Step s (.proceed now) { s with phase := afterFlush w pending }
  | flush {s w pending now store} : s.phase = .flush w pending → send s.store .Flush = some store →
      Step s (.proceed now) { s with store, acked := false, phase := .await w pending }
  | await {s w pending now} : s.phase = .await w pending → flushing s = false →
      Step s (.proceed now) { s with phase := afterFlush w pending }
  | setCursor {s w page cursor now} : s.phase = .setCursor w page cursor →
      Step s (.proceed now) { s with
        runs := setRunCursor s.runs w.runId cursor
        phase := if (advanced w cursor).limited then .flush (advanced w cursor) none else .fetch (advanced w cursor) 1 }
  | setEnd {s w v now} : s.phase = .setEnd w v →
      Step s (.proceed now) { s with runs := setRunMaxLevEnd s.runs w.runId v, phase := .enumerated w.runId }
  | read {s runId now} : s.phase = .enumerated runId →
      Step s (.proceed now) { s with phase := .scoring runId (readPubkeys s.store.committed) }
  | scored {s runId now} : s.phase = .scoring runId [] → Step s (.proceed now) { s with phase := .readEnd runId }
  | readEnd {s runId now phase} : s.phase = .readEnd runId → phase = .closing ∨ (∃ v, phase = .markDone runId v) →
      Step s (.proceed now) { s with phase }
  | vanished {s runId v now} : s.phase = .markDone runId v → markRunDone s.runs runId now v = none →
      Step s (.proceed now) { s with phase := .closing }
  | markDone {s runId v now runs} : s.phase = .markDone runId v → markRunDone s.runs runId now v = some runs →
      Step s (.proceed now) { s with runs, phase := .closing }
  | closed {s now} : s.phase = .closing → s.store.stage = .ended → Step s (.proceed now) { s with phase := .off }
  | storeError {s} : callsStore s.phase = true → Step s .storeError { s with phase := .closing }
  | lost {s runId pk todo p} : s.phase = .scoring runId (pk :: todo) → p.runId = runId → p.pubkey = pk →
      s.store.stage = .ended → Step s (.score p) { s with phase := .closing }
  | score {s runId pk todo p store} : s.phase = .scoring runId (pk :: todo) → p.runId = runId → p.pubkey = pk →
      send s.store (.Score p) = some store → Step s (.score p) { s with store, phase := .scoring runId todo }
  | fetchError {s runId todo} : s.phase = .scoring runId todo → Step s .fetchError { s with phase := .closing }
  | crash {s} : Step s .crash ⟨fresh s.store.committed,false,s.runs,.off⟩

section Inversion
variable {s next : System F}

theorem live_ended {stage : Stage (WriteMsg F)} (dead : stage.live = false) : stage = .ended := by
  cases stage with
  | ended => rfl
  | draining buf => cases dead
  | committing buf => cases dead

theorem stats_cases {reply : Except ClientError Int} (moved : replyStats reply s = some next) :
    Step s (.stats reply) next := by
  unfold replyStats at moved
  split at moved
  · rename_i w attempt here
    split at moved <;> cases moved
    · exact .probe here (.inl ⟨_,rfl⟩)
    · exact .probe here (.inr (.inl ⟨_,rfl⟩))
    · exact .probe here (.inr (.inr rfl))
  · rename_i w attempt here
    split at moved <;> cases moved
    · exact .probeEnd here (.inl ⟨_,rfl⟩)
    · exact .probeEnd here (.inr (.inl ⟨_,rfl⟩))
    · exact .probeEnd here (.inr (.inr rfl))
  · cases moved

theorem page_cases {reply : Except ClientError AuthorsPage} (moved : replyPage reply s = some next) :
    Step s (.page reply) next := by
  unfold replyPage at moved
  split at moved
  · rename_i w attempt here
    cases reply with
    | ok page => cases moved; exact .page here
    | error e =>
      cases turn : retry attempt (.error e) with
      | returns page => cases retry_returns turn
      | again after => rw [turn] at moved; cases moved; exact .again here
      | fails last =>
        have same : last = e := by
          simp only [retry] at turn
          split at turn <;> cases turn
          rfl
        subst same
        simp only [turn] at moved
        split at moved <;> cases moved
        · rename_i invalid
          exact .restart here invalid
        · exact .failed here
  · cases moved

theorem proceed_cases {now : Int} (moved : proceed now s = some next) : Step s (.proceed now) next := by
  unfold proceed at moved
  split at moved
  · cases moved; exact .setStart ‹_›
  · cases moved; exact .abort ‹_›
  · split at moved <;> cases moved
    · exact .panic ‹_› (send_none ‹_›)
    · exact .insert ‹_› ‹_›
  · split at moved <;> cases moved
    · exact .unheard ‹_› (send_none ‹_›)
    · exact .flush ‹_› ‹_›
  · split at moved <;> cases moved
    exact .await ‹_› (Bool.eq_false_iff.mpr ‹_›)
  · cases moved; exact .setCursor ‹_›
  · cases moved; exact .setEnd ‹_›
  · cases moved; exact .read ‹_›
  · cases moved; exact .scored ‹_›
  · split at moved <;> cases moved
    · exact .readEnd ‹_› (.inl rfl)
    · exact .readEnd ‹_› (.inr ⟨_,rfl⟩)
  · split at moved <;> cases moved
    · exact .vanished ‹_› ‹_›
    · exact .markDone ‹_› ‹_›
  · split at moved <;> cases moved
    exact .closed ‹_› (live_ended (Bool.eq_false_iff.mpr ‹_›))
  · cases moved

theorem score_cases {p : Persist F} (moved : score p s = some next) : Step s (.score p) next := by
  unfold score at moved
  split at moved
  · rename_i runId pk todo here
    split at moved
    · rename_i own
      split at moved <;> cases moved
      · exact .lost here own.1 own.2 (send_none ‹_›)
      · exact .score here own.1 own.2 ‹_›
    · cases moved
  · cases moved

theorem step_cases {action : Action F} (moved : step s action = some next) : Step s action next := by
  cases action with
  | receive =>
    obtain ⟨store,received,rfl⟩ := Option.map_eq_some_iff.mp moved
    obtain ⟨data,same,before,after⟩ := receive_parts received
    exact .writer (.quiet (.inl rfl) data same before after)
  | begin =>
    obtain ⟨store,began,rfl⟩ := Option.map_eq_some_iff.mp moved
    obtain ⟨data,same,before,after⟩ := begin_parts began
    exact .writer (.quiet (.inr rfl) data same before after)
  | commit =>
    simp only [step] at moved
    split at moved
    · obtain ⟨store,committed,rfl⟩ := Option.map_eq_some_iff.mp moved
      exact .writer (.commit committed)
    · cases moved
  | fail =>
    obtain ⟨store,failed,rfl⟩ := Option.map_eq_some_iff.mp moved
    exact .writer (.fail failed)
  | stop =>
    simp only [step] at moved
    split at moved
    · obtain ⟨store,stopped,rfl⟩ := Option.map_eq_some_iff.mp moved
      exact .writer (.stop ‹_› stopped)
    · cases moved
  | start resume now configJson limit =>
    simp only [step] at moved
    split at moved
    · cases moved; exact .start ‹_›
    · cases moved
  | stats reply => exact stats_cases moved
  | page reply => exact page_cases moved
  | proceed now => exact proceed_cases moved
  | storeError =>
    simp only [step] at moved
    split at moved
    · cases moved; exact .storeError ‹_›
    · cases moved
  | score p => exact score_cases moved
  | fetchError =>
    simp only [step] at moved
    split at moved
    · cases moved; exact .fetchError ‹_›
    · cases moved
  | crash => cases moved; exact .crash

end Inversion
end DeepFry.Spamhunter
