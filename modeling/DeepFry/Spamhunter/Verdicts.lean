import DeepFry.Lib.Decimal
import DeepFry.Spamhunter.Export
import DeepFry.Spamhunter.Signals
import DeepFry.Spamhunter.Tune

namespace DeepFry.Spamhunter
open Actor Machine

variable {F E : Type}

-- What the fetch stage hands to the scoring stage for a pubkey.
structure Answer (E : Type) where
  pubkey : Str
  events : List E
  whitelisted : Bool

-- The local variables of the last attempt at a run; once the attempt is over they are a record. The code keeps no inputs.
structure Attempt (F E : Type) where
  stage : ScoringStage F
  layer : Evaluate F E
  pubkeys : List Str
  inputs : List (Answer E)

-- The tables of one database file and the process that has it open.
structure Batch (F E : Type) where
  system : System F
  weight : Weights F
  attempts : Nat → Attempt F E

-- The steps of the runs of one process at a time, of the seeding before them and of the tuning between them.
inductive Move (F E : Type) where
  | seed (config : Config F) (inserted : Nat)
  | tune (fault : Query → Option Str) (now : Int) (stagingW : List F) (stagingB : F) (runId : Nat)
  | runBatch (config : Config F) (layer : Evaluate F E) (resume : Bool) (now : Int) (limit : Option Nat)
  | score (events : List E) (whitelisted : Bool)
  | other (action : Action F)

def seeded (config : Config F) (t : Weights F) : Weights F := seedWeightsIfEmpty config (seedRows config).length t

section Model
variable [Arithmetic F]

def Batch.empty : Batch F E :=
  ⟨System.empty,Weights.empty,fun _ => ⟨⟨[],[],Arithmetic.zero,Arithmetic.zero,rfl⟩,fun _ _ _ => ⟨Arithmetic.zero,[]⟩,[],[]⟩⟩

def Attempt.payload (a : Attempt F E) (runId : Nat) (input : Answer E) : Persist F :=
  a.stage.score a.layer runId input.pubkey input.events input.whitelisted

def payloads (attempts : Nat → Attempt F E) (runId : Nat) : List (Persist F) :=
  (attempts runId).inputs.map ((attempts runId).payload runId)

-- read_pubkeys stands between the enumeration and the pipeline.
def noteRead (s : System F) (action : Action F) (attempts : Nat → Attempt F E) : Nat → Attempt F E :=
  match s.phase,action with
  | .enumerated runId,.proceed _ => Function.update attempts runId { attempts runId with pubkeys := readPubkeys s.store.committed }
  | _,_ => attempts

-- run_batch and the tuner open the database one after the other.
def Batch.step (toJson : Snapshot F → Str) (s : Batch F E) : Move F E → Option (Batch F E)
  | .seed config inserted =>
    match s.system.phase with
    | .off => some { s with weight := seedWeightsIfEmpty config inserted s.weight }
    | _ => none
  | .tune fault now stagingW stagingB runId =>
    match s.system.phase with
    | .off =>
      match writeWeights fault now stagingW stagingB runId s.weight with
      | .error _ => some s
      | .ok weight => some { s with weight }
    | _ => none
  | .runBatch config layer resume now limit =>
    let weight := seeded config s.weight
    let weights := readWeights weight
    let json := toJson (snapshot config weights)
    (Spamhunter.step s.system (.start resume now json limit)).map fun system =>
      ⟨system,weight,Function.update s.attempts (select resume now json limit s.system.runs).1.runId
        ⟨.fromConfig config weights,layer,[],[]⟩⟩
  | .score events whitelisted =>
    match s.system.phase with
    | .scoring runId (pk :: _) =>
      let attempt := s.attempts runId
      (Spamhunter.step s.system (.score (attempt.payload runId ⟨pk,events,whitelisted⟩))).map fun system =>
        { s with system, attempts := Function.update s.attempts runId { attempt with inputs := attempt.inputs ++ [⟨pk,events,whitelisted⟩] } }
    | _ => none
  | .other action =>
    if submits action then none
    else (Spamhunter.step s.system action).map fun system => { s with system, attempts := noteRead s.system action s.attempts }

def succeeds : Action F → Bool
  | .fail => false
  | _ => true

-- Commits succeed, and a stamp reads back as it was written.
def assumed (toJson : Snapshot F → Str) (fromJson : Str → Option (Snapshot F)) (s : Batch F E) : Move F E → Prop
  | .other action => succeeds action = true
  | .runBatch config _ _ _ _ =>
    fromJson (toJson (snapshot config (readWeights (seeded config s.weight)))) = some (snapshot config (readWeights (seeded config s.weight)))
  | _ => True

instance [DecidableEq F] (toJson : Snapshot F → Str) (fromJson : Str → Option (Snapshot F)) (s : Batch F E) :
    (move : Move F E) → Decidable (assumed toJson fromJson s move)
  | .other action => inferInstanceAs (Decidable (succeeds action = true))
  | .runBatch config _ _ _ _ =>
    inferInstanceAs (Decidable (fromJson (toJson (snapshot config (readWeights (seeded config s.weight)))) =
      some (snapshot config (readWeights (seeded config s.weight)))))
  | .seed .. | .tune .. | .score .. => inferInstanceAs (Decidable True)

-- Every enabled layer has a row of its own.
def weighed (config : Config F) (t : Weights F) : Bool := config.declared.all fun entry => !entry.2.enabled || (t.row entry.1).isSome

-- A run is marked done with an idle writer, and starts with a row for each of its layers.
def meets (s : Batch F E) : Move F E → Bool
  | .other action => markedIdle s.system action
  | .runBatch config _ _ _ _ => weighed config (seeded config s.weight)
  | _ => true

end Model

-- The stage is what the snapshot makes of the layers.
structure Snapshot.Gives (snapshot : Snapshot F) (stage : ScoringStage F) : Prop where
  tau : stage.tau = snapshot.tau
  bias : stage.bias = snapshot.bias
  weights : stage.weights.map some = stage.layers.map fun layer => (snapshot.weights.find? (·.layer = layer)).map (·.weight)

theorem snapshot_gives {config : Config F} {t : Weights F} (rows : weighed config t = true) :
    (snapshot config (readWeights t)).Gives (.fromConfig config (readWeights t)) := by
  refine ⟨rfl,rfl,?_⟩
  unfold ScoringStage.fromConfig snapshot
  rw [List.map_map,List.map_map]
  apply List.map_congr_left
  intro entry enabled
  obtain ⟨declared,on⟩ := List.mem_filter.mp enabled
  have row := List.all_eq_true.mp rows entry declared
  rw [on,Bool.not_true,Bool.false_or,Option.isSome_iff_exists] at row
  obtain ⟨w,found⟩ := row
  simp only [Function.comp_apply,readWeights_row,found,Option.map_some,Option.getD_some]

-- A write that leaves every run its stamp, and adds no run.
def Stays (t next : Runs) : Prop := ∀ run ∈ next.rows, ∃ old ∈ t.rows, old.runId = run.runId ∧ old.configJson = run.configJson

theorem stays_refl (t : Runs) : Stays t t := fun run stored => ⟨run,stored,rfl,rfl⟩

theorem stays_update (t : Runs) (runId : Nat) (set : Run → Run) (keeps : ∀ run, (set run).runId = run.runId)
    (same : ∀ run, (set run).configJson = run.configJson) : Stays t (t.update runId set keeps) := by
  intro run member
  obtain ⟨old,stored,rfl⟩ := mem_update.mp member
  refine ⟨old,stored,?_⟩
  by_cases here : old.runId = runId
  · rw [if_pos here]
    exact ⟨(keeps old).symm,(same old).symm⟩
  · rw [if_neg here]
    exact ⟨rfl,rfl⟩

theorem stays_cursor (t : Runs) (runId : Nat) (cursor : Str) : Stays t (setRunCursor t runId cursor) := stays_update t _ _ _ fun _ => rfl

theorem stays_maxLevStart (t : Runs) (runId : Nat) (v : Int) : Stays t (setRunMaxLevStart t runId v) := stays_update t _ _ _ fun _ => rfl

theorem stays_maxLevEnd (t : Runs) (runId : Nat) (v : Int) : Stays t (setRunMaxLevEnd t runId v) := stays_update t _ _ _ fun _ => rfl

theorem stays_aborted (t : Runs) (runId : Nat) (now : Int) : Stays t (markRunAborted t runId now) := stays_update t _ _ _ fun _ => rfl

theorem stays_done {t runs : Runs} {runId : Nat} {now v : Int} (marked : markRunDone t runId now v = some runs) : Stays t runs := by
  unfold markRunDone at marked
  split at marked
  · cases marked
    exact stays_update t _ _ _ fun _ => rfl
  · cases marked

section Quiet
variable {s next : System F} {action : Action F}

-- The steps between the start of an attempt and its end, but for the payloads.
structure Quiet (s : System F) (action : Action F) (next : System F) : Prop where
  stays : Stays s.runs next.runs
  active : ∀ runId, activeRun next.phase = some runId → activeRun s.phase = some runId
  scored : ∀ runId, scoredRun next.phase = some runId →
    scoredRun s.phase = some runId ∧ todoOf next.phase = todoOf s.phase ∨
      s.phase = .enumerated runId ∧ todoOf next.phase = readPubkeys s.store.committed ∧ ∃ now, action = .proceed now
  closed : ∀ run ∈ next.runs.rows, run.status = .done →
    (∃ old ∈ s.runs.rows, old.runId = run.runId ∧ old.status = .done) ∨ scoredRun s.phase = some run.runId ∧ todoOf s.phase = []

theorem Quiet.runs {runs : Runs} {phase : Phase} {store : Thread (Tables F) (WriteMsg F)} {acked : Bool} (stays : Stays s.runs runs)
    (unclosed : Unclosed s.runs runs) (active : ∀ runId, activeRun phase = some runId → activeRun s.phase = some runId)
    (scored : ∀ runId, scoredRun phase = some runId → scoredRun s.phase = some runId ∧ todoOf phase = todoOf s.phase) :
    Quiet s action ⟨store,acked,runs,phase⟩ :=
  ⟨stays,active,fun runId here => .inl (scored runId here),fun run stored done => .inl (unclosed run stored done)⟩

-- The process moves on, its run table as it was.
theorem Quiet.phase {phase : Phase} {store : Thread (Tables F) (WriteMsg F)} {acked : Bool}
    (active : ∀ runId, activeRun phase = some runId → activeRun s.phase = some runId)
    (scored : ∀ runId, scoredRun phase = some runId → scoredRun s.phase = some runId ∧ todoOf phase = todoOf s.phase) :
    Quiet s action ⟨store,acked,s.runs,phase⟩ := .runs (stays_refl _) (.refl _) active scored

theorem Quiet.leaves {store : Thread (Tables F) (WriteMsg F)} {acked : Bool} {phase : Phase} (out : activeRun phase = none)
    (over_ : scoredRun phase = none) : Quiet s action ⟨store,acked,s.runs,phase⟩ := by
  apply Quiet.phase
  · intro runId here
    rw [out] at here
    cases here
  · intro runId here
    rw [over_] at here
    cases here

theorem quiet_writes (wrote : Writes s action next) : Quiet s action next := by
  cases wrote with
  | quiet | commit | fail | stop => exact .phase (fun _ here => here) fun _ here => ⟨here,rfl⟩

-- The walk goes on under its own run.
theorem Quiet.walks {runs : Runs} {phase : Phase} {store : Thread (Tables F) (WriteMsg F)} {acked : Bool} {runId : Nat}
    (before : activeRun s.phase = some runId) (after : activeRun phase = some runId) (unscored : scoredRun phase = none)
    (stays : Stays s.runs runs) (unclosed : Unclosed s.runs runs) : Quiet s action ⟨store,acked,runs,phase⟩ := by
  apply Quiet.runs stays unclosed
  · intro other here
    rw [after] at here
    cases here
    exact before
  · intro other here
    rw [unscored] at here
    cases here

theorem quiet_step (moved : Step s action next) (quiet : submits action = false) : Quiet s action next := by
  cases moved with
  | writer wrote => exact quiet_writes wrote
  | start | score | lost => cases quiet
  | probe here way | probeEnd here way =>
    have before : activeRun s.phase = _ := congrArg activeRun here
    obtain ⟨v,rfl⟩ | ⟨attempt,rfl⟩ | rfl := way
    · exact .walks before rfl rfl (stays_refl _) (.refl _)
    · exact .walks before rfl rfl (stays_refl _) (.refl _)
    · exact .leaves rfl rfl
  | page here | again here | restart here | failed here | insert here | flush here =>
    exact .walks (congrArg activeRun here) rfl rfl (stays_refl _) (.refl _)
  | @setStart w v now here =>
    apply Quiet.walks (congrArg activeRun here) rfl rfl
    · split
      · exact stays_maxLevStart _ _ _
      · exact stays_refl _
    · split
      · exact unclosed_maxLevStart _ _ _
      · exact .refl _
  | abort here =>
    apply Quiet.runs (stays_aborted _ _ _) (unclosed_aborted _ _ _)
    · exact fun _ here => by cases here
    · exact fun _ here => by cases here
  | panic | vanished | closed | storeError | fetchError | crash => exact .leaves rfl rfl
  | @unheard w pending now here | @await w pending now here =>
    cases pending with
    | none => exact .walks (congrArg activeRun here) rfl rfl (stays_refl _) (.refl _)
    | some next => exact .walks (congrArg activeRun here) rfl rfl (stays_refl _) (.refl _)
  | @setCursor w page cursor now here =>
    apply Quiet.walks (congrArg activeRun here) _ _ (stays_cursor _ _ _) (unclosed_cursor _ _ _)
    · split <;> rfl
    · split <;> rfl
  | setEnd here => exact .walks (congrArg activeRun here) rfl rfl (stays_maxLevEnd _ _ _) (unclosed_maxLevEnd _ _ _)
  | @read runId now here =>
    refine ⟨stays_refl _,?_,?_,fun run stored done => .inl ⟨run,stored,rfl,done⟩⟩
    · intro other active
      rw [here]
      exact active
    · intro other active
      cases active
      exact .inr ⟨here,rfl,now,rfl⟩
  | @scored runId now here =>
    apply Quiet.phase
    · intro other active
      rw [here]
      exact active
    · intro other active
      rw [here]
      exact ⟨active,rfl⟩
  | @readEnd runId now phase here way =>
    obtain rfl | ⟨v,rfl⟩ := way
    · exact .leaves rfl rfl
    · apply Quiet.phase
      · intro other active
        rw [here]
        exact active
      · intro other active
        rw [here]
        exact ⟨active,rfl⟩
  | @markDone runId v now runs here marked =>
    refine ⟨stays_done marked,fun _ active => (by cases active),fun _ active => (by cases active),?_⟩
    intro run stored done
    by_cases own : run.runId = runId
    · rw [here,own]
      exact .inr ⟨rfl,rfl⟩
    · exact .inl (done_closes marked stored own done)

end Quiet

section Rows
variable {db : Tables F} {key : Nat × Str}

-- A score row is an old one or that of a payload.
theorem mem_execute {message : WriteMsg F} (member : key ∈ (execute message db).score) :
    key ∈ db.score ∨ ∃ p, message = .Score p ∧ key = (p.runId,p.pubkey) := by
  cases message with
  | Score p =>
    have same : (execute (.Score p) db).score = (upScore p (upPubkey p.pubkey db)).score := upSignals_score _ _ _
    rw [same,upScore,AList.mem_insert,upPubkey_score] at member
    obtain new | old := member
    · exact .inr ⟨p,rfl,new⟩
    · exact .inl old
  | Pubkeys pks =>
    rw [execute,upPubkeys_score] at member
    exact .inl member
  | Fingerprints fps =>
    rw [execute,(upFingerprints_parts fps db).1] at member
    exact .inl member
  | Flush => exact .inl member

theorem mem_batch {batch : List (WriteMsg F)} (member : key ∈ (batch.foldl (fun db message => execute message db) db).score) :
    key ∈ db.score ∨ ∃ p, .Score p ∈ batch ∧ key = (p.runId,p.pubkey) := by
  induction batch generalizing db with
  | nil => exact .inl member
  | cons message rest ih =>
    obtain before | ⟨p,later,same⟩ := ih member
    · obtain old | ⟨p,rfl,same⟩ := mem_execute before
      · exact .inl old
      · exact .inr ⟨p,List.mem_cons_self,same⟩
    · exact .inr ⟨p,List.mem_cons_of_mem _ later,same⟩

-- The pubkey of a score row is in the pubkey table.
def Known (db : Tables F) : Prop := ∀ key, key ∈ db.score → key.2 ∈ db.pubkey

theorem Known.batch (known : Known db) (batch : List (WriteMsg F)) : Known (batch.foldl (fun db message => execute message db) db) := by
  induction batch generalizing db with
  | nil => exact known
  | cons message rest ih =>
    apply ih
    intro key member
    rw [execute_pubkey]
    obtain old | ⟨p,rfl,rfl⟩ := mem_execute member
    · exact .inr (known key old)
    · exact .inl (List.mem_singleton_self _)

theorem mem_readPubkeys {pk : Str} : pk ∈ readPubkeys db ↔ pk ∈ db.pubkey := List.mem_insertionSort _

end Rows

section Attempts
variable {s next : System F} {attempts : Nat → Attempt F E} {action : Action F} {fromJson : Str → Option (Snapshot F)}

-- The attempt has taken up what it read but for the rest, and no row of its run is of another pubkey.
structure Rescored (a : Attempt F E) (runId : Nat) (db : Tables F) (todo : List Str) : Prop where
  taken : a.inputs.map (·.pubkey) ++ todo = a.pubkeys
  distinct : a.pubkeys.Nodup
  rows : ∀ pk, (runId,pk) ∈ db.score → pk ∈ a.pubkeys

def Stamped (fromJson : Str → Option (Snapshot F)) (runs : Runs) (runId : Nat) (stage : ScoringStage F) : Prop :=
  ∀ run ∈ runs.rows, run.runId = runId → ∃ stamp, fromJson run.configJson = some stamp ∧ stamp.Gives stage

theorem Stamped.stays {runs after : Runs} {runId : Nat} {stage : ScoringStage F} (stamped : Stamped fromJson runs runId stage)
    (stays : Stays runs after) : Stamped fromJson after runId stage := by
  intro run member own
  obtain ⟨old,stored,same,json⟩ := stays run member
  rw [← json]
  exact stamped old stored (same.trans own)

theorem known_step (known : Known s.store.committed) (moved : Step s action next) : Known next.store.committed := by
  obtain ⟨same,_⟩ | ⟨_,committed⟩ := step_committed moved
  · rwa [same]
  · rw [(commit_parts committed).2.2.2]
    exact known.batch _

theorem scored_active {phase : Phase} {runId : Nat} (scored : scoredRun phase = some runId) :
    unscoredRun phase = none ∧ activeRun phase = some runId := by
  cases phase with
  | scoring | readEnd | markDone => exact ⟨rfl,scored⟩
  | _ => cases scored

theorem noteRead_cases (s : System F) (action : Action F) (attempts : Nat → Attempt F E) : noteRead s action attempts = attempts ∨
    ∃ runId, s.phase = .enumerated runId ∧
      noteRead s action attempts = Function.update attempts runId { attempts runId with pubkeys := readPubkeys s.store.committed } := by
  unfold noteRead
  split
  · next runId _ here => exact .inr ⟨runId,here,rfl⟩
  · exact .inl rfl

theorem noteRead_other {s : System F} {runId : Nat} (attempts : Nat → Attempt F E) (other : unscoredRun s.phase ≠ some runId) :
    noteRead s action attempts runId = attempts runId := by
  obtain same | ⟨read,here,noted⟩ := noteRead_cases s action attempts
  · rw [same]
  · rw [noted]
    apply Function.update_of_ne
    intro same
    subst same
    exact other (by rw [here]; rfl)

theorem noteRead_kept (s : System F) (action : Action F) (attempts : Nat → Attempt F E) (runId : Nat) :
    (noteRead s action attempts runId).stage = (attempts runId).stage ∧ (noteRead s action attempts runId).layer = (attempts runId).layer ∧
      (noteRead s action attempts runId).inputs = (attempts runId).inputs := by
  obtain same | ⟨read,_,noted⟩ := noteRead_cases s action attempts
  · rw [same]
    exact ⟨rfl,rfl,rfl⟩
  · rw [noted]
    by_cases own : runId = read
    · rw [own,Function.update_self]
      exact ⟨rfl,rfl,rfl⟩
    · rw [Function.update_of_ne own]
      exact ⟨rfl,rfl,rfl⟩

def Attempt.take (a : Attempt F E) (input : Answer E) : Attempt F E := { a with inputs := a.inputs ++ [input] }

theorem take_stage (attempts : Nat → Attempt F E) (runId other : Nat) (input : Answer E) :
    (Function.update attempts runId ((attempts runId).take input) other).stage = (attempts other).stage := by
  by_cases own : other = runId
  · subst own
    rw [Function.update_self]
    rfl
  · rw [Function.update_of_ne own]

variable [Arithmetic F]

structure Judged (fromJson : Str → Option (Snapshot F)) (s : System F) (attempts : Nat → Attempt F E) : Prop where
  accounted : Accounted s (payloads attempts)
  known : Known s.store.committed
  queued : ∀ p, .Score p ∈ outstanding s.store → p ∈ payloads attempts p.runId
  active : ∀ runId, activeRun s.phase = some runId → Stamped fromJson s.runs runId (attempts runId).stage
  scoring : ∀ runId, scoredRun s.phase = some runId →
    Rescored (attempts runId) runId s.store.committed (todoOf s.phase)
  done : ∀ run ∈ s.runs.rows, run.status = .done →
    Stamped fromJson s.runs run.runId (attempts run.runId).stage ∧
      Rescored (attempts run.runId) run.runId s.store.committed []

theorem mem_payloads {runId : Nat} {p : Persist F} (member : p ∈ payloads attempts runId) : p.pubkey ∈ (attempts runId).inputs.map (·.pubkey) := by
  obtain ⟨input,listed,rfl⟩ := List.mem_map.mp member
  exact List.mem_map_of_mem listed

-- What a commit brings to a run are payloads of its attempt.
theorem Rescored.step (queued : ∀ p, .Score p ∈ outstanding s.store → p ∈ payloads attempts p.runId) (moved : Step s action next)
    {runId : Nat} {todo : List Str} (covered : Rescored (attempts runId) runId s.store.committed todo) :
    Rescored (attempts runId) runId next.store.committed todo := by
  refine ⟨covered.taken,covered.distinct,?_⟩
  intro pk member
  obtain ⟨same,_⟩ | ⟨_,committed⟩ := step_committed moved
  · rw [same] at member
    exact covered.rows pk member
  · rw [(commit_parts committed).2.2.2] at member
    obtain old | ⟨p,buffered,key⟩ := mem_batch member
    · exact covered.rows pk old
    · cases key
      have taken := mem_payloads (queued p (List.mem_append_left _ buffered))
      rw [← covered.taken]
      exact List.mem_append_left _ taken

theorem noteRead_payloads (s : System F) (action : Action F) (attempts : Nat → Attempt F E) : payloads (noteRead s action attempts) = payloads attempts := by
  funext runId
  obtain ⟨stage,layer,inputs⟩ := noteRead_kept s action attempts runId
  unfold payloads Attempt.payload
  rw [stage,layer,inputs]

-- Between its start and its end an attempt keeps its stamp and takes up what it read.
theorem judged_other (judged : Judged fromJson s attempts) (moved : Step s action next) (quiet : submits action = false)
    (idle : markedIdle s action = true) : Judged fromJson next (noteRead s action attempts) := by
  have goes := quiet_step moved quiet
  have same := noteRead_payloads s action attempts
  refine ⟨?_,known_step judged.known moved,?_,?_,?_,?_⟩
  · rw [same]
    have accounted := accounted_step moved idle judged.accounted
    rwa [noteSubmitted_same quiet] at accounted
  · intro p held
    rw [same]
    obtain ⟨old,_⟩ | new := step_outstanding moved held
    · exact judged.queued p old
    · subst new
      cases quiet
  · intro runId here
    rw [(noteRead_kept s action attempts runId).1]
    exact (judged.active runId (goes.active runId here)).stays goes.stays
  · intro runId here
    obtain ⟨before,todo⟩ | ⟨enumerated,todo,now,proceeds⟩ := goes.scored runId here
    · have other : unscoredRun s.phase ≠ some runId := by simp [(scored_active before).1]
      rw [noteRead_other attempts other,todo]
      exact (judged.scoring runId before).step judged.queued moved
    · -- The pubkeys are read: nothing has been taken up, and every row is of one of them.
      have none := (judged.accounted.unscored runId (by rw [enumerated]; rfl)).2
      have empty : (attempts runId).inputs = [] := List.map_eq_nil_iff.mp none
      have read : noteRead s action attempts runId = { attempts runId with pubkeys := readPubkeys s.store.committed } := by
        simp only [noteRead,enumerated,proceeds,Function.update_self]
      have same : next.store.committed = s.store.committed := by
        obtain ⟨same,_⟩ | ⟨commits,_⟩ := step_committed moved
        · exact same
        · rw [proceeds] at commits
          cases commits
      simp only [read,todo,same]
      refine ⟨?_,readPubkeys_nodup _,?_⟩
      · simp [empty]
      · intro pk member
        exact mem_readPubkeys.mpr (judged.known _ member)
  · intro run stored done
    rw [(noteRead_kept s action attempts run.runId).1]
    obtain ⟨old,there,same,closed⟩ | ⟨scored,rest⟩ := goes.closed run stored done
    · obtain ⟨stamped,rescored⟩ := judged.done old there closed
      rw [same] at stamped rescored
      have other : unscoredRun s.phase ≠ some run.runId := by
        intro here
        exact (judged.accounted.unscored run.runId here).1 old there same closed
      rw [noteRead_other attempts other]
      exact ⟨stamped.stays goes.stays,rescored.step judged.queued moved⟩
    · obtain ⟨unscored,active⟩ := scored_active scored
      have other : unscoredRun s.phase ≠ some run.runId := by simp [unscored]
      have rescored := (judged.scoring run.runId scored).step judged.queued moved
      rw [rest] at rescored
      rw [noteRead_other attempts other]
      exact ⟨(judged.active run.runId active).stays goes.stays,rescored⟩

-- The attempt that starts stamps its run and no other.
theorem select_stamps {resume : Bool} {now : Int} {json : Str} {limit : Option Nat} {t : Runs} {run : Run}
    (stored : run ∈ (select resume now json limit t).2.rows) :
    run.runId = (select resume now json limit t).1.runId ∧ run.configJson = json ∨
      run.runId ≠ (select resume now json limit t).1.runId ∧ ∃ old ∈ t.rows, old.runId = run.runId ∧ old.configJson = run.configJson := by
  obtain ⟨chosen,_,_,selected⟩ | ⟨_,selected⟩ := select_cases resume now json limit t
  · rw [selected,continueRun] at stored ⊢
    simp only [setRunConfigJson,mem_update] at stored
    obtain ⟨old,there,rfl⟩ := stored
    by_cases own : old.runId = chosen.runId
    · rw [if_pos own]
      exact .inl ⟨own,rfl⟩
    · rw [if_neg own]
      exact .inr ⟨own,old,there,rfl,rfl⟩
  · rw [selected] at stored ⊢
    obtain old | new := List.mem_append.mp stored
    · have bound := t.issued run old
      have other : run.runId ≠ t.sequence + 1 := by omega
      exact .inr ⟨other,run,old,rfl,rfl⟩
    · cases List.mem_singleton.mp new
      exact .inl ⟨rfl,rfl⟩

theorem judged_start (judged : Judged fromJson s attempts) {resume : Bool} {now : Int} {json : Str} {limit : Option Nat}
    (off : s.phase = .off) {stage : ScoringStage F} {stamp : Snapshot F} (layer : Evaluate F E) (parsed : fromJson json = some stamp)
    (gives : stamp.Gives stage) :
    Judged fromJson ⟨fresh s.store.committed,false,(select resume now json limit s.runs).2,.probeStart (select resume now json limit s.runs).1 1⟩
      (Function.update attempts (select resume now json limit s.runs).1.runId ⟨stage,layer,[],[]⟩) := by
  have accounted := accounted_step (@Step.start F s resume now json limit off) rfl judged.accounted
  have same : noteSubmitted s (.start resume now json limit) (payloads attempts) =
      payloads (Function.update attempts (select resume now json limit s.runs).1.runId ⟨stage,layer,[],[]⟩) := by
    funext runId
    simp only [noteSubmitted,off]
    by_cases own : runId = (select resume now json limit s.runs).1.runId
    · rw [own,Function.update_self,payloads,Function.update_self]
      rfl
    · rw [Function.update_of_ne own,payloads,payloads,Function.update_of_ne own]
  rw [same] at accounted
  have unclosed := @select_open resume now json limit s.runs
  refine ⟨accounted,judged.known,?_,?_,?_,?_⟩
  · intro p held
    cases held
  · intro runId here
    cases here
    intro run stored own
    obtain ⟨_,json⟩ | ⟨other,_⟩ := select_stamps stored
    · rw [json,Function.update_self]
      exact ⟨stamp,parsed,gives⟩
    · exact absurd own other
  · intro runId here
    cases here
  · intro run stored done
    obtain ⟨old,there,sameId,closed⟩ := unclosed.1 run stored done
    have other : run.runId ≠ (select resume now json limit s.runs).1.runId := by
      rw [← sameId]
      exact unclosed.2.2 old there closed
    obtain ⟨stamped,rescored⟩ := judged.done old there closed
    rw [sameId] at stamped rescored
    rw [Function.update_of_ne other]
    refine ⟨?_,rescored⟩
    intro another listed own
    obtain ⟨here,_⟩ | ⟨_,before,known,named,json⟩ := select_stamps listed
    · exact absurd (own.symm.trans here) other
    · rw [← json]
      exact stamped before known (named.trans own)

theorem payloads_take (attempts : Nat → Attempt F E) (runId : Nat) (input : Answer E) :
    payloads (Function.update attempts runId ((attempts runId).take input)) =
      Function.update (payloads attempts) runId (payloads attempts runId ++ [(attempts runId).payload runId input]) := by
  funext other
  by_cases own : other = runId
  · subst own
    rw [payloads,Function.update_self,Function.update_self]
    exact List.map_append
  · rw [payloads,Function.update_of_ne own,Function.update_of_ne own]
    rfl

theorem judged_score (judged : Judged fromJson s attempts) {runId : Nat} {pk : Str} {todo : List Str} (here : s.phase = .scoring runId (pk :: todo))
    {input : Answer E} (named : input.pubkey = pk) (moved : Step s (.score ((attempts runId).payload runId input)) next) :
    Judged fromJson next (Function.update attempts runId ((attempts runId).take input)) := by
  have accounted := accounted_step moved rfl judged.accounted
  have noted : noteSubmitted s (.score ((attempts runId).payload runId input)) (payloads attempts) =
      payloads (Function.update attempts runId ((attempts runId).take input)) := by
    rw [payloads_take]
    simp only [noteSubmitted,here]
  rw [noted] at accounted
  have scored : scoredRun s.phase = some runId := by
    rw [here]
    rfl
  have opened := (judged.accounted.scored runId scored).1
  have rescored := judged.scoring runId scored
  rw [here] at rescored
  have grown : Rescored ((attempts runId).take input) runId s.store.committed todo := by
    refine ⟨?_,rescored.distinct,rescored.rows⟩
    have taken := rescored.taken
    simp only [Attempt.take,List.map_append,List.map_cons,List.map_nil,named,List.append_assoc]
    exact taken
  have queued : ∀ p, .Score p ∈ outstanding next.store → p ∈ payloads (Function.update attempts runId ((attempts runId).take input)) p.runId := by
    intro p held
    rw [payloads_take]
    obtain ⟨old,_⟩ | new := step_outstanding moved held
    · have member := judged.queued p old
      by_cases own : p.runId = runId
      · rw [own] at member ⊢
        rw [Function.update_self]
        exact List.mem_append_left _ member
      · rwa [Function.update_of_ne own]
    · cases new
      have own : ((attempts runId).payload runId input).runId = runId := rfl
      rw [own,Function.update_self]
      exact List.mem_append_right _ (List.mem_singleton_self _)
  have done : ∀ run ∈ s.runs.rows, run.status = .done →
      Stamped fromJson s.runs run.runId (Function.update attempts runId ((attempts runId).take input) run.runId).stage ∧
        Rescored (Function.update attempts runId ((attempts runId).take input) run.runId) run.runId s.store.committed [] := by
    intro run stored closed
    have other : run.runId ≠ runId := fun own => opened run stored own closed
    rw [Function.update_of_ne other]
    exact judged.done run stored closed
  cases moved with
  | writer wrote => cases writes_submit wrote
  | lost phase =>
    refine ⟨accounted,judged.known,queued,?_,?_,done⟩
    · intro other active
      cases active
    · intro other active
      cases active
  | score phase _ _ sent =>
    cases here.symm.trans phase
    have same := (send_parts sent).2.1
    refine ⟨accounted,?_,queued,?_,?_,?_⟩
    · rw [same]
      exact judged.known
    · intro other active
      cases active
      rw [take_stage]
      exact judged.active runId (scored_active scored).2
    · intro other active
      cases active
      rw [Function.update_self,same]
      exact grown
    · rw [same]
      exact done

-- What each move makes of the system, and of the attempts.
theorem judged_step {toJson : Snapshot F → Str} {b after : Batch F E} {move : Move F E} (judged : Judged fromJson b.system b.attempts)
    (assumes : assumed toJson fromJson b move) (good : meets b move = true) (moved : b.step toJson move = some after) :
    Judged fromJson after.system after.attempts := by
  cases move with
  | seed config inserted =>
    simp only [Batch.step] at moved
    split at moved
    · cases moved
      exact judged
    · cases moved
  | tune fault now stagingW stagingB runId =>
    simp only [Batch.step] at moved
    split at moved
    · split at moved
      · cases moved
        exact judged
      · cases moved
        exact judged
    · cases moved
  | runBatch config layer resume now limit =>
    obtain ⟨system,started,rfl⟩ := Option.map_eq_some_iff.mp moved
    cases step_cases started with
    | writer wrote => cases writes_submit wrote
    | start off => exact judged_start judged off layer assumes (snapshot_gives good)
  | score events whitelisted =>
    simp only [Batch.step] at moved
    split at moved
    · next runId pk todo here =>
      obtain ⟨system,submitted,rfl⟩ := Option.map_eq_some_iff.mp moved
      exact judged_score judged here rfl (step_cases submitted)
    · cases moved
  | other action =>
    simp only [Batch.step] at moved
    split at moved
    · cases moved
    · next quiet =>
      obtain ⟨system,stepped,rfl⟩ := Option.map_eq_some_iff.mp moved
      exact judged_other judged (step_cases stepped) (Bool.eq_false_iff.mpr quiet) good

theorem judged_reached {toJson : Snapshot F → Str} {b : Batch F E}
    (path : Reached (Batch.step toJson) (fun b move => assumed toJson fromJson b move ∧ meets b move = true) Batch.empty b) :
    Judged fromJson b.system b.attempts := by
  apply path.invariant fun b => Judged fromJson b.system b.attempts
  · refine ⟨⟨?_,?_,?_,?_,?_⟩,?_,?_,?_,?_,?_⟩
    · intro run stored
      cases stored
    · intro runId p known
      cases known
    · intro p held
      cases held
    · intro runId here
      cases here
    · intro runId here
      cases here
    · intro key member
      cases member
    · intro p held
      cases held
    · intro runId here
      cases here
    · intro runId here
      cases here
    · intro run stored
      cases stored
  · intro b move after judged both moved
    exact judged_step judged both.1 both.2 moved

end Attempts

section Done
variable [Arithmetic F]

-- What the stage and the snapshot's own numbers make of an answer.
def judgement (a : Attempt F E) (stamp : Snapshot F) (input : Answer E) : Score F :=
  let score := combine a.stage.weights stamp.bias (a.stage.layers.map fun name => (a.layer name input.events input.whitelisted).value)
  ⟨score,input.whitelisted,Arithmetic.gt score stamp.tau⟩

theorem payload_judgement {a : Attempt F E} {stamp : Snapshot F} (gives : stamp.Gives a.stage) (runId : Nat) (input : Answer E) :
    (⟨(a.payload runId input).score,(a.payload runId input).whitelisted,(a.payload runId input).suspected⟩ : Score F) = judgement a stamp input := by
  simp only [Attempt.payload,ScoringStage.score,judgement,List.map_map,gives.bias,gives.tau]
  rfl

variable [LinearOrder F]

-- The verdicts of a run that is done are those of its stamp on what its last attempt read and fetched.
structure Verdicts (fromJson : Str → Option (Snapshot F)) (b : Batch F E) (run : Run) (stamp : Snapshot F) : Prop where
  parsed : fromJson run.configJson = some stamp
  gives : stamp.Gives (b.attempts run.runId).stage
  answered : (b.attempts run.runId).inputs.map (·.pubkey) = (b.attempts run.runId).pubkeys ∧ (b.attempts run.runId).pubkeys.Nodup
  rows : ∀ pk ∈ (b.attempts run.runId).pubkeys, b.system.store.committed.score.keys.count (run.runId,pk) = 1
  scores : ∀ pk row, b.system.store.committed.score.lookup (run.runId,pk) = some row →
    ∃ input ∈ (b.attempts run.runId).inputs, input.pubkey = pk ∧ row = judgement (b.attempts run.runId) stamp input
  exported : ∀ now table, ∃ rows listed, materializeSuspected fromJson now run.runId b.system.runs b.system.store.committed table = some rows ∧
    rows.filter (·.runId = run.runId) = ranked run.runId stamp.tau now listed ∧
    rows.filter (·.runId ≠ run.runId) = table.filter (·.runId ≠ run.runId) ∧
    (listed.Pairwise fun a b => b.2 < a.2 ∨ a.2 = b.2 ∧ a.1 < b.1) ∧
    ∀ pk x, (pk,x) ∈ listed ↔
      ∃ row, b.system.store.committed.score.lookup (run.runId,pk) = some row ∧ row.score = x ∧ Arithmetic.gt x stamp.tau = true

theorem verdicts_stamped {toJson : Snapshot F → Str} {fromJson : Str → Option (Snapshot F)} {b : Batch F E}
    (path : Reached (Batch.step toJson) (fun b move => assumed toJson fromJson b move ∧ meets b move = true) Batch.empty b)
    {run : Run} (stored : run ∈ b.system.runs.rows) (done : run.status = .done) : ∃ stamp, Verdicts fromJson b run stamp := by
  have judged := judged_reached path
  obtain ⟨stamped,rescored⟩ := judged.done run stored done
  obtain ⟨stamp,parsed,gives⟩ := stamped run stored rfl
  have taken := rescored.taken
  rw [List.append_nil] at taken
  have scored : ∀ pk ∈ (b.attempts run.runId).pubkeys, ∃ input ∈ (b.attempts run.runId).inputs, input.pubkey = pk ∧
      b.system.store.committed.score.lookup (run.runId,pk) = some (judgement (b.attempts run.runId) stamp input) := by
    intro pk member
    rw [← taken] at member
    obtain ⟨input,listed,rfl⟩ := List.mem_map.mp member
    have kept := judged.accounted.closed run stored done _ (List.mem_map_of_mem listed)
    refine ⟨input,listed,rfl,?_⟩
    rw [← payload_judgement gives run.runId input]
    exact kept.1
  have scores : ∀ pk row, b.system.store.committed.score.lookup (run.runId,pk) = some row →
      ∃ input ∈ (b.attempts run.runId).inputs, input.pubkey = pk ∧ row = judgement (b.attempts run.runId) stamp input := by
    intro pk row found
    have there : (run.runId,pk) ∈ b.system.store.committed.score := AList.lookup_isSome.mp (by rw [found]; rfl)
    obtain ⟨input,listed,named,again⟩ := scored pk (rescored.rows pk there)
    rw [found] at again
    exact ⟨input,listed,named,Option.some.inj again⟩
  refine ⟨stamp,parsed,gives,⟨taken,rescored.distinct⟩,?_,scores,?_⟩
  · intro pk member
    obtain ⟨_,_,_,found⟩ := scored pk member
    have there : (run.runId,pk) ∈ b.system.store.committed.score := AList.lookup_isSome.mp (by rw [found]; rfl)
    exact List.count_eq_one_of_mem b.system.store.committed.score.keys_nodup there
  · intro now table
    obtain ⟨rows,made,own,others⟩ := materialized stored parsed now table
    refine ⟨rows,suspects b.system.store.committed run.runId,made,own,others,suspects_ordered _ _,?_⟩
    intro pk x
    rw [mem_suspects]
    apply exists_congr
    intro row
    apply and_congr_right
    intro found
    obtain ⟨input,_,_,rfl⟩ := scores pk row found
    constructor
    · intro both
      obtain ⟨flagged,rfl⟩ := both
      exact ⟨rfl,flagged⟩
    · intro both
      obtain ⟨rfl,flagged⟩ := both
      exact ⟨flagged,rfl⟩

end Done

def allLayers : Config Int := ⟨3,1,⟨⟨true,1⟩,⟨true,1⟩,⟨true,1⟩,⟨true,1⟩⟩,⟨0,0,0⟩⟩

def float (x : Int) : Str := Decimal.formatInt x ++ Bytes.text ".0"

def orNull {α : Type} (text : α → Str) : Option α → Str
  | none => Bytes.text "null"
  | some x => text x

def weightText (w : Weight Int) : Str :=
  Bytes.text "\x7b\"layer\":\"" ++ w.layer ++ Bytes.text "\",\"threshold\":" ++ orNull float w.threshold ++
    Bytes.text ",\"tuned_at\":" ++ orNull Decimal.formatInt w.tunedAt ++
    Bytes.text ",\"tuned_from_run\":" ++ orNull Bytes.digits w.tunedFromRun ++ Bytes.text ",\"weight\":" ++ float w.weight ++ Bytes.text "\x7d"

def stampText (s : Snapshot Int) : Str :=
  Bytes.text "\x7b\"adapter_url\":\"http://localhost:8080/graphql\",\"authors_per_call\":50,\"bias\":" ++ float s.bias ++
    Bytes.text ",\"channel_cap\":64,\"tau\":" ++ float s.tau ++
    Bytes.text ",\"weights\":[" ++ (Bytes.text ",").intercalate (s.weights.map weightText) ++ Bytes.text "]\x7d"

def tuned : Weights Int := ([2,3,4,5].zip LAYERS).foldl (fun t entry => setWeight 9 1 t (entry.2,entry.1)) (seeded allLayers Weights.empty)

-- The stamps of a fresh table, of a tuned one and of one whose seeding was cut short.
def stamps : List (Snapshot Int) :=
  [snapshot allLayers (readWeights (seeded allLayers Weights.empty)),
    snapshot allLayers (readWeights (setWeight 9 1 tuned (BIAS_KEY,7))),
    snapshot allLayers (readWeights (seedWeightsIfEmpty allLayers 1 Weights.empty))]

def readStamp (s : Str) : Option (Snapshot Int) := stamps.find? fun stamp => stampText stamp = s

-- An attempt over a one-key corpus up to its payload.
def payloadSent (resume : Bool) (value : Int) : List (Move Int Unit) :=
  [.runBatch allLayers (constant value) resume 0 none,.other (.stats (.ok 0)),.other (.proceed 0),.other (.page (.ok ⟨[scoredPk],none⟩)),
    .other (.proceed 0),.other (.proceed 0),.other .receive,.other .receive,.other .begin,.other .commit,.other (.proceed 0),
    .other (.stats (.ok 0)),.other (.proceed 0),.other (.proceed 0),.score [] false]

def payloadCommitted : List (Move Int Unit) := [.other .receive,.other .begin,.other .commit]

def markedDone : List (Move Int Unit) := [.other (.proceed 0),.other (.proceed 0),.other (.proceed 0)]

-- A first attempt crashes after its commit, the weights are tuned, and a second one scores the key again.
theorem verdicts_stamped_tuned : ∃ b : Batch Int Unit, ∃ run ∈ b.system.runs.rows, run.status = .done ∧
    (b.system.store.committed.score.lookup (run.runId,scoredPk)).map (·.score) = some 105 ∧ ∃ stamp, Verdicts readStamp b run stamp := by
  obtain ⟨b,path,found⟩ := replay_final (Batch.step stampText) (fun b move => assumed stampText readStamp b move ∧ meets b move = true)
    Batch.empty
    (payloadSent false 5 ++ payloadCommitted ++ [.other .crash,.tune (fun _ => none) 9 [2,3,4,5] 7 1] ++ payloadSent true 7 ++ payloadCommitted ++
      markedDone)
    (fun b => b.system.runs.rows.any fun run => run.status = .done ∧
      (b.system.store.committed.score.lookup (run.runId,scoredPk)).map (·.score) = some 105)
    (by decide +kernel) (by decide +kernel)
  obtain ⟨run,stored,good⟩ := List.any_eq_true.mp found
  obtain ⟨done,score⟩ := of_decide_eq_true good
  exact ⟨b,run,stored,done,score,verdicts_stamped path stored done⟩

-- A crash after the mark loses the payload still queued; and a stamp made of a table whose seeding was cut short lacks the layers' weights.
theorem verdicts_stamped_fails :
    (∃ b : Batch Int Unit, Reached (Batch.step stampText) (fun b move => assumed stampText readStamp b move) Batch.empty b ∧
      ∃ run ∈ b.system.runs.rows, run.status = .done ∧ b.system.store.committed.score.lookup (run.runId,scoredPk) = none ∧
        ¬ ∃ stamp, Verdicts readStamp b run stamp) ∧
    ∃ b : Batch Int Unit, Reached (Batch.step stampText) (fun b move => assumed stampText readStamp b move) Batch.empty b ∧
      ∃ run ∈ b.system.runs.rows, run.status = .done ∧ ¬ ∃ stamp, Verdicts readStamp b run stamp := by
  constructor
  · obtain ⟨b,path,found⟩ := replay_final (Batch.step stampText) (fun b move => assumed stampText readStamp b move) Batch.empty
      (payloadSent false 5 ++ markedDone ++ [.other .crash])
      (fun b => b.system.runs.rows.any fun run => run.status = .done ∧ (b.attempts run.runId).pubkeys = [scoredPk] ∧
        b.system.store.committed.score.lookup (run.runId,scoredPk) = none)
      (by decide +kernel) (by decide +kernel)
    obtain ⟨run,stored,good⟩ := List.any_eq_true.mp found
    obtain ⟨done,read,missing⟩ := of_decide_eq_true good
    refine ⟨b,path,run,stored,done,missing,?_⟩
    intro judged
    obtain ⟨_,verdicts⟩ := judged
    have one := verdicts.rows scoredPk (by rw [read]; exact List.mem_singleton_self _)
    have there : (run.runId,scoredPk) ∈ b.system.store.committed.score.keys := by
      apply List.count_pos_iff.mp
      rw [one]
      exact Nat.one_pos
    have found := AList.lookup_isSome.mpr (AList.mem_keys.mpr there)
    rw [missing] at found
    cases found
  · obtain ⟨b,path,found⟩ := replay_final (Batch.step stampText) (fun b move => assumed stampText readStamp b move) Batch.empty
      ([.seed allLayers 1] ++ payloadSent false 5 ++ payloadCommitted ++ markedDone)
      (fun b => b.system.runs.rows.any fun run => run.status = .done ∧ ((readStamp run.configJson).any fun stamp =>
        (stamp.weights.find? (·.layer = Bytes.text "L1_near_duplicate")).isNone) = true ∧
        Bytes.text "L1_near_duplicate" ∈ (b.attempts run.runId).stage.layers)
      (by decide +kernel) (by decide +kernel)
    obtain ⟨run,stored,good⟩ := List.any_eq_true.mp found
    obtain ⟨done,partial_,enabled⟩ := of_decide_eq_true good
    refine ⟨b,path,run,stored,done,?_⟩
    intro judged
    obtain ⟨stamp,verdicts⟩ := judged
    rw [verdicts.parsed,Option.any_some,Option.isNone_iff_eq_none] at partial_
    -- The stage has a weight for the layer, and the stamp has none.
    have weights := verdicts.gives.weights
    have absent : none ∈ (b.attempts run.runId).stage.layers.map fun layer => (stamp.weights.find? (·.layer = layer)).map (·.weight) :=
      List.mem_map.mpr ⟨_,enabled,by rw [partial_]; rfl⟩
    rw [← weights] at absent
    simp at absent

end DeepFry.Spamhunter
