import DeepFry.Spamhunter.Barrier

namespace DeepFry.Spamhunter
open Actor Machine

variable {F : Type} {s next : System F} {action : Action F} {p : Persist F} {db : Tables F}

-- The score row of a payload, and the signal row of each of its layers.
def Stored (p : Persist F) (db : Tables F) : Prop :=
  db.score.lookup (p.runId,p.pubkey) = some ⟨p.score,p.whitelisted,p.suspected⟩ ∧
    ∀ front sub back, p.subscores = front ++ sub :: back → sub.layer ∉ back.map (·.layer) →
      db.signal.lookup (p.runId,p.pubkey,sub.layer) = some ⟨sub.value,sub.evidence⟩

def overwrites (p : Persist F) : WriteMsg F → Prop
  | .Score q => q.runId = p.runId ∧ q.pubkey = p.pubkey
  | _ => False

theorem upSignals_other {q : Persist F} {key : Nat × Str × Str} (subscores : List (SubScore F))
    (apart : ∀ sub ∈ subscores, key ≠ (q.runId,q.pubkey,sub.layer)) :
    (subscores.foldl (upSignal q) db).signal.lookup key = db.signal.lookup key := by
  induction subscores generalizing db with
  | nil => rfl
  | cons sub rest ih =>
    rw [List.foldl_cons,ih fun other member => apart other (List.mem_cons_of_mem _ member)]
    exact AList.lookup_insert_ne (apart sub List.mem_cons_self)

theorem stored_self (p : Persist F) (db : Tables F) : Stored p (execute (.Score p) db) := by
  constructor
  · have same : (execute (.Score p) db).score = (upScore p (upPubkey p.pubkey db)).score := upSignals_score _ _ _
    rw [same]
    exact AList.lookup_insert _
  · intro front sub back split last
    rw [execute,split,List.foldl_append,List.foldl_cons,upSignals_other]
    · exact AList.lookup_insert _
    · intro other member same
      simp only [Prod.mk.injEq,true_and] at same
      exact last (same ▸ List.mem_map_of_mem member)

theorem stored_frame {message : WriteMsg F} (apart : ¬ overwrites p message) (stored : Stored p db) :
    Stored p (execute message db) := by
  obtain ⟨score,signal⟩ := stored
  cases message with
  | Score q =>
    have other : (p.runId,p.pubkey) ≠ (q.runId,q.pubkey) := fun same => by
      simp only [Prod.mk.injEq] at same
      exact apart ⟨same.1.symm,same.2.symm⟩
    refine ⟨?_,fun front sub back split last => ?_⟩
    · have same : (execute (.Score q) db).score = (upScore q (upPubkey q.pubkey db)).score := upSignals_score _ _ _
      rw [same]
      refine (AList.lookup_insert_ne other).trans ?_
      rw [upPubkey_score]
      exact score
    · rw [execute,upSignals_other]
      · change (upPubkey q.pubkey db).signal.lookup _ = _
        rw [upPubkey_signal]
        exact signal front sub back split last
      · intro _ _ same
        simp only [Prod.mk.injEq] at same
        exact apart ⟨same.1.symm,same.2.1.symm⟩
  | Pubkeys pks =>
    exact ⟨(upPubkeys_score pks db).symm ▸ score,(upPubkeys_signal pks db).symm ▸ signal⟩
  | Fingerprints fps =>
    obtain ⟨sameScore,sameSignal,_⟩ := upFingerprints_parts fps db
    exact ⟨sameScore.symm ▸ score,sameSignal.symm ▸ signal⟩
  | Flush => exact ⟨score,signal⟩

theorem stored_batch {batch : List (WriteMsg F)} (apart : ∀ message ∈ batch, ¬ overwrites p message)
    (stored : Stored p db) : Stored p (batch.foldl (fun db message => execute message db) db) := by
  induction batch generalizing db with
  | nil => exact stored
  | cons message rest ih =>
    exact ih (fun other member => apart other (List.mem_cons_of_mem _ member))
      (stored_frame (apart message List.mem_cons_self) stored)

-- What the scoring stage of the latest attempt at each run has submitted.
abbrev Submitted (F : Type) := Nat → List (Persist F)

def noteSubmitted (s : System F) (action : Action F) (submitted : Submitted F) : Submitted F :=
  match s.phase,action with
  | .off,.start resume now configJson limit =>
    Function.update submitted (select resume now configJson limit s.runs).1.runId []
  | .scoring runId _,.score p => Function.update submitted runId (submitted runId ++ [p])
  | _,_ => submitted

-- A run is marked done while the writer is alive with nothing buffered or queued.
def markedIdle (s : System F) : Action F → Bool
  | .proceed _ =>
    match s.phase with
    | .markDone .. => s.store.stage.live && (outstanding s.store).isEmpty
    | _ => true
  | _ => true

structure Accounted (s : System F) (submitted : Submitted F) : Prop where
  closed : ∀ run ∈ s.runs.rows, run.status = .done → ∀ p ∈ submitted run.runId, Stored p s.store.committed
  own : ∀ runId, ∀ p ∈ submitted runId, p.runId = runId
  pending : ∀ p, .Score p ∈ outstanding s.store → Open s.runs p.runId
  unscored : ∀ runId, unscoredRun s.phase = some runId → Open s.runs runId ∧ submitted runId = []
  scored : ∀ runId, scoredRun s.phase = some runId → Open s.runs runId ∧
    ((submitted runId).map (·.pubkey) ++ todoOf s.phase).Nodup ∧
    (s.store.stage.live = true → ∀ p ∈ submitted runId, Stored p (settled execute s.store))

theorem Open.untouched {t : Runs} {message : WriteMsg F} (pending : ∀ p, message = .Score p → Open t p.runId)
    {run : Run} (stored : run ∈ t.rows) (closed : run.status = .done) (own : p.runId = run.runId) :
    ¬ overwrites p message := by
  intro same
  cases message with
  | Score q => exact pending q rfl run stored (own.symm.trans same.1.symm) closed
  | Pubkeys | Fingerprints | Flush => exact same

theorem accounted_writes {submitted : Submitted F} (wrote : Writes s action next) (accounted : Accounted s submitted) :
    Accounted next submitted := by
  obtain ⟨closed,own,pending,unscored,scored⟩ := accounted
  have same : next.phase = s.phase ∧ next.runs = s.runs := by cases wrote <;> exact ⟨rfl,rfl⟩
  refine ⟨?_,own,?_,same.1.symm ▸ same.2.symm ▸ unscored,?_⟩
  · intro run stored done p known
    rw [same.2] at stored
    have before := closed run stored done p known
    cases wrote with
    | quiet _ data => exact data ▸ before
    | commit committed =>
      rw [(commit_parts committed).2.2.2]
      refine stored_batch (fun message member => ?_) before
      refine Open.untouched (fun q given => pending q ?_) stored done (own _ p known)
      exact given ▸ List.mem_append_left _ member
    | fail failed => exact (fail_parts failed).1 ▸ before
    | stop _ stopped => exact (stop_parts stopped).2.1 ▸ before
  · intro p member
    rw [same.2]
    exact pending p (outstanding_writes wrote _ member)
  · intro runId runs
    rw [same.1] at runs
    obtain ⟨opened,distinct,settles⟩ := scored runId runs
    refine ⟨same.2 ▸ opened,same.1 ▸ distinct,fun live p known => ?_⟩
    cases wrote with
    | quiet _ data whole live' => rw [settled,data,whole]; exact settles live' p known
    | commit committed =>
      rw [settled_commit committed]
      exact settles (by rw [(commit_parts committed).1]; rfl) p known
    | fail failed => rw [(fail_parts failed).2.1] at live; cases live
    | stop _ stopped => rw [(stop_parts stopped).2.2.1] at live; cases live

-- The process moves on, with a write to the run table that marks nothing done.
theorem Accounted.onward {submitted : Submitted F} {runs : Runs} {phase : Phase} (accounted : Accounted s submitted)
    (unclosed : Unclosed s.runs runs) (unscored : ∀ runId, unscoredRun phase = some runId → unscoredRun s.phase = some runId)
    (scored : ∀ runId, scoredRun phase = some runId → scoredRun s.phase = some runId)
    (todo : todoOf phase = todoOf s.phase) : Accounted { s with runs, phase } submitted := by
  refine ⟨?_,accounted.own,fun p member => (accounted.pending p member).unclosed unclosed,?_,?_⟩
  · intro run stored done p known
    obtain ⟨old,there,sameId,closed⟩ := unclosed run stored done
    exact accounted.closed old there closed p (sameId ▸ known)
  · intro runId runs
    obtain ⟨opened,none⟩ := accounted.unscored runId (unscored runId runs)
    exact ⟨opened.unclosed unclosed,none⟩
  · intro runId runs
    obtain ⟨opened,distinct,settles⟩ := accounted.scored runId (scored runId runs)
    exact ⟨opened.unclosed unclosed,todo ▸ distinct,settles⟩

theorem Accounted.leaves {submitted : Submitted F} {phase : Phase} (accounted : Accounted s submitted)
    (unscored : unscoredRun phase = none) (scored : scoredRun phase = none) : Accounted { s with phase } submitted := by
  refine ⟨accounted.closed,accounted.own,accounted.pending,fun runId runs => ?_,fun runId runs => ?_⟩
  · cases unscored.symm.trans runs
  · cases scored.symm.trans runs

def submits : Action F → Bool
  | .start .. | .score _ => true
  | _ => false

theorem writes_submit (wrote : Writes s action next) : submits action = false := by
  cases wrote with
  | quiet way => rcases way with rfl | rfl <;> rfl
  | commit | fail | stop => rfl

theorem noteSubmitted_same {submitted : Submitted F} (quiet : submits action = false) :
    noteSubmitted s action submitted = submitted := by
  unfold noteSubmitted
  split
  · cases quiet
  · cases quiet
  · rfl

theorem readPubkeys_nodup (db : Tables F) : (readPubkeys db).Nodup :=
  (List.perm_insertionSort _ _).nodup_iff.mpr db.pubkey.keys_nodup

theorem select_open {resume : Bool} {now : Int} {configJson : Str} {limit : Option Nat} {t : Runs} :
    Unclosed t (select resume now configJson limit t).2 ∧
      Open (select resume now configJson limit t).2 (select resume now configJson limit t).1.runId ∧
      ∀ run ∈ t.rows, run.status = .done → run.runId ≠ (select resume now configJson limit t).1.runId := by
  rcases select_cases resume now configJson limit t with ⟨run,_,latest,chosen⟩ | ⟨_,chosen⟩ <;> rw [chosen]
  · obtain ⟨stored,unfinished,_⟩ := latest_some latest
    have unclosed : Unclosed t (continueRun run configJson limit t).2 := unclosed_config t _ _
    have only : ∀ other ∈ t.rows, other.status = .done → other.runId ≠ run.runId := fun other known done same =>
      unfinished (rows_unique known stored same ▸ done)
    exact ⟨unclosed,Open.unclosed unclosed fun other known same done => only other known done same,only⟩
  · have before : ∀ run ∈ t.rows, run.status = .done → run.runId ≠ t.sequence + 1 := by
      intro run known _
      have bound := t.issued run known
      omega
    refine ⟨unclosed_begin t now configJson,?_,before⟩
    intro run stored same done
    obtain ⟨old,known,sameId,closed⟩ := unclosed_begin t now configJson run stored done
    exact before old known closed (sameId.trans same)

theorem accounted_start {submitted : Submitted F} {resume : Bool} {now : Int} {configJson : Str} {limit : Option Nat}
    (accounted : Accounted s submitted) : Accounted ⟨fresh s.store.committed,false,
      (select resume now configJson limit s.runs).2,.probeStart (select resume now configJson limit s.runs).1 1⟩
      (Function.update submitted (select resume now configJson limit s.runs).1.runId []) := by
  obtain ⟨unclosed,opened,apart⟩ := @select_open resume now configJson limit s.runs
  generalize select resume now configJson limit s.runs = chosen at *
  obtain ⟨w,runs⟩ := chosen
  refine ⟨?_,?_,nofun,?_,nofun⟩
  · intro run stored done p known
    obtain ⟨old,there,sameId,closed⟩ := unclosed run stored done
    rw [Function.update_of_ne (sameId ▸ apart old there closed)] at known
    exact accounted.closed old there closed p (sameId ▸ known)
  · intro runId p known
    by_cases here : runId = w.runId
    · rw [here,Function.update_self] at known; cases known
    · rw [Function.update_of_ne here] at known; exact accounted.own runId p known
  · rintro runId ⟨⟩
    exact ⟨opened,Function.update_self _ _ _⟩

-- A payload of an open run is noted under its run, and no closed run's list changes.
theorem Accounted.own_noted {submitted : Submitted F} {runId : Nat} (accounted : Accounted s submitted) (ownId : p.runId = runId) :
    ∀ other, ∀ q ∈ Function.update submitted runId (submitted runId ++ [p]) other, q.runId = other := by
  intro other q known
  by_cases same : other = runId
  · rw [same,Function.update_self] at known
    rcases List.mem_append.mp known with old | new
    · exact same ▸ accounted.own runId q old
    · cases List.mem_singleton.mp new
      exact ownId.trans same.symm
  · rw [Function.update_of_ne same] at known
    exact accounted.own other q known

theorem Accounted.closed_noted {submitted : Submitted F} {runId : Nat} (accounted : Accounted s submitted) (opened : Open s.runs runId) :
    ∀ run ∈ s.runs.rows, run.status = .done → ∀ q ∈ Function.update submitted runId (submitted runId ++ [p]) run.runId,
      Stored q s.store.committed := by
  intro run stored done q known
  have apart : run.runId ≠ runId := fun same => opened run stored same done
  rw [Function.update_of_ne apart] at known
  exact accounted.closed run stored done q known

theorem accounted_score {submitted : Submitted F} {runId : Nat} {pk : Str} {todo : List Str}
    {store : Thread (Tables F) (WriteMsg F)} (here : s.phase = .scoring runId (pk :: todo)) (ownId : p.runId = runId)
    (ownPk : p.pubkey = pk) (sent : send s.store (.Score p) = some store) (accounted : Accounted s submitted) :
    Accounted { s with store, phase := .scoring runId todo }
      (Function.update submitted runId (submitted runId ++ [p])) := by
  obtain ⟨live,data,_,more⟩ := send_parts sent
  obtain ⟨opened,distinct,settles⟩ := accounted.scored runId (by rw [here]; rfl)
  rw [here] at distinct
  subst ownPk
  have fresh : ∀ q ∈ submitted runId, q.pubkey ≠ p.pubkey := by
    intro q known same
    exact (List.nodup_append.mp distinct).2.2 _ (List.mem_map_of_mem known) _ List.mem_cons_self same
  refine ⟨?_,accounted.own_noted ownId,?_,nofun,?_⟩
  · intro run stored done q known
    exact data ▸ accounted.closed_noted opened run stored done q known
  · intro q member
    rw [more,List.mem_append] at member
    rcases member with old | new
    · exact accounted.pending q old
    · cases List.mem_singleton.mp new; exact ownId ▸ opened
  · rintro other ⟨⟩
    rw [Function.update_self]
    refine ⟨opened,?_,fun _ q known => ?_⟩
    · simpa [todoOf,List.append_assoc] using distinct
    · rw [settled_send sent]
      rcases List.mem_append.mp known with old | new
      · exact stored_frame (fun hits => fresh q old hits.2.symm) (settles live q old)
      · cases List.mem_singleton.mp new; exact stored_self p _

-- A payload that a dead writer never took still counts as submitted.
theorem accounted_lost {submitted : Submitted F} {runId : Nat} {pk : Str} {todo : List Str}
    (here : s.phase = .scoring runId (pk :: todo)) (ownId : p.runId = runId) (accounted : Accounted s submitted) :
    Accounted { s with phase := .closing } (Function.update submitted runId (submitted runId ++ [p])) := by
  have opened := (accounted.scored runId (by rw [here]; rfl)).1
  exact ⟨accounted.closed_noted opened,accounted.own_noted ownId,accounted.pending,nofun,nofun⟩

theorem done_closes {t runs : Runs} {runId : Nat} {now v : Int} {run : Run}
    (marked : markRunDone t runId now v = some runs) (member : run ∈ runs.rows) (other : run.runId ≠ runId)
    (done : run.status = .done) : ∃ old ∈ t.rows, old.runId = run.runId ∧ old.status = .done := by
  unfold markRunDone at marked
  split at marked
  · rw [Option.some.injEq] at marked
    rw [← marked] at member
    obtain ⟨old,stored,same⟩ := mem_update.mp member
    have apart : old.runId ≠ runId := fun here => other (by rw [← same,if_pos here]; exact here)
    rw [if_neg apart] at same
    exact ⟨old,stored,congrArg Run.runId same,same.symm ▸ done⟩
  · cases marked

theorem accounted_done {submitted : Submitted F} {runId : Nat} {now v : Int} {runs : Runs}
    (here : s.phase = .markDone runId v) (marked : markRunDone s.runs runId now v = some runs)
    (live : s.store.stage.live = true) (idle : outstanding s.store = []) (accounted : Accounted s submitted) :
    Accounted { s with runs, phase := .closing } submitted := by
  obtain ⟨_,_,settles⟩ := accounted.scored runId (by rw [here]; rfl)
  rw [settled_idle idle] at settles
  refine ⟨?_,accounted.own,fun p member => ?_,nofun,nofun⟩
  · intro run member done p known
    by_cases own : run.runId = runId
    · exact settles live p (own ▸ known)
    · obtain ⟨old,stored,same,closed⟩ := done_closes marked member own done
      exact accounted.closed old stored closed p (same ▸ known)
  · rw [idle] at member; cases member

theorem afterFlush_parts (w : Walk) (pending : Option (AuthorsPage × Str)) :
    unscoredRun (afterFlush w pending) = some w.runId ∧ scoredRun (afterFlush w pending) = none ∧
      todoOf (afterFlush w pending) = [] := by
  cases pending <;> exact ⟨rfl,rfl,rfl⟩

theorem accounted_send {submitted : Submitted F} {message : WriteMsg F} {store : Thread (Tables F) (WriteMsg F)}
    {acked : Bool} {phase : Phase} {runId : Nat} (plain : ∀ q, message ≠ .Score q)
    (before : unscoredRun s.phase = some runId) (after : unscoredRun phase = some runId)
    (sent : send s.store message = some store) (done : scoredRun phase = none) (accounted : Accounted s submitted) :
    Accounted { s with store, acked, phase } submitted := by
  obtain ⟨live,data,_,more⟩ := send_parts sent
  refine ⟨data.symm ▸ accounted.closed,accounted.own,fun q member => ?_,fun other runs => ?_,fun other runs => ?_⟩
  · rw [more,List.mem_append] at member
    rcases member with old | new
    · exact accounted.pending q old
    · exact absurd (List.mem_singleton.mp new).symm (plain q)
  · cases after.symm.trans runs
    exact accounted.unscored runId before
  · cases done.symm.trans runs

theorem accounted_step {submitted : Submitted F} (moved : Step s action next) (idle : markedIdle s action = true)
    (accounted : Accounted s submitted) : Accounted next (noteSubmitted s action submitted) := by
  cases moved with
  | writer wrote =>
    rw [noteSubmitted_same (writes_submit wrote)]
    exact accounted_writes wrote accounted
  | start here =>
    simp only [noteSubmitted,here]
    exact accounted_start accounted
  | score here ownId ownPk sent =>
    simp only [noteSubmitted,here]
    exact accounted_score here ownId ownPk sent accounted
  | lost here ownId =>
    simp only [noteSubmitted,here]
    exact accounted_lost here ownId accounted
  | crash =>
    rw [noteSubmitted_same rfl]
    exact ⟨accounted.closed,accounted.own,nofun,nofun,nofun⟩
  | storeError =>
    rw [noteSubmitted_same rfl]
    exact accounted.leaves rfl rfl
  | fetchError =>
    rw [noteSubmitted_same rfl]
    exact accounted.leaves rfl rfl
  | probe here way | probeEnd here way =>
    rw [noteSubmitted_same rfl]
    have same : unscoredRun s.phase = _ := congrArg unscoredRun here
    rcases way with ⟨v,rfl⟩ | ⟨attempt,rfl⟩ | rfl
    · exact accounted.onward (.refl _) (fun _ runs => same.trans runs) nofun (by rw [here]; rfl)
    · exact accounted.onward (.refl _) (fun _ runs => same.trans runs) nofun (by rw [here]; rfl)
    · exact accounted.leaves rfl rfl
  | page here | again here | restart here | failed here =>
    rw [noteSubmitted_same rfl]
    exact accounted.onward (.refl _) (fun _ runs => (congrArg unscoredRun here).trans runs) nofun (by rw [here]; rfl)
  | panic here | vanished here | closed here =>
    rw [noteSubmitted_same rfl]
    exact accounted.leaves rfl rfl
  | @setStart w v now here =>
    rw [noteSubmitted_same rfl]
    have unclosed : Unclosed s.runs (if w.existingStart.isNone then setRunMaxLevStart s.runs w.runId v else s.runs) := by
      split_ifs
      · exact unclosed_maxLevStart _ _ _
      · exact .refl _
    exact accounted.onward unclosed (fun _ runs => (congrArg unscoredRun here).trans runs) nofun (by rw [here]; rfl)
  | abort here =>
    rw [noteSubmitted_same rfl]
    exact accounted.onward (unclosed_aborted _ _ _) nofun nofun (by rw [here]; rfl)
  | setEnd here =>
    rw [noteSubmitted_same rfl]
    exact accounted.onward (unclosed_maxLevEnd _ _ _) (fun _ runs => (congrArg unscoredRun here).trans runs) nofun
      (by rw [here]; rfl)
  | @setCursor w page cursor now here =>
    rw [noteSubmitted_same rfl]
    refine accounted.onward (unclosed_cursor _ _ _) (fun _ runs => (congrArg unscoredRun here).trans ?_) ?_ ?_
    · split_ifs at runs <;> exact runs
    · intro _ runs
      split_ifs at runs <;> cases runs
    · split_ifs <;> rw [here] <;> rfl
  | @unheard w pending now here | @await w pending now here =>
    rw [noteSubmitted_same rfl]
    obtain ⟨walks,scores,todo⟩ := afterFlush_parts w pending
    refine accounted.onward (.refl _) (fun _ runs => ?_) (fun _ runs => ?_) ?_
    · rw [here]; exact walks.symm.trans runs
    · cases scores.symm.trans runs
    · rw [here]; exact todo
  | insert here sent | flush here sent =>
    rw [noteSubmitted_same rfl]
    exact accounted_send (fun _ same => by cases same) (by rw [here]; rfl) rfl sent rfl accounted
  | read here =>
    rw [noteSubmitted_same rfl]
    obtain ⟨opened,none⟩ := accounted.unscored _ (by rw [here]; rfl)
    refine ⟨accounted.closed,accounted.own,accounted.pending,nofun,?_⟩
    rintro runId ⟨⟩
    refine ⟨opened,?_,fun _ p known => ?_⟩
    · rw [none,List.map_nil,List.nil_append]
      exact readPubkeys_nodup _
    · rw [none] at known; cases known
  | scored here =>
    rw [noteSubmitted_same rfl]
    exact accounted.onward (.refl _) nofun (fun _ runs => (congrArg scoredRun here).trans runs) (by rw [here]; rfl)
  | readEnd here way =>
    rw [noteSubmitted_same rfl]
    rcases way with rfl | ⟨v,rfl⟩
    · exact accounted.leaves rfl rfl
    · exact accounted.onward (.refl _) nofun (fun _ runs => (congrArg scoredRun here).trans runs) (by rw [here]; rfl)
  | markDone here marked =>
    rw [noteSubmitted_same rfl]
    simp only [markedIdle,here,Bool.and_eq_true,List.isEmpty_iff] at idle
    exact accounted_done here marked idle.1 idle.2 accounted

def scoreStart : System F × Submitted F := (System.empty,fun _ => [])

theorem accounted_reached {s : System F × Submitted F}
    (path : Reached (traced noteSubmitted step) (fun s action => markedIdle s.1 action = true) scoreStart s) :
    Accounted s.1 s.2 := by
  refine path.invariant (fun s => Accounted s.1 s.2) ?_ fun {_ _ _} accounted idle moved => ?_
  · exact ⟨nofun,nofun,nofun,nofun,nofun⟩
  · obtain ⟨stepped,noted⟩ := traced_parts moved
    rw [noted]
    exact accounted_step (step_cases stepped) idle accounted

def DoneDurable (s : System F × Submitted F) : Prop :=
  ∀ run ∈ s.1.runs.rows, run.status = .done → ∀ p ∈ s.2 run.runId, Stored p s.1.store.committed

theorem done_durable {s : System F × Submitted F}
    (path : Reached (traced noteSubmitted step) (fun s action => markedIdle s.1 action = true) scoreStart s) :
    DoneDurable s := (accounted_reached path).closed

def scoredPk : Str := List.replicate 64 98

def samplePayload : Persist Unit := ⟨1,scoredPk,(),false,true,[⟨[76,49],(),none⟩]⟩

-- A one-key corpus enumerated and its key handed to the scoring stage, which has submitted its payload.
def payloadUnderWay : List (Action Unit) :=
  [.start false 0 [] none,.stats (.ok 0),.proceed 0,.page (.ok ⟨[scoredPk],none⟩),.proceed 0,.proceed 0,
    .receive,.receive,.begin,.commit,.proceed 0,.stats (.ok 0),.proceed 0,.proceed 0,.score samplePayload]

theorem done_durable_sample : ∃ s : System Unit × Submitted Unit, ∃ run ∈ s.1.runs.rows, run.status = .done ∧
    samplePayload ∈ s.2 run.runId ∧ DoneDurable s := by
  obtain ⟨s,path,found⟩ := replay_final (traced noteSubmitted step) (fun s action => markedIdle s.1 action = true)
    scoreStart (payloadUnderWay ++ [.receive,.begin,.commit,.proceed 0,.proceed 0,.proceed 0])
    (fun s => s.1.runs.rows.any fun run => run.status = .done ∧ samplePayload ∈ s.2 run.runId)
    (by decide +kernel) (by decide +kernel)
  obtain ⟨run,stored,good⟩ := List.any_eq_true.mp found
  obtain ⟨done,submitted⟩ := of_decide_eq_true good
  exact ⟨s,run,stored,done,submitted,done_durable path⟩

-- The run is marked done with its payload still queued, and the process crashes before the writer takes it.
theorem done_durable_fails : ¬ ∀ s : System Unit × Submitted Unit,
    Reached (traced noteSubmitted step) (fun _ _ => True) scoreStart s → DoneDurable s := by
  intro claimed
  obtain ⟨s,path,found⟩ := replay_final (traced noteSubmitted step) (fun _ _ => True) scoreStart
    (payloadUnderWay ++ [.proceed 0,.proceed 0,.proceed 0,.crash])
    (fun s => s.1.runs.rows.any fun run => run.status = .done ∧ samplePayload ∈ s.2 run.runId ∧
      s.1.store.committed.score.lookup (1,scoredPk) = none)
    (by decide +kernel) (by decide +kernel)
  obtain ⟨run,stored,good⟩ := List.any_eq_true.mp found
  obtain ⟨done,submitted,missing⟩ := of_decide_eq_true good
  have kept := (claimed s path run stored done samplePayload submitted).1
  change s.1.store.committed.score.lookup (1,scoredPk) = _ at kept
  rw [missing] at kept
  cases kept

end DeepFry.Spamhunter
