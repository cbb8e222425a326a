import DeepFry.Spamhunter.Durable
import DeepFry.Spamhunter.Weights

namespace DeepFry.Spamhunter
open Actor Machine

variable {F E : Type}

structure LayerOutput (F : Type) where
  value : F
  evidence : Str

-- A layer by its name, as its own settings make it.
abbrev Evaluate (F E : Type) := Str → List E → Bool → LayerOutput F

-- Each layer is evaluated once, in the order of the stage.
def ScoringStage.score [Arithmetic F] (stage : ScoringStage F) (layer : Evaluate F E) (runId : Nat) (pubkey : Str)
    (events : List E) (whitelisted : Bool) : Persist F :=
  let outs := stage.layers.map fun name => (name,layer name events whitelisted)
  let score := combine stage.weights stage.bias (outs.map (·.2.value))
  { runId
    pubkey
    score
    whitelisted
    suspected := Arithmetic.gt score stage.tau
    subscores := outs.map fun out => ⟨out.1,out.2.value,some out.2.evidence⟩ }

theorem score_layers [Arithmetic F] (stage : ScoringStage F) (layer : Evaluate F E) (runId : Nat) (pubkey : Str)
    (events : List E) (whitelisted : Bool) :
    (stage.score layer runId pubkey events whitelisted).subscores.map (·.layer) = stage.layers := by
  simp [ScoringStage.score,Function.comp_def]

theorem fromConfig_layers (config : Config F) (table : List (Weight F)) :
    (ScoringStage.fromConfig config table).layers.Nodup := by
  have declared : (config.declared.map (·.1)).Nodup := by
    rw [declared_keys]
    exact keys_distinct.of_append_left
  exact declared.sublist (List.filter_sublist.map _)

-- The row a payload brings for a layer.
def Persist.signal (p : Persist F) (layer : Str) : Option (Signal F) :=
  (p.subscores.find? (·.layer = layer)).map fun s => ⟨s.value,s.evidence⟩

theorem signal_none {p : Persist F} {layer : Str} : p.signal layer = none ↔ layer ∉ p.subscores.map (·.layer) := by
  simp [Persist.signal,List.find?_eq_none]

theorem upSignals_signal {p : Persist F} (subscores : List (SubScore F)) (distinct : (subscores.map (·.layer)).Nodup) (db : Tables F)
    (layer : Str) :
    (subscores.foldl (upSignal p) db).signal.lookup (p.runId,p.pubkey,layer) =
      ((subscores.find? (·.layer = layer)).map fun s => (⟨s.value,s.evidence⟩ : Signal F)).or
        (db.signal.lookup (p.runId,p.pubkey,layer)) := by
  induction subscores generalizing db with
  | nil => rfl
  | cons sub rest ih =>
    obtain ⟨fresh,distinct⟩ := List.nodup_cons.mp distinct
    rw [List.foldl_cons,ih distinct,List.find?_cons]
    by_cases same : sub.layer = layer
    · subst same
      have later : rest.find? (·.layer = sub.layer) = none := by
        apply List.find?_eq_none.mpr
        intro other member again
        have layers : other.layer = sub.layer := of_decide_eq_true again
        apply fresh
        have known : other.layer ∈ rest.map (·.layer) := List.mem_map_of_mem member
        rwa [layers] at known
      simp only [later,decide_true,Option.map_none,Option.none_or,Option.map_some,Option.some_or]
      exact AList.lookup_insert _
    · have other : (p.runId,p.pubkey,layer) ≠ (p.runId,p.pubkey,sub.layer) := by
        intro keys
        exact same (congrArg (·.2.2) keys).symm
      simp only [same,decide_false]
      congr 1
      exact AList.lookup_insert_ne other

def Persist.of (runId : Nat) (pk : Str) (p : Persist F) : Bool := decide (p.runId = runId ∧ p.pubkey = pk)

-- What the scores of a pubkey in a run, committed in this order, leave as the row of a layer.
def leftBy (scores : List (Persist F)) (runId : Nat) (pk layer : Str) : Option (Signal F) :=
  (scores.filter (Persist.of runId pk)).foldl (fun row p => (p.signal layer).or row) none

def scoreOf : WriteMsg F → Option (Persist F)
  | .Score p => some p
  | _ => none

-- The score and signal tables are what the committed scores left.
structure Follows (scores : List (Persist F)) (db : Tables F) : Prop where
  score : ∀ runId pk, db.score.lookup (runId,pk) =
    ((scores.filter (Persist.of runId pk)).getLast?).map fun p => ⟨p.score,p.whitelisted,p.suspected⟩
  signal : ∀ runId pk layer, db.signal.lookup (runId,pk,layer) = leftBy scores runId pk layer

theorem follows_empty : Follows [] (Tables.empty : Tables F) := ⟨fun _ _ => rfl,fun _ _ _ => rfl⟩

theorem Follows.score_step {scores : List (Persist F)} {db : Tables F} (follows : Follows scores db) {p : Persist F}
    (distinct : (p.subscores.map (·.layer)).Nodup) : Follows (scores ++ [p]) (execute (.Score p) db) := by
  constructor
  · intro runId pk
    have same : (execute (.Score p) db).score = (upScore p (upPubkey p.pubkey db)).score := upSignals_score _ _ _
    rw [same,List.filter_append]
    by_cases own : p.runId = runId ∧ p.pubkey = pk
    · obtain ⟨rfl,rfl⟩ := own
      simp only [Persist.of,List.filter_cons,and_self,decide_true,if_true,List.filter_nil,List.getLast?_concat,Option.map_some]
      exact AList.lookup_insert _
    · have other : (runId,pk) ≠ (p.runId,p.pubkey) := by
        intro keys
        exact own ⟨(congrArg (·.1) keys).symm,(congrArg (·.2) keys).symm⟩
      simp only [Persist.of,List.filter_cons,own,decide_false,Bool.false_eq_true,if_false,List.filter_nil,List.append_nil]
      refine (AList.lookup_insert_ne other).trans ?_
      rw [upPubkey_score]
      exact follows.score runId pk
  · intro runId pk layer
    unfold leftBy
    rw [List.filter_append,execute]
    by_cases own : p.runId = runId ∧ p.pubkey = pk
    · obtain ⟨rfl,rfl⟩ := own
      simp only [Persist.of,List.filter_cons,and_self,decide_true,if_true,List.filter_nil,List.foldl_append,List.foldl_cons,List.foldl_nil]
      rw [upSignals_signal _ distinct]
      have before : (upScore p (upPubkey p.pubkey db)).signal = db.signal := upPubkey_signal _ _
      rw [before,follows.signal]
      rfl
    · simp only [Persist.of,List.filter_cons,own,decide_false,Bool.false_eq_true,if_false,List.filter_nil,List.append_nil]
      rw [upSignals_other]
      · have before : (upScore p (upPubkey p.pubkey db)).signal = db.signal := upPubkey_signal _ _
        rw [before]
        exact follows.signal runId pk layer
      · intro sub _ keys
        exact own ⟨(congrArg (·.1) keys).symm,(congrArg (·.2.1) keys).symm⟩

theorem Follows.message {scores : List (Persist F)} {db : Tables F} (follows : Follows scores db) {message : WriteMsg F}
    (distinct : ∀ p, message = .Score p → (p.subscores.map (·.layer)).Nodup) :
    Follows (scores ++ (scoreOf message).toList) (execute message db) := by
  cases message with
  | Score p => exact follows.score_step (distinct p rfl)
  | Pubkeys pks =>
    obtain ⟨score,signal⟩ := follows
    rw [← upPubkeys_score pks db] at score
    rw [← upPubkeys_signal pks db] at signal
    rw [show scores ++ (scoreOf (.Pubkeys pks : WriteMsg F)).toList = scores from List.append_nil scores]
    exact ⟨score,signal⟩
  | Fingerprints fps =>
    obtain ⟨sameScore,sameSignal,_⟩ := upFingerprints_parts fps db
    obtain ⟨score,signal⟩ := follows
    rw [← sameScore] at score
    rw [← sameSignal] at signal
    rw [show scores ++ (scoreOf (.Fingerprints fps : WriteMsg F)).toList = scores from List.append_nil scores]
    exact ⟨score,signal⟩
  | Flush =>
    rw [show scores ++ (scoreOf (.Flush : WriteMsg F)).toList = scores from List.append_nil scores]
    exact follows

theorem Follows.batch {scores : List (Persist F)} {db : Tables F} (follows : Follows scores db) {batch : List (WriteMsg F)}
    (distinct : ∀ p, .Score p ∈ batch → (p.subscores.map (·.layer)).Nodup) :
    Follows (scores ++ batch.filterMap scoreOf) (batch.foldl (fun db message => execute message db) db) := by
  induction batch generalizing scores db with
  | nil => simpa using follows
  | cons message rest ih =>
    have first := follows.message fun p same => distinct p (same ▸ List.mem_cons_self)
    have later := ih first fun p member => distinct p (List.mem_cons_of_mem _ member)
    rw [List.append_assoc] at later
    cases message with
    | Score p => exact later
    | Pubkeys | Fingerprints | Flush => exact later

-- What an action is about: the configuration and the weights an attempt reads, or what was fetched for a pubkey.
inductive Input (F E : Type) where
  | attempt (config : Config F) (table : List (Weight F)) (layer : Evaluate F E)
  | fetched (events : List E) (whitelisted : Bool)
  | none

-- A committed score with the layers that were enabled in its attempt.
structure Committed (F : Type) where
  layers : List Str
  payload : Persist F

-- The stage of the attempt under way, and the scores committed so far in their order. The code keeps no such list.
structure Journal (F E : Type) where
  stage : ScoringStage F
  layer : Evaluate F E
  scores : List (Committed F)

def Journal.note (s : System F) (action : Action F × Input F E) (j : Journal F E) : Journal F E :=
  match action with
  | (.start .., .attempt config table layer) => { j with stage := .fromConfig config table, layer }
  | (.commit,_) => { j with scores := j.scores ++ (s.store.stage.buffer.filterMap scoreOf).map fun p => ⟨j.stage.layers,p⟩ }
  | _ => j

-- An attempt scores with the stage it built.
def scores [Arithmetic F] (j : Journal F E) : Action F × Input F E → Prop
  | (.start .., .attempt ..) => True
  | (.start .., _) => False
  | (.score p,.fetched events whitelisted) => p = j.stage.score j.layer p.runId p.pubkey events whitelisted
  | (.score _,_) => False
  | _ => True

instance [Arithmetic F] [DecidableEq F] (j : Journal F E) : (action : Action F × Input F E) → Decidable (scores j action)
  | (.start .., .attempt ..) => inferInstanceAs (Decidable True)
  | (.start .., .fetched ..) | (.start .., .none) => inferInstanceAs (Decidable False)
  | (.score p,.fetched events whitelisted) =>
    inferInstanceAs (Decidable (p = j.stage.score j.layer p.runId p.pubkey events whitelisted))
  | (.score _,.attempt ..) | (.score _,.none) => inferInstanceAs (Decidable False)
  | (.receive,_) | (.begin,_) | (.commit,_) | (.fail,_) | (.stop,_) | (.stats _,_) | (.page _,_) | (.proceed _,_) | (.storeError,_)
  | (.fetchError,_) | (.crash,_) => inferInstanceAs (Decidable True)

def journaled : System F × Journal F E → Action F × Input F E → Option (System F × Journal F E) :=
  traced Journal.note fun s action => step s action.1

def undertaken (config : Config F) (layer : Evaluate F E) : System F × Journal F E :=
  (System.empty,⟨.fromConfig config [],layer,[]⟩)

structure Kept (s : System F) (j : Journal F E) : Prop where
  distinct : j.stage.layers.Nodup
  pending : ∀ p, .Score p ∈ outstanding s.store → p.subscores.map (·.layer) = j.stage.layers
  layers : ∀ c ∈ j.scores, c.payload.subscores.map (·.layer) = c.layers
  follows : Follows (j.scores.map (·.payload)) s.store.committed

variable {s next : System F} {action : Action F}

theorem writes_outstanding (wrote : Writes s action next) (message : WriteMsg F) (held : message ∈ outstanding next.store) :
    message ∈ outstanding s.store := by
  cases wrote with
  | quiet _ _ same => exact same ▸ held
  | commit committed =>
    obtain ⟨_,stage,queue,_⟩ := commit_parts committed
    have later : message ∈ s.store.queue := by
      rw [← queue]
      simpa [outstanding,stage,Stage.buffer] using held
    exact List.mem_append_right _ later
  | fail failed =>
    obtain ⟨_,stage,queue,_⟩ := fail_parts failed
    have later : message ∈ s.store.queue := by
      rw [← queue]
      simpa [outstanding,stage,Stage.buffer] using held
    exact List.mem_append_right _ later
  | stop _ stopped =>
    rw [(stop_parts stopped).2.2.2] at held
    cases held

-- A payload is outstanding until its process ends, and comes from the scoring stage alone.
theorem step_outstanding (moved : Step s action next) {p : Persist F} (held : .Score p ∈ outstanding next.store) :
    (.Score p ∈ outstanding s.store ∧ ∀ resume now configJson limit, action ≠ .start resume now configJson limit) ∨ action = .score p := by
  cases moved with
  | writer wrote =>
    refine .inl ⟨writes_outstanding wrote _ held,?_⟩
    intro resume now configJson limit started
    subst started
    cases wrote with
    | quiet which => cases which <;> contradiction
  | start => cases held
  | crash => cases held
  | score _ _ _ sent =>
    rw [(send_parts sent).2.2.2] at held
    cases List.mem_append.mp held with
    | inl old => exact .inl ⟨old,nofun⟩
    | inr new =>
      cases List.mem_singleton.mp new
      exact .inr rfl
  | insert _ sent | flush _ sent =>
    rw [(send_parts sent).2.2.2] at held
    cases List.mem_append.mp held with
    | inl old => exact .inl ⟨old,nofun⟩
    | inr new => cases List.mem_singleton.mp new
  | _ => exact .inl ⟨held,nofun⟩

theorem step_committed (moved : Step s action next) :
    (next.store.committed = s.store.committed ∧ action ≠ .commit) ∨ (action = .commit ∧ commit execute s.store = some next.store) := by
  cases moved with
  | writer wrote =>
    cases wrote with
    | quiet which data =>
      refine .inl ⟨data,?_⟩
      intro commits
      subst commits
      cases which <;> contradiction
    | commit committed => exact .inr ⟨rfl,committed⟩
    | fail failed => exact .inl ⟨(fail_parts failed).1,nofun⟩
    | stop _ stopped => exact .inl ⟨(stop_parts stopped).2.1,nofun⟩
  | score _ _ _ sent | insert _ sent | flush _ sent => exact .inl ⟨(send_parts sent).2.1,nofun⟩
  | _ => exact .inl ⟨rfl,nofun⟩

theorem note_stage (s : System F) {action : Action F × Input F E} (j : Journal F E)
    (goes : ∀ resume now configJson limit, action.1 ≠ .start resume now configJson limit) : (j.note s action).stage = j.stage := by
  obtain ⟨action,input⟩ := action
  cases action with
  | start resume now configJson limit => exact absurd rfl (goes resume now configJson limit)
  | _ => rfl

theorem note_layers (s : System F) (action : Action F × Input F E) {j : Journal F E} (distinct : j.stage.layers.Nodup) :
    (j.note s action).stage.layers.Nodup := by
  obtain ⟨action,input⟩ := action
  cases action with
  | start resume now configJson limit =>
    cases input with
    | attempt config table layer => exact fromConfig_layers config table
    | fetched | none => exact distinct
  | _ => exact distinct

theorem note_scores (s : System F) {action : Action F × Input F E} (j : Journal F E) (quiet : action.1 ≠ .commit) :
    (j.note s action).scores = j.scores := by
  obtain ⟨action,input⟩ := action
  cases action with
  | commit => exact absurd rfl quiet
  | start => cases input <;> rfl
  | _ => rfl

theorem buffer_score {p : Persist F} (member : p ∈ s.store.stage.buffer.filterMap scoreOf) : .Score p ∈ outstanding s.store := by
  obtain ⟨message,held,same⟩ := List.mem_filterMap.mp member
  cases message with
  | Score q =>
    cases same
    exact List.mem_append_left _ held
  | Pubkeys | Fingerprints | Flush => cases same

theorem kept_step [Arithmetic F] {j : Journal F E} {action : Action F × Input F E} (kept : Kept s j) (scored : scores j action)
    (moved : Step s action.1 next) : Kept next (j.note s action) := by
  refine ⟨note_layers s action kept.distinct,?_,?_,?_⟩
  · intro p held
    cases step_outstanding moved held with
    | inl old =>
      rw [note_stage s j old.2]
      exact kept.pending p old.1
    | inr new =>
      obtain ⟨action,input⟩ := action
      subst new
      have stage : (j.note s (.score p,input)).stage = j.stage := rfl
      rw [stage]
      cases input with
      | fetched events whitelisted =>
        have same : p = j.stage.score j.layer p.runId p.pubkey events whitelisted := scored
        rw [same]
        exact score_layers _ _ _ _ _ _
      | attempt | none => cases scored
  · intro c member
    by_cases commits : action.1 = .commit
    · obtain ⟨action,input⟩ := action
      subst commits
      cases List.mem_append.mp member with
      | inl old => exact kept.layers c old
      | inr new =>
        obtain ⟨p,buffered,rfl⟩ := List.mem_map.mp new
        exact kept.pending p (buffer_score buffered)
    · rw [note_scores s j commits] at member
      exact kept.layers c member
  · cases step_committed moved with
    | inl quiet =>
      rw [quiet.1,note_scores s j quiet.2]
      exact kept.follows
    | inr commits =>
      obtain ⟨action,input⟩ := action
      obtain ⟨same,committed⟩ := commits
      subst same
      rw [(commit_parts committed).2.2.2]
      have distinct : ∀ p, .Score p ∈ s.store.stage.buffer → (p.subscores.map (·.layer)).Nodup := by
        intro p buffered
        rw [kept.pending p (List.mem_append_left _ buffered)]
        exact kept.distinct
      have landed := kept.follows.batch distinct
      simpa [Journal.note,Function.comp_def] using landed

theorem kept_reached [Arithmetic F] {config : Config F} {layer : Evaluate F E} {s : System F × Journal F E}
    (path : Reached journaled (fun s action => scores s.2 action) (undertaken config layer) s) : Kept s.1 s.2 := by
  apply path.invariant (fun s => Kept s.1 s.2)
  · refine ⟨fromConfig_layers config [],?_,?_,follows_empty⟩
    · intro p held
      cases held
    · intro c none
      cases none
  · intro s action next kept scored moved
    obtain ⟨stepped,noted⟩ := traced_parts moved
    rw [noted]
    exact kept_step kept scored (step_cases stepped)

-- The committed scores of a pubkey in a run.
def Journal.own (j : Journal F E) (runId : Nat) (pk : Str) : List (Committed F) := j.scores.filter fun c => c.payload.of runId pk

theorem own_payloads (j : Journal F E) (runId : Nat) (pk : Str) :
    (j.scores.map (·.payload)).filter (Persist.of runId pk) = (j.own runId pk).map (·.payload) := by
  simp [Journal.own,List.filter_map,Function.comp_def]

-- No row is left of a layer that no score brought.
theorem left_none {payloads : List (Persist F)} {layer : Str} (row : Option (Signal F)) :
    payloads.foldl (fun row p => (p.signal layer).or row) row = none ↔ row = none ∧ ∀ p ∈ payloads, p.signal layer = none := by
  induction payloads generalizing row with
  | nil => simp
  | cons p rest ih =>
    rw [List.foldl_cons,ih,Option.or_eq_none_iff,List.forall_mem_cons]
    tauto

theorem left_last {front : List (Persist F)} {last : Persist F} {layer : Str} :
    (front ++ [last]).foldl (fun row p => (p.signal layer).or row) none = last.signal layer ↔
      (last.signal layer = none → ∀ p ∈ front, p.signal layer = none) := by
  rw [List.foldl_append,List.foldl_cons,List.foldl_nil]
  cases own : last.signal layer with
  | some row => simp
  | none => simp [left_none]

theorem signals_exact [Arithmetic F] {config : Config F} {layer : Evaluate F E} {s : System F × Journal F E}
    (path : Reached journaled (fun s action => scores s.2 action) (undertaken config layer) s) (runId : Nat) (pk : Str) :
    (s.2.own runId pk = [] → ∀ name, s.1.store.committed.signal.lookup (runId,pk,name) = none) ∧
    ∀ front last, s.2.own runId pk = front ++ [last] →
      s.1.store.committed.score.lookup (runId,pk) = some ⟨last.payload.score,last.payload.whitelisted,last.payload.suspected⟩ ∧
      last.payload.subscores.map (·.layer) = last.layers ∧
      ((∀ name, s.1.store.committed.signal.lookup (runId,pk,name) = last.payload.signal name) ↔
        ∀ earlier ∈ front, ∀ name ∈ earlier.layers, name ∈ last.layers) := by
  have kept := kept_reached path
  have payloads := own_payloads s.2 runId pk
  refine ⟨?_,?_⟩
  · intro none name
    rw [kept.follows.signal,leftBy,payloads,none]
    rfl
  · intro front last split
    have inside : ∀ c ∈ front ++ [last], c.payload.subscores.map (·.layer) = c.layers := by
      intro c member
      rw [← split] at member
      exact kept.layers c (List.mem_of_mem_filter member)
    have own := inside last (by simp)
    rw [split,List.map_append] at payloads
    refine ⟨?_,own,?_⟩
    · rw [kept.follows.score,payloads]
      simp
    · have rows : (∀ name, s.1.store.committed.signal.lookup (runId,pk,name) = last.payload.signal name) ↔
          ∀ name, last.payload.signal name = none → ∀ p ∈ front.map (·.payload), p.signal name = none := by
        apply forall_congr'
        intro name
        rw [kept.follows.signal,leftBy,payloads]
        exact left_last
      rw [rows]
      constructor
      · intro gone earlier member name enabled
        by_contra absent
        have brought := gone name (signal_none.mpr (own ▸ absent)) earlier.payload (List.mem_map_of_mem member)
        rw [signal_none,inside earlier (List.mem_append_left _ member)] at brought
        exact brought enabled
      · intro covered name absent p member
        obtain ⟨earlier,known,rfl⟩ := List.mem_map.mp member
        rw [signal_none,inside earlier (List.mem_append_left _ known)]
        intro enabled
        rw [signal_none,own] at absent
        exact absent (covered earlier known name enabled)

instance : Arithmetic Int where
  zero := 0
  add := (· + ·)
  mul := (· * ·)
  neg := (- ·)
  sigmoid := id
  gt left right := decide (right < left)

def twoLayers (l1 : Bool) : Config Int := ⟨0,0,⟨⟨true,1⟩,⟨l1,1⟩,⟨false,1⟩,⟨false,1⟩⟩,⟨0,0,0⟩⟩

def constant (value : Int) : Evaluate Int Unit := fun name _ _ => ⟨value,name⟩

-- A one-key corpus enumerated, scored and committed in one attempt, which ends in a crash.
def attempted (resume l1 : Bool) (value : Int) : List (Action Int × Input Int Unit) :=
  [(.start resume 0 [] none,.attempt (twoLayers l1) [] (constant value)),(.stats (.ok 0),.none),(.proceed 0,.none),
    (.page (.ok ⟨[scoredPk],none⟩),.none),(.proceed 0,.none),(.proceed 0,.none),(.receive,.none),(.receive,.none),(.begin,.none),
    (.commit,.none),(.proceed 0,.none),(.stats (.ok 0),.none),(.proceed 0,.none),(.proceed 0,.none),
    (.score ((ScoringStage.fromConfig (twoLayers l1) []).score (constant value) 1 scoredPk [] false),.fetched [] false),
    (.receive,.none),(.begin,.none),(.commit,.none),(.crash,.none)]

def valueOf (s : System Int × Journal Int Unit) (name : String) : Option Int :=
  (s.1.store.committed.signal.lookup (1,scoredPk,Bytes.text name)).map (·.value)

-- A layer is enabled for the resumed run.
theorem signals_exact_resumed : ∃ s : System Int × Journal Int Unit, ∃ front last, s.2.own 1 scoredPk = front ++ [last] ∧ front.length = 1 ∧
    valueOf s "L0_whitelist_absence" = some 7 ∧ valueOf s "L1_near_duplicate" = some 7 ∧
    ((∀ name, s.1.store.committed.signal.lookup (1,scoredPk,name) = last.payload.signal name) ↔
      ∀ earlier ∈ front, ∀ name ∈ earlier.layers, name ∈ last.layers) := by
  obtain ⟨s,path,checked⟩ := replay_final journaled (fun s action => scores s.2 action) (undertaken (twoLayers false) (constant 0))
    (attempted false false 5 ++ attempted true true 7)
    (fun s => decide ((s.2.own 1 scoredPk).length = 2 ∧ valueOf s "L0_whitelist_absence" = some 7 ∧
      valueOf s "L1_near_duplicate" = some 7)) (by decide +kernel) (by decide +kernel)
  obtain ⟨two,first,second⟩ := of_decide_eq_true checked
  obtain ⟨front,last,split⟩ := List.eq_nil_or_concat (s.2.own 1 scoredPk) |>.resolve_left (by
    intro none
    rw [none] at two
    cases two)
  rw [List.concat_eq_append] at split
  rw [split,List.length_append] at two
  exact ⟨s,front,last,split,Nat.succ.inj two,first,second,((signals_exact path 1 scoredPk).2 front last split).2.2⟩

-- A layer is disabled for the resumed run, and its row stays.
theorem signals_exact_fails : ¬ ∀ s : System Int × Journal Int Unit,
    Reached journaled (fun s action => scores s.2 action) (undertaken (twoLayers false) (constant 0)) s →
    ∀ front last, s.2.own 1 scoredPk = front ++ [last] →
      ∀ name, s.1.store.committed.signal.lookup (1,scoredPk,name) = last.payload.signal name := by
  intro claimed
  obtain ⟨s,path,checked⟩ := replay_final journaled (fun s action => scores s.2 action) (undertaken (twoLayers false) (constant 0))
    (attempted false true 5 ++ attempted true false 7)
    (fun s => decide (valueOf s "L1_near_duplicate" = some 5 ∧ ((s.2.own 1 scoredPk).getLast?.any fun last =>
      (last.payload.signal (Bytes.text "L1_near_duplicate")).isNone) = true)) (by decide +kernel) (by decide +kernel)
  obtain ⟨stale,gone⟩ := of_decide_eq_true checked
  obtain ⟨last,held,absent⟩ := (Option.any_eq_true _ _).mp gone
  obtain ⟨front,split⟩ := List.getLast?_eq_some_iff.mp held
  have same := claimed s path front last split (Bytes.text "L1_near_duplicate")
  rw [Option.isNone_iff_eq_none.mp absent] at same
  rw [valueOf,same] at stale
  cases stale

end DeepFry.Spamhunter
