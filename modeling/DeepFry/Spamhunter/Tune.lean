import DeepFry.Spamhunter.Weights

namespace DeepFry.Spamhunter

structure ReviewRow (F : Type) where
  runId : Nat
  pubkey : Str
  score : F
  sampledAt : Int

-- The whole database; the labels are the operator's own inserts.
structure Database (F : Type) where
  tables : Tables F
  runs : Runs
  weight : Weights F
  backpropagation : Table Str Int
  reviewQueue : List (ReviewRow F)

structure Labeled (F : Type) where
  pubkey : Str
  isSpam : Bool
  features : List F

structure Regression where
  newFalseNegatives : List Str
  newFalsePositives : List Str
deriving DecidableEq

inductive TuneReport (F : Type) where
  | Adopted (weights : List (Str × F)) (bias : F) (runId : Nat)
  | BlockedByRegression (regression : Regression)
  | BlockedByPrecondition (message : Str)
deriving DecidableEq

-- The places where SQLite can fail.
inductive Query where
  | openReader
  | latestDoneRun
  | populateReviewQueue
  | labeledFeatures
  | readWeights
  | openWeightWriter
  | updateWeight (layer : Str)
  | commit
deriving DecidableEq

-- A fitted model of the solver library: one coefficient for each feature column.
structure Solution (F : Type) (columns : Nat) where
  posIsSpam : Bool
  params : List F
  intercept : F
  sized : params.length = columns

abbrev Solver (F : Type) := F → Nat → (columns : Nat) → List (List F × Bool) → Except Str (Solution F columns)

variable {F : Type}

def fill (layers : List Str) (runId : Nat) (pubkey : Str) (v : List F) (signal : (_ : Nat × Str × Str) × Signal F) : List F :=
  if signal.1.1 = runId ∧ signal.1.2.1 = pubkey then
    match layers.findIdx? (· = signal.1.2.2) with
    | some j => v.set j signal.2.value
    | none => v
  else v

-- One vector per labelled pubkey, in pubkey order; a layer without a signal row counts zero.
def labeledFeatures [Arithmetic F] (db : Database F) (runId : Nat) (layers : List Str) : List (Labeled F) :=
  (db.backpropagation.entries.insertionSort (·.1 ≤ ·.1)).map fun entry =>
    ⟨entry.1,entry.2 ≠ 0,db.tables.signal.entries.foldl (fill layers runId entry.1) (layers.map fun _ => Arithmetic.zero)⟩

def latestDoneRun (runs : Runs) : Option Nat := ((runs.rows.filter (·.status = .done)).map (·.runId)).max?

def fnv1a64 (bytes : Bytes) : UInt64 :=
  bytes.foldl (fun h b => (h ^^^ b.toUInt64) * 0x100000001b3) 0xcbf29ce484222325

def sampleOrder (left right : Str × F) : Bool :=
  let (first,second) := (fnv1a64 left.1,fnv1a64 right.1)
  first < second || first = second && decide (left.1 ≤ right.1)

def unflagged (db : Database F) (runId sampleSize : Nat) : List (Str × F) :=
  let scored := db.tables.score.entries.filter fun entry => entry.1.1 = runId && !entry.2.suspected
  ((scored.map fun entry => (entry.1.2,entry.2.score)).mergeSort sampleOrder).take sampleSize

def populateReviewQueue (now : Int) (runId sampleSize : Nat) (db : Database F) : Database F :=
  { db with reviewQueue := db.reviewQueue.filter (·.runId ≠ runId) ++
      (unflagged db runId sampleSize).map fun (pubkey,score) => ⟨runId,pubkey,score,now⟩ }

def singleClass (labeled : List (Labeled F)) : Bool :=
  !(labeled.any (·.isSpam) && labeled.any (!·.isSpam))

def SINGLE_CLASS : Str := Bytes.text "need both spam and ham labels to tune (single-class label set)"

-- The solver's classes may come out in either order; the signs are turned so that the score is that of spam.
def fit [Arithmetic F] (solver : Solver F) (labeled : List (Labeled F)) (alpha : F) (maxIterations : Nat) :
    Except Str (List F × F) :=
  match labeled with
  | [] => .error (Bytes.text "no labeled pubkeys to tune")
  | first :: _ =>
    if singleClass labeled then .error SINGLE_CLASS
    else
      match solver alpha maxIterations first.features.length (labeled.map fun one => (one.features,one.isSpam)) with
      | .error e => .error (Bytes.text "logistic fit failed: " ++ e)
      | .ok model =>
        if model.posIsSpam then .ok (model.params,model.intercept)
        else .ok (model.params.map Arithmetic.neg,Arithmetic.neg model.intercept)

def flagged [Arithmetic F] (weights : List F) (bias tau : F) (xs : List F) : Bool := Arithmetic.gt (combine weights bias xs) tau

def backtest [Arithmetic F] (labeled : List (Labeled F)) (stagingW : List F) (stagingB tau : F) : Except Regression Unit :=
  let negatives := labeled.filter fun one => one.isSpam && !flagged stagingW stagingB tau one.features
  let positives := labeled.filter fun one => !one.isSpam && flagged stagingW stagingB tau one.features
  if negatives.isEmpty && positives.isEmpty then .ok ()
  else .error ⟨negatives.map (·.pubkey),positives.map (·.pubkey)⟩

-- UPDATE .. WHERE layer = ?: a key without a row changes nothing and is no error.
def setWeight (now : Int) (runId : Nat) (t : Weights F) (entry : Str × F) : Weights F :=
  t.update entry.1 (fun w => { w with weight := entry.2, tunedAt := some now, tunedFromRun := some runId }) fun _ => rfl

def updates (fault : Query → Option Str) (now : Int) (runId : Nat) : List (Str × F) → Weights F → Except Str (Weights F)
  | [],tx => match fault .commit with
    | some e => .error e
    | none => .ok tx
  | entry :: rest,tx => match fault (.updateWeight entry.1) with
    | some e => .error e
    | none => updates fault now runId rest (setWeight now runId tx entry)

-- One transaction: unless the commit succeeds the table stays as it was.
def writeWeights (fault : Query → Option Str) (now : Int) (stagingW : List F) (stagingB : F) (runId : Nat) (t : Weights F) :
    Except Str (Weights F) :=
  match fault .openWeightWriter with
  | some e => .error e
  | none => updates fault now runId (LAYERS.zip stagingW ++ [(BIAS_KEY,stagingB)]) t

def liveTau (config : Config F) (t : Weights F) : F :=
  (((readWeights t).find? (·.layer = THRESHOLD_KEY)).bind (·.threshold)).getD config.tau

def resolveRun (fault : Query → Option Str) (runId : Option Nat) (runs : Runs) : Except Str Nat :=
  match runId with
  | some runId => .ok runId
  | none =>
    match fault .latestDoneRun with
    | some e => .error (Bytes.text "resolve latest done run: " ++ e)
    | none => (latestDoneRun runs).elim (.error (Bytes.text "no completed run to tune — run `pubkey_iterator run` first")) .ok

-- The part of run_tune behind the fit: gate, then adopt.
def adopt [Arithmetic F] (fault : Query → Option Str) (now : Int) (config : Config F) (runId : Nat) (labeled : List (Labeled F))
    (stagingW : List F) (stagingB : F) (db : Database F) : Except Str (TuneReport F) × Database F :=
  match fault .readWeights with
  | some e => (.error (Bytes.text "read live weights: " ++ e),db)
  | none =>
    match backtest labeled stagingW stagingB (liveTau config db.weight) with
    | .error regression => (.ok (.BlockedByRegression regression),db)
    | .ok () =>
      match writeWeights fault now stagingW stagingB runId db.weight with
      | .error e => (.error (Bytes.text "write weights: " ++ e),db)
      | .ok weight => (.ok (.Adopted (LAYERS.zip stagingW) stagingB runId),{ db with weight })

def runTune [Arithmetic F] (solver : Solver F) (fault : Query → Option Str) (now : Int) (config : Config F)
    (runId : Option Nat) (db : Database F) : Except Str (TuneReport F) × Database F :=
  match fault .openReader with
  | some e => (.error (Bytes.text "open reader: " ++ e),db)
  | none =>
    match resolveRun fault runId db.runs with
    | .error e => (.error e,db)
    | .ok runId =>
      match fault .populateReviewQueue with
      | some e => (.error (Bytes.text "populate review_queue: " ++ e),db)
      | none =>
        let db := populateReviewQueue now runId config.tune.reviewSampleSize db
        match fault .labeledFeatures with
        | some e => (.error (Bytes.text "read labeled features: " ++ e),db)
        | none =>
          let labeled := labeledFeatures db runId LAYERS
          if labeled.isEmpty then
            (.ok (.BlockedByPrecondition (Bytes.text
              "no labeled pubkeys for the chosen run — INSERT ground truth into backpropagation first")),db)
          else if singleClass labeled then (.ok (.BlockedByPrecondition SINGLE_CLASS),db)
          else
            match fit solver labeled config.tune.alpha config.tune.maxIterations with
            | .error e => (.error e,db)
            | .ok (stagingW,stagingB) => adopt fault now config runId labeled stagingW stagingB db

section Fill
theorem fill_length (layers : List Str) (runId : Nat) (pubkey : Str) (signals : List ((_ : Nat × Str × Str) × Signal F)) (v : List F) :
    (signals.foldl (fill layers runId pubkey) v).length = v.length := by
  induction signals generalizing v with
  | nil => rfl
  | cons signal rest ih =>
    have one : (fill layers runId pubkey v signal).length = v.length := by
      unfold fill
      split
      · split
        · exact List.length_set
        · rfl
      · rfl
    rw [List.foldl_cons,ih,one]
end Fill

section Update
variable {fault : Query → Option Str} {now : Int} {runId : Nat} {t next : Weights F} {key : Str} {stagingW : List F}
  {stagingB : F}

theorem row_setWeight (entry : Str × F) :
    ((setWeight now runId t entry).row key).map (·.weight) =
      if entry.1 = key then (t.row key).map fun _ => entry.2 else (t.row key).map (·.weight) := by
  rw [setWeight,weight_update,Option.map_map]
  cases found : t.row key with
  | none => simp
  | some w =>
    have here : w.layer = key := by simpa using List.find?_some found
    by_cases same : entry.1 = key
    · simp [same,here]
    · have other : w.layer ≠ entry.1 := fun equal => same (equal.symm.trans here)
      simp [same,other]

theorem threshold_setWeight (entry : Str × F) :
    ((setWeight now runId t entry).row key).bind (·.threshold) = (t.row key).bind (·.threshold) := by
  rw [setWeight,weight_update]
  cases t.row key with
  | none => rfl
  | some w => by_cases same : w.layer = entry.1 <;> simp [same]

-- What each update keeps, the transaction keeps.
theorem updates_kept (P : Weights F → Prop) (entries : List (Str × F)) (written : updates fault now runId entries t = .ok next)
    (kept : ∀ entry ∈ entries, ∀ tx, P tx → P (setWeight now runId tx entry)) (before : P t) : P next := by
  induction entries generalizing t with
  | nil =>
    simp only [updates] at written
    split at written
    · cases written
    · cases written
      exact before
  | cons entry rest ih =>
    simp only [updates] at written
    split at written
    · cases written
    · exact ih written (fun later member => kept later (List.mem_cons_of_mem _ member)) (kept entry List.mem_cons_self t before)

theorem updates_threshold (entries : List (Str × F)) (written : updates fault now runId entries t = .ok next) :
    (next.row key).bind (·.threshold) = (t.row key).bind (·.threshold) :=
  updates_kept (fun tx => (tx.row key).bind (·.threshold) = (t.row key).bind (·.threshold)) entries written
    (fun entry _ _ before => (threshold_setWeight entry).trans before) rfl

theorem updates_other (entries : List (Str × F)) (written : updates fault now runId entries t = .ok next)
    (absent : key ∉ entries.map (·.1)) : (next.row key).map (·.weight) = (t.row key).map (·.weight) := by
  refine updates_kept (fun tx => (tx.row key).map (·.weight) = (t.row key).map (·.weight)) entries written ?_ rfl
  intro entry member tx before
  have other : entry.1 ≠ key := fun same => absent (same ▸ List.mem_map_of_mem member)
  rw [row_setWeight,if_neg other]
  exact before

-- After the transaction each updated key carries its new weight, if it has a row at all.
theorem updates_weight {entry : Str × F} (entries : List (Str × F)) (distinct : (entries.map (·.1)).Nodup)
    (written : updates fault now runId entries t = .ok next) (member : entry ∈ entries) :
    (next.row entry.1).map (·.weight) = (t.row entry.1).map fun _ => entry.2 := by
  induction entries generalizing t with
  | nil => cases member
  | cons first rest ih =>
    simp only [updates] at written
    rw [List.map_cons,List.nodup_cons] at distinct
    split at written
    · cases written
    · rcases List.mem_cons.mp member with rfl | later
      · rw [updates_other rest written distinct.1,row_setWeight,if_pos rfl]
      · have other : first.1 ≠ entry.1 := fun same => distinct.1 (same ▸ List.mem_map_of_mem later)
        rw [ih distinct.2 written later]
        have kept := congrArg Option.isSome (@row_setWeight _ now runId t entry.1 first)
        rw [if_neg other,Option.isSome_map,Option.isSome_map] at kept
        cases before : t.row entry.1 <;> cases after : (setWeight now runId t first).row entry.1 <;> simp_all

theorem stored_or_fallback {row row' : Option (Weight F)} {fitted fallback : F}
    (written : row'.map (·.weight) = row.map fun _ => fitted) :
    (row'.map (·.weight)).getD fallback = fitted ↔ row.isSome ∨ fallback = fitted := by
  rw [written]
  cases row <;> simp

theorem entries_distinct (width : stagingW.length = LAYERS.length) :
    ((LAYERS.zip stagingW ++ [(BIAS_KEY,stagingB)]).map (·.1)).Nodup := by
  have keys : (LAYERS.zip stagingW ++ [(BIAS_KEY,stagingB)]).map (·.1) = LAYERS ++ [BIAS_KEY] := by
    rw [List.map_append,List.map_fst_zip width.ge]
    rfl
  rw [keys]
  exact keys_distinct.sublist (List.Sublist.append_left (List.sublist_append_left [BIAS_KEY] [THRESHOLD_KEY]) LAYERS)

theorem adopted_weights (config : Config F) (width : stagingW.length = LAYERS.length)
    (written : updates fault now runId (LAYERS.zip stagingW ++ [(BIAS_KEY,stagingB)]) t = .ok next) :
    (nextStage config next).weights = stagingW ↔ (∀ declared ∈ config.declared, declared.2.enabled = true) ∧
      ∀ slot ∈ config.declared.zip stagingW, (t.row slot.1.1).isSome ∨ slot.1.2.weight = slot.2 := by
  have distinct := @entries_distinct _ stagingW stagingB width
  have slots : ∀ slot ∈ config.declared.zip stagingW,
      ((next.row slot.1.1).map (·.weight)).getD slot.1.2.weight = slot.2 ↔ (t.row slot.1.1).isSome ∨ slot.1.2.weight = slot.2 := by
    intro slot member
    have entry : (slot.1.1,slot.2) ∈ LAYERS.zip stagingW := by
      rw [← declared_keys config,List.zip_map_left]
      exact List.mem_map.mpr ⟨slot,member,rfl⟩
    exact stored_or_fallback (updates_weight _ distinct written (List.mem_append_left _ entry))
  have declared_width : config.declared.length = stagingW.length := by
    rw [width,← declared_keys config,List.length_map]
  rw [next_weights]
  constructor
  · intro loaded
    have on : ∀ declared ∈ config.declared, declared.2.enabled = true := by
      have lengths := congrArg List.length loaded
      rw [List.length_map,← declared_width] at lengths
      exact List.length_filter_eq_length_iff.mp lengths
    refine ⟨on,fun slot member => (slots slot member).mp ?_⟩
    rw [List.filter_eq_self.mpr on,← List.forall₂_eq_eq_eq,List.forall₂_map_left_iff,List.forall₂_iff_zip] at loaded
    exact loaded.2 member
  · rintro ⟨on,stored⟩
    rw [List.filter_eq_self.mpr on,← List.forall₂_eq_eq_eq,List.forall₂_map_left_iff,List.forall₂_iff_zip]
    exact ⟨declared_width,fun member => (slots _ member).mpr (stored _ member)⟩

-- What the next stage loads after an adoption: a value without a row is lost, unless the configuration
-- has the very same.
theorem adopted_loaded {t next : Weights F} (width : stagingW.length = LAYERS.length)
    (written : updates fault now runId (LAYERS.zip stagingW ++ [(BIAS_KEY,stagingB)]) t = .ok next) :
    ((nextStage config next).weights = stagingW ∧ (nextStage config next).bias = stagingB) ↔
      ((∀ declared ∈ config.declared, declared.2.enabled = true) ∧
        ∀ slot ∈ config.declared.zip stagingW, (t.row slot.1.1).isSome ∨ slot.1.2.weight = slot.2) ∧
      ((t.row BIAS_KEY).isSome ∨ config.bias = stagingB) := by
  rw [adopted_weights config width written,next_bias]
  exact and_congr_right fun _ => stored_or_fallback
    (updates_weight _ (entries_distinct width) written (List.mem_append_right _ List.mem_cons_self))

-- Every layer is switched on, and each layer key and the bias have a row that an update can match.
def Covered (config : Config F) (t : Weights F) : Prop :=
  (∀ declared ∈ config.declared, declared.2.enabled = true ∧ (t.row declared.1).isSome) ∧ (t.row BIAS_KEY).isSome

theorem Covered.loaded {t next : Weights F} (covered : Covered config t) (width : stagingW.length = LAYERS.length)
    (written : updates fault now runId (LAYERS.zip stagingW ++ [(BIAS_KEY,stagingB)]) t = .ok next) :
    (nextStage config next).weights = stagingW ∧ (nextStage config next).bias = stagingB :=
  (adopted_loaded width written).mpr ⟨⟨fun declared member => (covered.1 declared member).1,
    fun _ member => .inl (covered.1 _ (List.of_mem_zip member).1).2⟩,.inl covered.2⟩
end Update

section Fit
variable [Arithmetic F] {solver : Solver F} {fault : Query → Option Str} {now : Int} {config : Config F} {runId : Nat}
  {labeled : List (Labeled F)} {stagingW : List F} {stagingB : F} {db : Database F}

theorem features_length {one : Labeled F} {layers : List Str} (member : one ∈ labeledFeatures db runId layers) :
    one.features.length = layers.length := by
  obtain ⟨entry,_,rfl⟩ := List.mem_map.mp member
  rw [fill_length,List.length_map]

theorem fit_length {layers : List Str} {alpha : F} {maxIterations : Nat}
    (fitted : fit solver (labeledFeatures db runId layers) alpha maxIterations = .ok (stagingW,stagingB)) :
    stagingW.length = layers.length := by
  unfold fit at fitted
  split at fitted
  · cases fitted
  · rename_i first rest same
    have width : first.features.length = layers.length := features_length (same ▸ List.mem_cons_self)
    split at fitted
    · cases fitted
    · split at fitted
      · cases fitted
      · rename_i model _
        split at fitted
        · cases fitted
          rw [model.sized,width]
        · cases fitted
          rw [List.length_map,model.sized,width]

-- The gate lets a fit pass only when it puts every labelled pubkey on its own side of the threshold.
theorem backtest_sorts {tau : F} (passed : backtest labeled stagingW stagingB tau = .ok ()) :
    ∀ one ∈ labeled, flagged stagingW stagingB tau one.features = one.isSpam := by
  intro one member
  simp only [backtest] at passed
  split at passed
  · rename_i clean
    rw [Bool.and_eq_true,List.isEmpty_iff,List.isEmpty_iff,List.filter_eq_nil_iff,List.filter_eq_nil_iff] at clean
    have negative := clean.1 one member
    have positive := clean.2 one member
    cases spam : one.isSpam <;> cases flag : flagged stagingW stagingB tau one.features <;> simp_all
  · cases passed

inductive Tuned (solver : Solver F) (fault : Query → Option Str) (now : Int) (config : Config F) (db : Database F) :
    Except Str (TuneReport F) × Database F → Prop where
  | kept (outcome : Except Str (TuneReport F)) (after : Database F) :
      (∀ weights bias runId, outcome ≠ .ok (.Adopted weights bias runId)) → after.weight = db.weight →
      Tuned solver fault now config db (outcome,after)
  | adopted (runId : Nat) (stagingW : List F) (stagingB : F) (after : Database F) :
      fit solver (labeledFeatures db runId LAYERS) config.tune.alpha config.tune.maxIterations = .ok (stagingW,stagingB) →
      backtest (labeledFeatures db runId LAYERS) stagingW stagingB (liveTau config db.weight) = .ok () →
      updates fault now runId (LAYERS.zip stagingW ++ [(BIAS_KEY,stagingB)]) db.weight = .ok after.weight →
      Tuned solver fault now config db (.ok (.Adopted (LAYERS.zip stagingW) stagingB runId),after)

theorem adopt_cases (fitted : fit solver (labeledFeatures db runId LAYERS) config.tune.alpha config.tune.maxIterations =
      .ok (stagingW,stagingB)) (queued : Database F) (same : labeledFeatures queued runId LAYERS = labeledFeatures db runId LAYERS)
    (weight : queued.weight = db.weight) :
    Tuned solver fault now config db (adopt fault now config runId (labeledFeatures queued runId LAYERS) stagingW stagingB queued) := by
  unfold adopt
  split
  · exact .kept _ _ nofun weight
  · split
    · exact .kept _ _ nofun weight
    · rename_i passed
      rw [same,weight] at passed
      split
      · exact .kept _ _ nofun weight
      · rename_i written
        unfold writeWeights at written
        split at written
        · cases written
        · rw [weight] at written
          exact .adopted _ _ _ _ fitted passed written

-- Everything a run of the tuner can end in.
theorem runTune_cases (choice : Option Nat) : Tuned solver fault now config db (runTune solver fault now config choice db) := by
  unfold runTune
  split
  · exact .kept _ _ nofun rfl
  · split
    · exact .kept _ _ nofun rfl
    · split
      · exact .kept _ _ nofun rfl
      · dsimp only
        split
        · exact .kept _ _ nofun rfl
        · split
          · exact .kept _ _ nofun rfl
          · split
            · exact .kept _ _ nofun rfl
            · split
              · exact .kept _ _ nofun rfl
              · rename_i fitted
                refine adopt_cases ?_ _ rfl rfl
                exact fitted

-- Nothing but an adoption touches the weights; after an adoption the threshold is the old one, and where the table
-- covers the layers and the bias, the next stage loads exactly the adopted values, and sorts the labelled pubkeys as labelled.
theorem tuning_interlock {choice : Option Nat} {outcome : Except Str (TuneReport F)} {after : Database F}
    (tuned : runTune solver fault now config choice db = (outcome,after)) :
    ((∀ weights bias runId, outcome ≠ .ok (.Adopted weights bias runId)) → after.weight = db.weight) ∧
    ∀ weights bias runId, outcome = .ok (.Adopted weights bias runId) →
      let stage := nextStage config after.weight
      stage.tau = (nextStage config db.weight).tau ∧
      (Covered config db.weight → stage.weights = weights.map (·.2) ∧ stage.bias = bias ∧
          ∀ one ∈ labeledFeatures db runId LAYERS, flagged stage.weights stage.bias stage.tau one.features = one.isSpam) := by
  have cases := @runTune_cases _ _ solver fault now config db choice
  rw [tuned] at cases
  cases cases with
  | kept _ _ blocked same => exact ⟨fun _ => same,fun weights bias runId adopted => absurd adopted (blocked weights bias runId)⟩
  | adopted rid stagingW stagingB _ fitted passed written =>
    refine ⟨fun blocked => absurd rfl (blocked _ _ _),?_⟩
    rintro _ _ _ ⟨⟩
    have width := fit_length fitted
    have tau : (nextStage config after.weight).tau = liveTau config db.weight := by
      rw [next_tau,updates_threshold _ written,liveTau,readWeights_row]
    refine ⟨by rw [tau,next_tau,liveTau,readWeights_row],fun covered => ?_⟩
    obtain ⟨loadedW,loadedB⟩ := covered.loaded width written
    rw [List.map_snd_zip width.le]
    refine ⟨loadedW,loadedB,?_⟩
    rw [loadedW,loadedB,tau]
    exact backtest_sorts passed
end Fit

-- Rational numbers with a step that lies on the same side of one half as the logistic curve.
instance : Arithmetic ℚ where
  zero := 0
  add := (· + ·)
  mul := (· * ·)
  neg := (- ·)
  sigmoid z := if 0 < z then 1 else if z = 0 then 1 / 2 else 0
  gt left right := right < left

def exampleConfig : Config ℚ where
  tau := 1 / 2
  bias := -4
  layers := ⟨⟨true,4 / 5⟩,⟨true,2⟩,⟨true,3 / 2⟩,⟨true,3 / 2⟩⟩
  tune := ⟨1 / 100,100,100⟩

-- A fit that puts all its weight on the near-duplicate column.
def duplicateSolver : Solver ℚ := fun _ _ columns _ =>
  .ok ⟨true,(List.range columns).map fun j => if j = 1 then 8 else 0,-3,by rw [List.length_map,List.length_range]⟩

def spammer : Str := [97]

def human : Str := [98]

-- One near-duplicate spammer and one human, after a seeding of which so many rows were committed.
def seededDatabase (inserted : Nat) : Database ℚ where
  tables := { Tables.empty with signal := AList.singleton (1,spammer,Bytes.text "L1_near_duplicate") ⟨1,none⟩ }
  runs := .empty
  weight := seedWeightsIfEmpty exampleConfig inserted .empty
  backpropagation := (AList.singleton spammer 1).insert human 0
  reviewQueue := []

def tunedDatabase (inserted : Nat) : Except Str (TuneReport ℚ) × Database ℚ :=
  runTune duplicateSolver (fun _ => none) 0 exampleConfig (some 1) (seededDatabase inserted)

-- The seeding crashed after its first row: the tuner reports an adoption, the next run loads the weights of the
-- configuration file, and the labelled spammer goes unflagged.
theorem tuning_interlock_fails :
    (tunedDatabase 1).1 = .ok (.Adopted (LAYERS.zip [0,8,0,0]) (-3) 1) ∧
    let stage := nextStage exampleConfig (tunedDatabase 1).2.weight
    stage.weights = [0,2,3 / 2,3 / 2] ∧ stage.bias = -4 ∧
      ∃ one ∈ labeledFeatures (seededDatabase 1) 1 LAYERS,
        one.isSpam = true ∧ flagged stage.weights stage.bias stage.tau one.features = false := by
  decide +kernel

theorem tuning_interlock_sample :
    let stage := nextStage exampleConfig (tunedDatabase 6).2.weight
    stage.weights = [0,8,0,0] ∧ stage.bias = -3 ∧
      ∀ one ∈ labeledFeatures (seededDatabase 6) 1 LAYERS,
        flagged stage.weights stage.bias stage.tau one.features = one.isSpam := by
  have adopted : (tunedDatabase 6).1 = .ok (.Adopted (LAYERS.zip [0,8,0,0]) (-3) 1) := by decide +kernel
  have interlock := (tuning_interlock (Eq.refl (tunedDatabase 6))).2 _ _ _ adopted
  exact interlock.2 ⟨by decide +kernel,by decide +kernel⟩

end DeepFry.Spamhunter
