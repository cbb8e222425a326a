import DeepFry.Spamhunter.Store

namespace DeepFry.Spamhunter

-- The machine's floating-point operations; no result depends on what they compute.
class Arithmetic (F : Type) where
  zero : F
  add : F → F → F
  mul : F → F → F
  neg : F → F
  sigmoid : F → F
  gt : F → F → Bool

variable {F : Type}

def combine [Arithmetic F] (weights : List F) (bias : F) (xs : List F) : F :=
  Arithmetic.sigmoid (Arithmetic.add bias ((List.zipWith Arithmetic.mul weights xs).foldl Arithmetic.add Arithmetic.zero))

def BIAS_KEY : Str := Bytes.text "_bias"

def THRESHOLD_KEY : Str := Bytes.text "_threshold"

def LAYERS : List Str :=
  [Bytes.text "L0_whitelist_absence",Bytes.text "L1_near_duplicate",Bytes.text "L3_content_entropy",
    Bytes.text "L4_link_mention"]

structure LayerConfig (F : Type) where
  enabled : Bool
  weight : F

structure Layers (F : Type) where
  l0WhitelistAbsence : LayerConfig F
  l1NearDuplicate : LayerConfig F
  l3ContentEntropy : LayerConfig F
  l4LinkMention : LayerConfig F

structure TuneConfig (F : Type) where
  alpha : F
  maxIterations : Nat
  reviewSampleSize : Nat

structure Config (F : Type) where
  tau : F
  bias : F
  layers : Layers F
  tune : TuneConfig F

-- The layers in declaration order, each under its row's key.
def Config.declared (config : Config F) : List (Str × LayerConfig F) :=
  LAYERS.zip [config.layers.l0WhitelistAbsence,config.layers.l1NearDuplicate,config.layers.l3ContentEntropy,
    config.layers.l4LinkMention]

structure Weight (F : Type) where
  layer : Str
  weight : F
  threshold : Option F
  tunedAt : Option Int
  tunedFromRun : Option Nat
deriving DecidableEq

structure Weights (F : Type) where
  rows : List (Weight F)
  keyed : (rows.map (·.layer)).Nodup

namespace Weights

def empty : Weights F := ⟨[],List.nodup_nil⟩

def row (t : Weights F) (layer : Str) : Option (Weight F) := t.rows.find? (·.layer = layer)

-- INSERT: a row whose key is taken is refused.
def insert (t : Weights F) (w : Weight F) : Weights F :=
  if fresh : w.layer ∈ t.rows.map (·.layer) then t
  else ⟨t.rows ++ [w],by
    rw [List.map_append,List.nodup_append]
    refine ⟨t.keyed,List.nodup_singleton _,fun old present new last => ?_⟩
    cases List.mem_singleton.mp last
    intro same
    subst same
    exact fresh present⟩

def update (t : Weights F) (layer : Str) (set : Weight F → Weight F) (keeps : ∀ w, (set w).layer = w.layer) : Weights F where
  rows := t.rows.map fun w => if w.layer = layer then set w else w
  keyed := by
    have same : (fun w : Weight F => w.layer) ∘ (fun w => if w.layer = layer then set w else w) = (·.layer) := by
      funext w
      by_cases here : w.layer = layer <;> simp [here,keeps]
    rw [List.map_map,same]
    exact t.keyed

end Weights

-- SELECT .. FROM weight ORDER BY layer
def readWeights (t : Weights F) : List (Weight F) := t.rows.insertionSort (·.layer ≤ ·.layer)

def seedRows (config : Config F) : List (Weight F) :=
  config.declared.map (fun (layer,entry) => ⟨layer,entry.weight,none,none,none⟩) ++
    [⟨BIAS_KEY,config.bias,none,none,none⟩,⟨THRESHOLD_KEY,config.tau,some config.tau,none,none⟩]

-- Each INSERT commits by itself; a crash or an error may stop the seeding after any number of them.
def seedWeightsIfEmpty (config : Config F) (inserted : Nat) (t : Weights F) : Weights F :=
  if t.rows.any (·.layer ∈ LAYERS ++ [BIAS_KEY,THRESHOLD_KEY]) then t
  else ((seedRows config).take inserted).foldl Weights.insert t

-- The layers are paired with their weights by position.
structure ScoringStage (F : Type) where
  layers : List Str
  weights : List F
  bias : F
  tau : F
  paired : layers.length = weights.length

def ScoringStage.fromConfig (config : Config F) (table : List (Weight F)) : ScoringStage F :=
  let stored (layer : Str) := table.find? (·.layer = layer)
  let enabled := config.declared.filter (·.2.enabled)
  { layers := enabled.map (·.1)
    weights := enabled.map fun (layer,entry) => ((stored layer).map (·.weight)).getD entry.weight
    bias := ((stored BIAS_KEY).map (·.weight)).getD config.bias
    tau := ((stored THRESHOLD_KEY).bind (·.threshold)).getD config.tau
    paired := by rw [List.length_map,List.length_map] }

-- What the start of the next run builds: seed, read, from_config.
def nextStage (config : Config F) (t : Weights F) : ScoringStage F :=
  .fromConfig config (readWeights (seedWeightsIfEmpty config (seedRows config).length t))

section Table
variable {t : Weights F} {w : Weight F} {layer key : Str} {config : Config F}

theorem declared_keys (config : Config F) : config.declared.map (·.1) = LAYERS := rfl

theorem seedRows_keys (config : Config F) :
    (seedRows config).map (·.layer) = LAYERS ++ [BIAS_KEY,THRESHOLD_KEY] := rfl

theorem keys_distinct : (LAYERS ++ [BIAS_KEY,THRESHOLD_KEY]).Nodup := by decide +kernel

theorem find_keyed {rows : List (Weight F)} (keyed : (rows.map (·.layer)).Nodup) (member : w ∈ rows) :
    rows.find? (·.layer = w.layer) = some w := by
  induction rows with
  | nil => cases member
  | cons first rest ih =>
    rw [List.map_cons,List.nodup_cons] at keyed
    rcases List.mem_cons.mp member with rfl | later
    · simp
    · have other : first.layer ≠ w.layer := fun same => keyed.1 (same ▸ List.mem_map_of_mem later)
      rw [List.find?_cons_of_neg (by simpa using other)]
      exact ih keyed.2 later

theorem find_perm {left right : List (Weight F)} (same : left.Perm right) (keyed : (left.map (·.layer)).Nodup) (layer : Str) :
    left.find? (·.layer = layer) = right.find? (·.layer = layer) := by
  cases found : left.find? (·.layer = layer) with
  | none =>
    refine Eq.symm (List.find?_eq_none.mpr fun w member => ?_)
    exact List.find?_eq_none.mp found w (same.mem_iff.mpr member)
  | some w =>
    have here : w.layer = layer := by simpa using List.find?_some found
    have member := same.mem_iff.mp (List.mem_of_find?_eq_some found)
    subst here
    exact (find_keyed ((same.map _).nodup_iff.mp keyed) member).symm

theorem readWeights_row (t : Weights F) (layer : Str) : (readWeights t).find? (·.layer = layer) = t.row layer := by
  have sorted := (List.perm_insertionSort (fun left right : Weight F => left.layer ≤ right.layer) t.rows).symm
  exact (find_perm sorted t.keyed layer).symm

theorem row_insert (t : Weights F) (w : Weight F) (layer : Str) :
    (t.insert w).row layer = (t.row layer).or (if w.layer = layer then some w else none) := by
  unfold Weights.insert
  split
  · rename_i taken
    split
    · rename_i here
      subst here
      obtain ⟨old,stored,same⟩ := List.mem_map.mp taken
      have found := find_keyed t.keyed stored
      rw [same] at found
      rw [Weights.row,found,Option.some_or]
    · rw [Option.or_none]
  · rw [Weights.row,List.find?_append,Weights.row]
    congr 1
    by_cases here : w.layer = layer <;> simp [here]

theorem row_inserts (rows : List (Weight F)) (t : Weights F) (layer : Str) :
    (rows.foldl Weights.insert t).row layer = (t.row layer).or (rows.find? (·.layer = layer)) := by
  induction rows generalizing t with
  | nil => simp
  | cons w rest ih =>
    rw [List.foldl_cons,ih,row_insert,Option.or_assoc]
    congr 1
    by_cases here : w.layer = layer <;> simp [here]

theorem weight_update (t : Weights F) (set : Weight F → Weight F) (keeps : ∀ w, (set w).layer = w.layer) :
    (t.update layer set keeps).row key = (t.row key).map fun w => if w.layer = layer then set w else w := by
  unfold Weights.update Weights.row
  rw [List.find?_map]
  congr 2
  funext w
  by_cases here : w.layer = layer <;> simp [here,keeps]

theorem unseeded_row (unseeded : ¬t.rows.any (·.layer ∈ LAYERS ++ [BIAS_KEY,THRESHOLD_KEY]) = true)
    (known : layer ∈ LAYERS ++ [BIAS_KEY,THRESHOLD_KEY]) : t.row layer = none := by
  refine List.find?_eq_none.mpr fun other member same => unseeded ?_
  rw [List.any_eq_true]
  refine ⟨other,member,decide_eq_true ?_⟩
  rw [of_decide_eq_true same]
  exact known
-- A complete seeding answers for a key without a row as the fallback of the loader does.
theorem row_seeded (t : Weights F) (seed : w ∈ seedRows config) :
    (seedWeightsIfEmpty config (seedRows config).length t).row w.layer =
      if t.rows.any (·.layer ∈ LAYERS ++ [BIAS_KEY,THRESHOLD_KEY]) then t.row w.layer else some w := by
  unfold seedWeightsIfEmpty
  split
  · rfl
  · rename_i unseeded
    have distinct := keys_distinct
    rw [← seedRows_keys config] at distinct
    have known : w.layer ∈ LAYERS ++ [BIAS_KEY,THRESHOLD_KEY] := by
      rw [← seedRows_keys config]
      exact List.mem_map_of_mem seed
    rw [List.take_length,row_inserts,unseeded_row unseeded known,Option.none_or,find_keyed distinct seed]

theorem next_weights (config : Config F) (t : Weights F) :
    (nextStage config t).weights = (config.declared.filter (·.2.enabled)).map fun (layer,entry) =>
      ((t.row layer).map (·.weight)).getD entry.weight := by
  refine List.map_congr_left fun (layer,entry) member => ?_
  have declared := List.mem_of_mem_filter member
  have seed : (⟨layer,entry.weight,none,none,none⟩ : Weight F) ∈ seedRows config :=
    List.mem_append_left _ (List.mem_map.mpr ⟨(layer,entry),declared,rfl⟩)
  have known : layer ∈ LAYERS ++ [BIAS_KEY,THRESHOLD_KEY] := by
    rw [← seedRows_keys config]
    exact List.mem_map_of_mem seed
  dsimp only
  rw [readWeights_row,row_seeded t seed]
  split
  · rfl
  · rename_i unseeded
    rw [unseeded_row unseeded known]
    rfl

theorem next_bias (config : Config F) (t : Weights F) :
    (nextStage config t).bias = ((t.row BIAS_KEY).map (·.weight)).getD config.bias := by
  have seed : (⟨BIAS_KEY,config.bias,none,none,none⟩ : Weight F) ∈ seedRows config := by simp [seedRows]
  unfold nextStage ScoringStage.fromConfig
  dsimp only
  rw [readWeights_row,row_seeded t seed]
  split
  · rfl
  · rename_i unseeded
    rw [unseeded_row unseeded (by simp)]
    rfl

theorem next_tau (config : Config F) (t : Weights F) :
    (nextStage config t).tau = ((t.row THRESHOLD_KEY).bind (·.threshold)).getD config.tau := by
  have seed : (⟨THRESHOLD_KEY,config.tau,some config.tau,none,none⟩ : Weight F) ∈ seedRows config := by simp [seedRows]
  unfold nextStage ScoringStage.fromConfig
  dsimp only
  rw [readWeights_row,row_seeded t seed]
  split
  · rfl
  · rename_i unseeded
    rw [unseeded_row unseeded (by simp)]
    rfl

end Table

end DeepFry.Spamhunter
