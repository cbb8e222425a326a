import DeepFry.Lib.Components
import DeepFry.Lib.Rounding
import DeepFry.Lib.UnionFind

namespace DeepFry.Spamhunter.NearDuplicate
open UnionFind

-- The fingerprints are 64-bit words, by the index of their event. A distance is at most 64, so the width of the threshold plays no part.
variable {n : Nat}

-- count_ones of the xor.
def hamming64 (a b : UInt64) : Nat := (List.range 64).countP fun i => (a ^^^ b).toBitVec.getLsbD i

section Fingerprints
variable (fuel : Nat) (simhashes : Fin n → UInt64) (threshold : Nat)

def close (i j : Fin n) : Bool := decide (hamming64 (simhashes i) (simhashes j) ≤ threshold)

-- The indices of an inner loop.
def after (i : Fin n) : List (Fin n) := (List.finRange n).filter (i < ·)

-- The body of the inner loop.
def compare (i : Fin n) (parent : Fin n → Fin n) (j : Fin n) : Option (Fin n → Fin n) :=
  if close simhashes threshold i j then join fuel parent i j else some parent

def compareAll (parent : Fin n → Fin n) (i : Fin n) : Option (Fin n → Fin n) :=
  (after i).foldlM (compare fuel simhashes threshold i) parent

def unite : Option (Fin n → Fin n) := (List.finRange n).foldlM (compareAll fuel simhashes threshold) id

-- One event counted under its root; a root without an entry has none. The search compresses paths here too.
def count (state : (Fin n → Nat) × (Fin n → Fin n)) (i : Fin n) : Option ((Fin n → Nat) × (Fin n → Fin n)) := do
  let (r,parent) ← seek fuel state.2 i
  return (Function.update state.1 r (state.1 r + 1),parent)

def countClusters : Option Nat := do
  let parent ← unite fuel simhashes threshold
  let (sizes,_) ← (List.finRange n).foldlM (count fuel) (fun _ => 0,parent)
  return (List.finRange n).countP fun r => 2 ≤ sizes r

-- Both events of a close pair are flagged.
def flag (i : Fin n) (inCluster : Fin n → Bool) (j : Fin n) : Fin n → Bool :=
  if close simhashes threshold i j then Function.update (Function.update inCluster i true) j true else inCluster

def inCluster : Fin n → Bool :=
  (List.finRange n).foldl (fun flags i => (after i).foldl (flag simhashes threshold i) flags) fun _ => false

def clustered : Nat := (List.finRange n).countP (inCluster simhashes threshold)

end Fingerprints

-- The shingle size is a part of the parameter that fingerprints a content.
structure NearDuplicateLayer where
  hammingThreshold : Nat
  minEvents : Nat

inductive Evidence where
  | belowMinEvents (events : Nat)
  | measured (repeatedRatio : Option ℚ) (clusters events : Nat)
deriving DecidableEq

structure LayerOutput where
  value : Option ℚ
  evidence : Evidence
deriving DecidableEq

section Layer
variable {E : Type} (layer : NearDuplicateLayer) (simhash : E → UInt64) (fuel : Nat) (events : Fin n → E)

-- A quotient of doubles; none is not a number, which is what no event at all gives.
def ratio (part whole : Nat) : Option ℚ := if whole = 0 then none else some (Rounding.quotient part whole)

def repeatedRatio : Option (Option ℚ × Nat) :=
  if n < layer.minEvents then some (some 0,0)
  else do
    let clusters ← countClusters fuel (simhash ∘ events) layer.hammingThreshold
    return (ratio (clustered (simhash ∘ events) layer.hammingThreshold) n,clusters)

def clamp (value : Option ℚ) : Option ℚ := value.map fun v => min (max v 0) 1

def score : Option LayerOutput :=
  if n < layer.minEvents then some ⟨some 0,.belowMinEvents n⟩
  else do
    let (value,clusters) ← repeatedRatio layer simhash fuel events
    return ⟨clamp value,.measured (clamp value) clusters n⟩

end Layer

-- The graph of the events: an edge for each two of them within the threshold.
def nearGraph (simhashes : Fin n → UInt64) (threshold : Nat) : SimpleGraph (Fin n) where
  Adj i j := i ≠ j ∧ hamming64 (simhashes i) (simhashes j) ≤ threshold
  symm := ⟨fun i j edge => by
    refine ⟨edge.1.symm,?_⟩
    rw [hamming64,UInt64.xor_comm]
    exact edge.2⟩
  loopless := ⟨fun _ edge => edge.1 rfl⟩

variable {fuel : Nat} {simhashes : Fin n → UInt64} {threshold : Nat}

@[simp] theorem mem_after {i j : Fin n} : j ∈ after i ↔ i < j := by simp [after]

@[simp] theorem close_iff {i j : Fin n} : close simhashes threshold i j = true ↔ hamming64 (simhashes i) (simhashes j) ≤ threshold := by
  simp [close]

-- The pairs that the loops visit and join.
def Joined (simhashes : Fin n → UInt64) (threshold : Nat) (i j : Fin n) : Prop := i < j ∧ close simhashes threshold i j = true

theorem adj_joined {i j : Fin n} :
    (nearGraph simhashes threshold).Adj i j ↔ Joined simhashes threshold i j ∨ Joined simhashes threshold j i := by
  constructor
  · intro edge
    obtain less | equal | more := lt_trichotomy i j
    · exact .inl ⟨less,close_iff.mpr edge.2⟩
    · exact absurd equal edge.1
    · exact .inr ⟨more,close_iff.mpr edge.symm.2⟩
  · intro either
    obtain ⟨less,near⟩ | ⟨less,near⟩ := either
    · exact ⟨less.ne,close_iff.mp near⟩
    · have edge : (nearGraph simhashes threshold).Adj j i := ⟨less.ne,close_iff.mp near⟩
      exact edge.symm

theorem compare_spans (enough : n ≤ fuel) (i j : Fin n) (f : Forest n) (R : Fin n → Fin n → Prop) (spans : Spans f R) :
    ∃ g : Forest n, compare fuel simhashes threshold i f.parent j = some g.parent ∧
      Spans g fun x y => R x y ∨ close simhashes threshold i j = true ∧ x = i ∧ y = j := by
  rw [compare]
  by_cases near : close simhashes threshold i j = true
  · obtain ⟨g,joined,moved⟩ := join_forest enough f i j
    refine ⟨g,by rw [if_pos near,joined],?_⟩
    simpa only [near,true_and] using spans.merged moved
  · refine ⟨f,by rw [if_neg near],?_⟩
    simpa only [near,Bool.false_eq_true,false_and,or_false] using spans

theorem compareAll_spans (enough : n ≤ fuel) (i : Fin n) (f : Forest n) (R : Fin n → Fin n → Prop) (spans : Spans f R) :
    ∃ g : Forest n, compareAll fuel simhashes threshold f.parent i = some g.parent ∧
      Spans g fun x y => R x y ∨ x = i ∧ Joined simhashes threshold i y := by
  obtain ⟨g,ended,added⟩ := Spans.foldlM (after i) (fun j x y => close simhashes threshold i j = true ∧ x = i ∧ y = j)
    (fun j _ f R spans => compare_spans enough i j f R spans) spans
  refine ⟨g,ended,added.congr ?_ ?_⟩
  · intro x y either
    obtain held | ⟨j,listed,near,rfl,rfl⟩ := either
    · exact .rel x y (.inl held)
    · exact .rel x y (.inr ⟨rfl,mem_after.mp listed,near⟩)
  · intro x y either
    obtain held | ⟨rfl,later,near⟩ := either
    · exact .rel x y (.inl held)
    · exact .rel x y (.inr ⟨y,mem_after.mpr later,near,rfl,rfl⟩)

-- The nested loops end in a forest of the pairs within the threshold.
theorem unite_spans (simhashes : Fin n → UInt64) (threshold : Nat) (enough : n ≤ fuel) :
    ∃ g : Forest n, unite fuel simhashes threshold = some g.parent ∧ Spans g (Joined simhashes threshold) := by
  obtain ⟨g,ended,added⟩ := Spans.foldlM (List.finRange n) (fun i x y => x = i ∧ Joined simhashes threshold i y)
    (fun i _ f R spans => compareAll_spans enough i f R spans) spans_apart
  refine ⟨g,ended,added.congr ?_ ?_⟩
  · intro x y either
    obtain none | ⟨i,_,rfl,joined⟩ := either
    · exact none.elim
    · exact .rel x y joined
  · intro x y joined
    exact .rel x y (.inr ⟨x,List.mem_finRange x,rfl,joined⟩)

-- Chains of joined pairs are the walks of the graph.
theorem joined_reachable (i j : Fin n) :
    Relation.EqvGen (Joined simhashes threshold) i j ↔ (nearGraph simhashes threshold).Reachable i j := by
  constructor
  · intro chain
    induction chain with
    | rel i j pair => exact (adj_joined.mpr (.inl pair)).reachable
    | refl i => exact .refl i
    | symm _ _ _ ih => exact ih.symm
    | trans _ _ _ _ _ left right => exact left.trans right
  · intro reach
    obtain ⟨walk⟩ := reach
    induction walk with
    | nil => exact .refl _
    | cons edge _ ih =>
      obtain pair | pair := adj_joined.mp edge
      · exact (Relation.EqvGen.rel _ _ pair).trans _ _ _ ih
      · exact ((Relation.EqvGen.rel _ _ pair).symm _ _).trans _ _ _ ih

theorem count_sizes (enough : n ≤ fuel) (items : List (Fin n)) (sizes : Fin n → Nat) (f : Forest n) :
    ∃ g : Forest n, items.foldlM (count fuel) (sizes,f.parent) =
      some (fun r => sizes r + items.countP fun i => f.root i = r,g.parent) := by
  induction items generalizing sizes f with
  | nil => exact ⟨f,by simp⟩
  | cons i items ih =>
    obtain ⟨g,found,kept⟩ := seek_forest enough f i
    obtain ⟨h,ended⟩ := ih (Function.update sizes (f.root i) (sizes (f.root i) + 1)) g
    refine ⟨h,?_⟩
    have first : count fuel (sizes,f.parent) i = some (Function.update sizes (f.root i) (sizes (f.root i) + 1),g.parent) := by
      simp [count,found]
    rw [List.foldlM_cons,first]
    simp only [Option.bind_eq_bind,Option.bind_some,ended,kept]
    congr 2
    funext r
    rw [List.countP_cons]
    by_cases same : f.root i = r
    · subst same
      simp
      omega
    · rw [Function.update_of_ne (fun equal => same equal.symm)]
      simp [same]

theorem countP_finRange (p : Fin n → Bool) : (List.finRange n).countP p = {i | p i = true}.ncard := by
  rw [List.countP_eq_length_filter,← List.toFinset_card_of_nodup ((List.nodup_finRange n).filter p),← Set.ncard_coe_finset]
  congr 1
  ext i
  simp

theorem countClusters_crowded (simhashes : Fin n → UInt64) (threshold : Nat) (enough : n ≤ fuel) :
    countClusters fuel simhashes threshold = some (Components.crowded (nearGraph simhashes threshold)).ncard := by
  obtain ⟨f,ended,spans⟩ := unite_spans simhashes threshold enough
  obtain ⟨g,counted⟩ := count_sizes enough (List.finRange n) (fun _ => 0) f
  have named : ∀ i j, f.root i = f.root j ↔ (nearGraph simhashes threshold).Reachable i j := fun i j =>
    (spans i j).trans (joined_reachable i j)
  rw [Components.crowded_names f.root named]
  simp only [countClusters,ended,Option.bind_eq_bind,Option.bind_some,counted,Nat.zero_add,countP_finRange]
  simp

theorem flag_iff {i j x : Fin n} {flags : Fin n → Bool} :
    flag simhashes threshold i flags j x = true ↔ flags x = true ∨ close simhashes threshold i j = true ∧ (x = i ∨ x = j) := by
  rw [flag]
  by_cases near : close simhashes threshold i j = true
  · rw [if_pos near]
    by_cases second : x = j
    · subst second
      simp [near]
    · rw [Function.update_of_ne second]
      by_cases first : x = i
      · subst first
        simp [near]
      · rw [Function.update_of_ne first]
        simp [first,second]
  · rw [if_neg near]
    simp [near]

-- An inner loop flags the pairs of its event, on top of what is flagged.
theorem flags_iff {i x : Fin n} (items : List (Fin n)) {flags : Fin n → Bool} :
    items.foldl (flag simhashes threshold i) flags x = true ↔
      flags x = true ∨ ∃ j ∈ items, close simhashes threshold i j = true ∧ (x = i ∨ x = j) := by
  induction items generalizing flags with
  | nil => simp
  | cons j items ih => rw [List.foldl_cons,ih,flag_iff,or_assoc,List.exists_mem_cons_iff]

theorem flagged_iff {x : Fin n} (items : List (Fin n)) {flags : Fin n → Bool} :
    items.foldl (fun flags i => (after i).foldl (flag simhashes threshold i) flags) flags x = true ↔
      flags x = true ∨ ∃ i ∈ items, ∃ j, Joined simhashes threshold i j ∧ (x = i ∨ x = j) := by
  induction items generalizing flags with
  | nil => simp
  | cons i items ih =>
    rw [List.foldl_cons,ih,flags_iff,or_assoc,List.exists_mem_cons_iff]
    simp only [mem_after,Joined,and_assoc]

-- The flags mark the events with a neighbour.
theorem inCluster_iff {i : Fin n} : inCluster simhashes threshold i = true ↔ i ∈ Components.touched (nearGraph simhashes threshold) := by
  rw [inCluster,flagged_iff]
  constructor
  · intro either
    obtain none | ⟨a,_,b,pair,rfl | rfl⟩ := either
    · exact absurd none Bool.false_ne_true
    · exact ⟨b,adj_joined.mpr (.inl pair)⟩
    · exact ⟨a,adj_joined.mpr (.inr pair)⟩
  · intro some
    obtain ⟨j,edge⟩ := some
    obtain pair | pair := adj_joined.mp edge
    · exact .inr ⟨i,List.mem_finRange i,j,pair,.inl rfl⟩
    · exact .inr ⟨j,List.mem_finRange j,i,pair,.inr rfl⟩

theorem clustered_touched : clustered simhashes threshold = (Components.touched (nearGraph simhashes threshold)).ncard := by
  rw [clustered,countP_finRange]
  simp only [inCluster_iff]
  rfl

-- The events in another order have the same graph.
def reindex (simhashes : Fin n → UInt64) (threshold : Nat) (σ : Equiv.Perm (Fin n)) :
    nearGraph (simhashes ∘ σ) threshold ≃g nearGraph simhashes threshold where
  toEquiv := σ
  map_rel_iff' := by simp [nearGraph]

theorem clustered_few (simhashes : Fin n → UInt64) (threshold : Nat) : clustered simhashes threshold ≤ n := by
  have most := List.countP_le_length (p := inCluster simhashes threshold) (l := List.finRange n)
  rwa [List.length_finRange] at most

-- A layer that is applied with events answers a share of them, which the clamp leaves as it is.
theorem score_measured {E : Type} (layer : NearDuplicateLayer) (simhash : E → UInt64) (events : Fin n → E) (enough : n ≤ fuel)
    (applied : layer.minEvents ≤ n) (some_event : 0 < n) :
    score layer simhash fuel events =
      some ⟨some (Rounding.quotient (clustered (simhash ∘ events) layer.hammingThreshold) n),
        .measured (some (Rounding.quotient (clustered (simhash ∘ events) layer.hammingThreshold) n))
          (Components.crowded (nearGraph (simhash ∘ events) layer.hammingThreshold)).ncard n⟩ := by
  have low := Rounding.quotient_nonneg (clustered (simhash ∘ events) layer.hammingThreshold) n
  have high := Rounding.quotient_le_one some_event (clustered_few (simhash ∘ events) layer.hammingThreshold)
  have counted := countClusters_crowded (simhash ∘ events) layer.hammingThreshold enough
  simp only [score,repeatedRatio,if_neg (not_lt.mpr applied),counted,ratio,if_neg some_event.ne',clamp,Option.bind_eq_bind,Option.bind_some,
    Option.pure_def,Option.map_some,max_eq_left low,min_eq_left high]

-- The members of a cluster are within the threshold of a neighbour, not of each other.
theorem clusters_components {n : Nat} (simhashes : Fin n → UInt64) (threshold : Nat) :
    (∀ extra, countClusters (n + extra) simhashes threshold =
      some {c : (nearGraph simhashes threshold).ConnectedComponent | 2 ≤ c.supp.ncard}.ncard) ∧
    (∀ i, inCluster simhashes threshold i = true ↔ 2 ≤ ((nearGraph simhashes threshold).connectedComponentMk i).supp.ncard) ∧
    (∃ clusters, countClusters n simhashes threshold = some clusters ∧ 2 * clusters ≤ clustered simhashes threshold) ∧
    ∀ σ : Equiv.Perm (Fin n),
      countClusters n (simhashes ∘ σ) threshold = countClusters n simhashes threshold ∧
      clustered (simhashes ∘ σ) threshold = clustered simhashes threshold := by
  refine ⟨fun extra => countClusters_crowded simhashes threshold (Nat.le_add_right n extra),?_,⟨_,countClusters_crowded simhashes threshold le_rfl,?_⟩,?_⟩
  · intro i
    rw [inCluster_iff,← Components.crowded_mk]
    exact Components.mem_crowded
  · rw [clustered_touched]
    exact Components.crowded_double
  · intro σ
    constructor
    · rw [countClusters_crowded _ _ le_rfl,countClusters_crowded _ _ le_rfl,Components.crowded_iso (reindex simhashes threshold σ)]
    · rw [clustered_touched,clustered_touched,Components.touched_iso (reindex simhashes threshold σ)]

-- A chain of three within one bit: its ends are two apart and in one cluster.
example : countClusters 4 ![0,1,3,0xFF00] 1 = some 1 ∧ clustered ![0,1,3,0xFF00] 1 = 3 ∧ hamming64 0 3 = 2 := by decide

end DeepFry.Spamhunter.NearDuplicate
