import Mathlib.Data.Finset.Card
import Mathlib.Order.Bounds.Basic
import Mathlib.Tactic

namespace DeepFry.Hops

-- Library layer: hop distances from a source in a directed graph, and the layers of a breadth-first walk over it.
variable {α : Type*} {edge : α → α → Prop} {source : α}

inductive Walk (edge : α → α → Prop) (source : α) : Nat → α → Prop
  | start : Walk edge source 0 source
  | hop {n : Nat} {u v : α} (prior : Walk edge source n u) (on : edge u v) : Walk edge source (n+1) v

def Dist (edge : α → α → Prop) (source : α) (d : Nat) (v : α) : Prop := IsLeast {n | Walk edge source n v} d

section Distance
variable {d e n : Nat} {u v : α}

theorem Dist.unique (one : Dist edge source d v) (other : Dist edge source e v) : d = e := IsLeast.unique one other

theorem Walk.dist (walk : Walk edge source n v) : ∃ d ≤ n, Dist edge source d v := by
  classical
  have reached : ∃ m, Walk edge source m v := ⟨n,walk⟩
  exact ⟨Nat.find reached,Nat.find_le walk,Nat.find_spec reached,fun m other => Nat.find_le other⟩

-- What has a distance is what a chain of edges reaches.
theorem reachable_iff : Relation.ReflTransGen edge source v ↔ ∃ d, Dist edge source d v := by
  constructor
  · intro chain
    have walked : ∃ n, Walk edge source n v := by
      induction chain with
      | refl => exact ⟨0,.start⟩
      | tail _ on ih =>
        obtain ⟨n,walk⟩ := ih
        exact ⟨n+1,walk.hop on⟩
    obtain ⟨n,walk⟩ := walked
    obtain ⟨d,_,dist⟩ := walk.dist
    exact ⟨d,dist⟩
  · intro found
    obtain ⟨d,dist⟩ := found
    have walk := dist.1
    clear dist
    induction walk with
    | start => exact .refl
    | hop _ on ih => exact .tail ih on

theorem dist_source : Dist edge source 0 source := ⟨.start,fun _ _ => Nat.zero_le _⟩

theorem dist_zero : Dist edge source 0 v ↔ v = source := by
  constructor
  · intro dist
    cases dist.1
    rfl
  · intro same
    rw [same]
    exact dist_source

-- An edge leads one hop further at most.
theorem Dist.hop (dist : Dist edge source d u) (on : edge u v) : ∃ e ≤ d + 1, Dist edge source e v := (dist.1.hop on).dist

theorem Dist.pred (dist : Dist edge source (d+1) v) : ∃ u, Dist edge source d u ∧ edge u v := by
  obtain ⟨walk,least⟩ := dist
  cases walk with
  | @hop _ u _ prior on =>
    refine ⟨u,⟨prior,?_⟩,on⟩
    intro m shorter
    have longer := least (shorter.hop on)
    omega

-- The next layer: what an edge from this layer reaches and no layer so far holds.
theorem dist_succ : Dist edge source (d+1) v ↔ (∃ u, Dist edge source d u ∧ edge u v) ∧ ∀ e ≤ d, ¬Dist edge source e v := by
  constructor
  · intro dist
    refine ⟨dist.pred,?_⟩
    intro e early other
    have same := dist.unique other
    omega
  · intro both
    obtain ⟨⟨u,dist,on⟩,fresh⟩ := both
    obtain ⟨e,near,target⟩ := dist.hop on
    by_cases late : e = d + 1
    · rw [← late]
      exact target
    · exact absurd target (fresh e (by omega))

theorem Dist.layers (dist : Dist edge source d v) : ∀ e ≤ d, ∃ u, Dist edge source e u := by
  induction d generalizing v with
  | zero =>
    intro e none
    exact ⟨v,by rw [Nat.le_zero.mp none]; exact dist⟩
  | succ d ih =>
    intro e early
    by_cases last : e = d + 1
    · exact ⟨v,by rw [last]; exact dist⟩
    · obtain ⟨u,before,_⟩ := dist.pred
      exact ih before e (by omega)

-- The nodes of a shortest walk are all different, so no distance exceeds the number of nodes that an edge reaches.
theorem Dist.le_card [DecidableEq α] {targets : Finset α} (known : ∀ u v, edge u v → v ∈ targets) (dist : Dist edge source d v) :
    d ≤ targets.card := by
  have passed : ∃ nodes ⊆ targets, nodes.card = d ∧ ∀ x ∈ nodes, ∃ e ≤ d, Dist edge source e x := by
    induction d generalizing v with
    | zero => exact ⟨∅,Finset.empty_subset _,rfl,by simp⟩
    | succ d ih =>
      obtain ⟨u,before,on⟩ := dist.pred
      obtain ⟨nodes,inside,size,near⟩ := ih before
      have fresh : v ∉ nodes := by
        intro member
        obtain ⟨e,early,other⟩ := near v member
        have same := dist.unique other
        omega
      refine ⟨insert v nodes,?_,?_,?_⟩
      · apply Finset.insert_subset (known u v on) inside
      · rw [Finset.card_insert_of_notMem fresh,size]
      · intro x member
        rw [Finset.mem_insert] at member
        cases member with
        | inl same => exact ⟨d+1,le_refl _,by rw [same]; exact dist⟩
        | inr old =>
          obtain ⟨e,early,other⟩ := near x old
          exact ⟨e,by omega,other⟩
  obtain ⟨nodes,inside,size,_⟩ := passed
  rw [← size]
  exact Finset.card_le_card inside

end Distance

-- A breadth-first walk after d rounds: the levels of the layers up to d, and the layer d as the frontier.
structure Layered (edge : α → α → Prop) (source : α) (levels : α → Option Nat) (frontier : List α) (d : Nat) : Prop where
  levelled : ∀ v e, levels v = some e ↔ Dist edge source e v ∧ e ≤ d
  distinct : frontier.Nodup
  layer : ∀ v, v ∈ frontier ↔ Dist edge source d v

section Layers
variable {levels later : α → Option Nat} {frontier next : List α} {d : Nat} {v : α}

theorem Layered.start [DecidableEq α] {levels : α → Option Nat} (only : ∀ v, levels v = if v = source then some 0 else none) :
    Layered edge source levels [source] 0 := by
  refine ⟨?_,List.nodup_singleton source,?_⟩
  · intro v e
    rw [only]
    split
    · rename_i same
      subst same
      constructor
      · intro zero
        cases zero
        exact ⟨dist_source,le_refl _⟩
      · intro both
        rw [dist_source.unique both.1]
    · rename_i other
      constructor
      · intro none
        cases none
      · intro both
        have zero : e = 0 := by omega
        rw [zero] at both
        exact absurd (dist_zero.mp both.1) other
  · intro v
    rw [List.mem_singleton,dist_zero]

theorem Layered.fresh (layered : Layered edge source levels frontier d) : levels v = none ↔ ∀ e ≤ d, ¬Dist edge source e v := by
  rw [Option.eq_none_iff_forall_ne_some]
  constructor
  · intro unseen e near dist
    exact unseen e ((layered.levelled v e).mpr ⟨dist,near⟩)
  · intro far e seen
    obtain ⟨dist,near⟩ := (layered.levelled v e).mp seen
    exact far e near dist

-- A round that levels the unseen targets of the frontier's edges moves to the next layer.
theorem Layered.round (layered : Layered edge source levels frontier d) (distinct : next.Nodup)
    (found : ∀ v, v ∈ next ↔ levels v = none ∧ ∃ u ∈ frontier, edge u v) (put : ∀ v ∈ next, later v = some (d+1))
    (kept : ∀ v ∉ next, later v = levels v) : Layered edge source later next (d+1) := by
  have layer (v : α) : v ∈ next ↔ Dist edge source (d+1) v := by
    rw [found,dist_succ,layered.fresh,and_comm]
    simp only [layered.layer]
  refine ⟨?_,distinct,layer⟩
  intro v e
  by_cases member : v ∈ next
  · have dist := (layer v).mp member
    rw [put v member]
    constructor
    · intro same
      cases same
      exact ⟨dist,le_refl _⟩
    · intro both
      rw [dist.unique both.1]
  · rw [kept v member,layered.levelled]
    constructor
    · intro both
      exact ⟨both.1,by omega⟩
    · intro both
      refine ⟨both.1,?_⟩
      by_contra last
      have same : e = d + 1 := by omega
      rw [same] at both
      exact member ((layer v).mpr both.1)

-- An empty layer is beyond every node that can be reached.
theorem Layered.ended (layered : Layered edge source levels [] d) {e : Nat} (dist : Dist edge source e v) : e < d := by
  by_contra far
  obtain ⟨u,here⟩ := dist.layers d (by omega)
  cases (layered.layer u).mpr here

end Layers
end DeepFry.Hops
