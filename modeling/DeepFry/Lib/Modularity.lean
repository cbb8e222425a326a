import Mathlib.Algebra.BigOperators.Field
import Mathlib.Algebra.BigOperators.Pi
import Mathlib.Algebra.Module.LinearMap.Defs
import Mathlib.Data.Fintype.BigOperators
import Mathlib.Data.Rat.Defs
import Mathlib.Tactic

namespace DeepFry.Modularity

-- Library layer: undirected weighted graphs as symmetric matrices over the rationals, a loop counted twice on the
-- diagonal, and the modularity of a labelling of the nodes.
abbrev Weights (V : Type) := V → V → ℚ

section Graph

variable {V W L : Type} [Fintype V] [DecidableEq V] [Fintype W] [DecidableEq W] [DecidableEq L]

def degree (A : Weights V) (v : V) : ℚ := ∑ u, A v u

def volume (A : Weights V) : ℚ := ∑ v, degree A v

-- The share of the weight between two nodes beyond what their degrees make expected.
def excess (A : Weights V) : Weights V := fun u v => A u v / volume A - degree A u * degree A v / volume A ^ 2

def together (B : Weights V) (f : V → L) : ℚ := ∑ u, ∑ v, if f u = f v then B u v else 0

def modularity (A : Weights V) (f : V → L) : ℚ := together (excess A) f

omit [DecidableEq V] in
-- Only which nodes share a label matters.
theorem modularity_congr {M : Type} [DecidableEq M] {f : V → L} {h : V → M} (same : ∀ u v, f u = f v ↔ h u = h v)
    (A : Weights V) : modularity A f = modularity A h := by
  unfold modularity together
  simp only [same]

-- One node for each label, with the weights between the labels' nodes.
def merge (f : V → W) : Weights V →ₗ[ℚ] Weights W where
  toFun A := fun a b => ∑ u, ∑ v, if f u = a ∧ f v = b then A u v else 0
  map_add' A B := by
    funext a b
    simp only [Pi.add_apply,← Finset.sum_add_distrib]
    apply Finset.sum_congr rfl
    intro u _
    apply Finset.sum_congr rfl
    intro v _
    split <;> simp
  map_smul' w A := by
    funext a b
    simp only [Pi.smul_apply,smul_eq_mul,RingHom.id_apply,Finset.mul_sum]
    apply Finset.sum_congr rfl
    intro u _
    apply Finset.sum_congr rfl
    intro v _
    split <;> simp

omit [DecidableEq V] [Fintype W] in
theorem merge_apply (f : V → W) (A : Weights V) (a b : W) :
    merge f A a b = ∑ u, ∑ v, if f u = a ∧ f v = b then A u v else 0 := rfl

omit [DecidableEq V] in
theorem degree_merge (f : V → W) (A : Weights V) (a : W) :
    degree (merge f A) a = ∑ u, if f u = a then degree A u else 0 := by
  unfold degree
  simp only [merge_apply]
  rw [Finset.sum_comm]
  apply Finset.sum_congr rfl
  intro u _
  rw [Finset.sum_comm]
  by_cases labelled : f u = a <;> simp [labelled]

omit [DecidableEq V] in
theorem volume_merge (f : V → W) (A : Weights V) : volume (merge f A) = volume A := by
  unfold volume
  simp only [degree_merge]
  rw [Finset.sum_comm]
  simp

omit [DecidableEq V] in
theorem excess_merge (f : V → W) (A : Weights V) : excess (merge f A) = merge f (excess A) := by
  funext a b
  have share : merge f (excess A) a b =
      ∑ u, ∑ v, ((if f u = a ∧ f v = b then A u v else 0) / volume A -
        (if f u = a then degree A u else 0) * (if f v = b then degree A v else 0) / volume A ^ 2) := by
    rw [merge_apply]
    apply Finset.sum_congr rfl
    intro u _
    apply Finset.sum_congr rfl
    intro v _
    unfold excess
    by_cases first : f u = a <;> by_cases second : f v = b <;> simp [first,second]
  rw [share]
  unfold excess
  simp only [volume_merge,degree_merge,merge_apply,Finset.sum_sub_distrib,← Finset.sum_div,Finset.sum_mul_sum]

omit [DecidableEq V] in
-- A sum over the merged pairs is the sum over the pairs they were merged from.
theorem sum_merge (B : Weights V) (f : V → W) (P : W → W → Prop) [∀ a b, Decidable (P a b)] :
    (∑ a, ∑ b, if P a b then merge f B a b else 0) = ∑ u, ∑ v, if P (f u) (f v) then B u v else 0 := by
  have inner : ∀ a b : W, (if P a b then merge f B a b else 0) =
      ∑ u, ∑ v, if f u = a then (if f v = b then (if P a b then B u v else 0) else 0) else 0 := by
    intro a b
    rw [merge_apply]
    by_cases kept : P a b <;> simp [kept,ite_and]
  simp only [inner]
  calc ∑ a, ∑ b, ∑ u, ∑ v, (if f u = a then (if f v = b then (if P a b then B u v else 0) else 0) else 0)
      = ∑ u, ∑ v, ∑ a, ∑ b, (if f u = a then (if f v = b then (if P a b then B u v else 0) else 0) else 0) := by
        rw [Finset.sum_congr rfl fun a _ => Finset.sum_comm,Finset.sum_comm]
        apply Finset.sum_congr rfl
        intro u _
        rw [Finset.sum_congr rfl fun a _ => Finset.sum_comm,Finset.sum_comm]
    _ = ∑ u, ∑ v, if P (f u) (f v) then B u v else 0 := by simp

omit [DecidableEq V] in
theorem together_merge (B : Weights V) (f : V → W) (h : W → L) : together (merge f B) h = together B (h ∘ f) :=
  sum_merge B f fun a b => h a = h b

omit [DecidableEq V] in
theorem merge_merge {X : Type} [DecidableEq X] (A : Weights V) (f : V → W) (h : W → X) :
    merge h (merge f A) = merge (h ∘ f) A := by
  funext x y
  exact sum_merge A f fun a b => h a = x ∧ h b = y

omit [DecidableEq V] [Fintype W] in
theorem merge_symm {A : Weights V} (sym : ∀ u v, A u v = A v u) (f : V → W) (a b : W) : merge f A a b = merge f A b a := by
  rw [merge_apply,merge_apply,Finset.sum_comm]
  simp only [and_comm,sym]

theorem merge_id (A : Weights V) : merge id A = A := by
  funext a b
  rw [merge_apply]
  simp [ite_and]

omit [DecidableEq V] in
-- Merging by a labelling keeps the modularity of every labelling that the merged graph can tell.
theorem modularity_merge (A : Weights V) (f : V → W) (h : W → L) :
    modularity (merge f A) h = modularity A (h ∘ f) := by
  unfold modularity
  rw [excess_merge,together_merge]

-- One node moves: the weight between it and the other nodes of a label.
def near (B : Weights V) (f : V → L) (v : V) (c : L) : ℚ := ∑ u, if u ≠ v ∧ f u = c then B v u else 0

theorem near_update (B : Weights V) (f : V → L) (v : V) (c d : L) : near B (Function.update f v d) v c = near B f v c := by
  apply Finset.sum_congr rfl
  intro u _
  by_cases other : u = v <;> simp [other]

-- What does not depend on the label of v.
def rest (B : Weights V) (f : V → L) (v : V) : ℚ :=
  ∑ u ∈ {v}ᶜ, ∑ w ∈ ({v}ᶜ : Finset V), if f u = f w then B u w else 0

theorem rest_update (B : Weights V) (f : V → L) (v : V) (d : L) : rest B (Function.update f v d) v = rest B f v := by
  apply Finset.sum_congr rfl
  intro u first
  apply Finset.sum_congr rfl
  intro w second
  rw [Finset.mem_compl,Finset.mem_singleton] at first second
  rw [Function.update_of_ne first,Function.update_of_ne second]

theorem near_compl (B : Weights V) (f : V → L) (v : V) (c : L) :
    near B f v c = ∑ u ∈ ({v}ᶜ : Finset V), if f u = c then B v u else 0 := by
  unfold near
  rw [Fintype.sum_eq_add_sum_compl v]
  simp only [ne_eq,not_true_eq_false,false_and,if_false,zero_add]
  apply Finset.sum_congr rfl
  intro u other
  rw [Finset.mem_compl,Finset.mem_singleton] at other
  simp [other]

theorem together_split {B : Weights V} (sym : ∀ u v, B u v = B v u) (f : V → L) (v : V) :
    together B f = B v v + 2 * near B f v (f v) + rest B f v := by
  have row : ∑ w, (if f v = f w then B v w else 0) = B v v + near B f v (f v) := by
    rw [Fintype.sum_eq_add_sum_compl v,if_pos rfl,near_compl]
    congr 1
    apply Finset.sum_congr rfl
    intro u _
    simp only [eq_comm]
  have others : ∑ u ∈ ({v}ᶜ : Finset V), ∑ w, (if f u = f w then B u w else 0) = near B f v (f v) + rest B f v := by
    rw [near_compl,rest,← Finset.sum_add_distrib]
    apply Finset.sum_congr rfl
    intro u _
    rw [Fintype.sum_eq_add_sum_compl v,sym u v]
  unfold together
  rw [Fintype.sum_eq_add_sum_compl v,row,others]
  ring

theorem together_update {B : Weights V} (sym : ∀ u v, B u v = B v u) (f : V → L) (v : V) (c : L) :
    together B (Function.update f v c) = together B f + 2 * (near B f v c - near B f v (f v)) := by
  rw [together_split sym,together_split sym f v,Function.update_self,near_update,rest_update]
  ring

omit [DecidableEq V] in
theorem excess_symm {A : Weights V} (sym : ∀ u v, A u v = A v u) (u v : V) : excess A u v = excess A v u := by
  unfold excess
  rw [sym u v,mul_comm]

-- The weighted degrees of the other nodes of a label.
def outside (A : Weights V) (f : V → L) (v : V) (c : L) : ℚ := ∑ u, if u ≠ v ∧ f u = c then degree A u else 0

theorem outside_update (A : Weights V) (f : V → L) (v : V) (c d : L) :
    outside A (Function.update f v d) v c = outside A f v c := by
  apply Finset.sum_congr rfl
  intro u _
  by_cases other : u = v <;> simp [other]

theorem outside_add (A : Weights V) (f : V → L) (v : V) (c : L) :
    (∑ u, if f u = c then degree A u else 0) = outside A f v c + if f v = c then degree A v else 0 := by
  have alone : (if f v = c then degree A v else 0) = ∑ u, if u = v then (if f v = c then degree A v else 0) else 0 := by
    simp
  unfold outside
  rw [alone,← Finset.sum_add_distrib]
  apply Finset.sum_congr rfl
  intro u _
  by_cases here : u = v
  · subst here
    simp
  · simp [here]

theorem near_excess (A : Weights V) (f : V → L) (v : V) (c : L) :
    near (excess A) f v c = near A f v c / volume A - degree A v * outside A f v c / volume A ^ 2 := by
  unfold near outside
  rw [Finset.mul_sum,Finset.sum_div,Finset.sum_div,← Finset.sum_sub_distrib]
  apply Finset.sum_congr rfl
  intro u _
  unfold excess
  split <;> simp

-- The gain of moving one node, read from the weights to two labels and from their degrees.
theorem modularity_update {A : Weights V} (sym : ∀ u v, A u v = A v u) (f : V → L) (v : V) (c : L) :
    modularity A (Function.update f v c) = modularity A f +
      2 * ((near A f v c / volume A - degree A v * outside A f v c / volume A ^ 2) -
        (near A f v (f v) / volume A - degree A v * outside A f v (f v) / volume A ^ 2)) := by
  unfold modularity
  rw [together_update (excess_symm sym),near_excess,near_excess]

-- One undirected edge of weight one; a loop counts twice.
def bond (a b : V) : Weights V := fun u v => (if u = a ∧ v = b then 1 else 0) + if u = b ∧ v = a then 1 else 0

omit [Fintype V] in
theorem bond_symm (a b u v : V) : bond a b u v = bond a b v u := by
  unfold bond
  rw [add_comm]
  simp only [and_comm]

theorem degree_bond (a b v : V) : degree (bond a b) v = (if v = a then 1 else 0) + if v = b then 1 else 0 := by
  unfold degree bond
  rw [Finset.sum_add_distrib]
  simp [ite_and]

omit [Fintype W] in
theorem merge_bond (f : V → W) (a b : V) : merge f (bond a b) = bond (f a) (f b) := by
  funext x y
  rw [merge_apply]
  unfold bond
  have one : ∀ s t : V, ∑ u, ∑ v, (if f u = x ∧ f v = y then (if u = s ∧ v = t then (1 : ℚ) else 0) else 0) =
      if x = f s ∧ y = f t then 1 else 0 := by
    intro s t
    have apart : ∀ u v : V, (if f u = x ∧ f v = y then (if u = s ∧ v = t then (1 : ℚ) else 0) else 0) =
        if u = s then (if v = t then (if x = f s ∧ y = f t then 1 else 0) else 0) else 0 := by
      intro u v
      by_cases first : u = s
      · by_cases second : v = t
        · simp [first,second,eq_comm]
        · simp [second]
      · simp [first]
    simp only [apart]
    simp
  have spread : ∀ u v : V, (if f u = x ∧ f v = y then ((if u = a ∧ v = b then (1 : ℚ) else 0) + if u = b ∧ v = a then 1 else 0)
      else 0) = (if f u = x ∧ f v = y then (if u = a ∧ v = b then 1 else 0) else 0) +
        if f u = x ∧ f v = y then (if u = b ∧ v = a then 1 else 0) else 0 := by
    intro u v
    split <;> simp
  simp only [spread,Finset.sum_add_distrib,one]

-- A symmetric graph is the sum of its loops and of its edges, each taken once.
theorem decompose [LinearOrder V] {A : Weights V} (sym : ∀ u v, A u v = A v u) :
    A = ∑ a, ((A a a / 2) • bond a a + ∑ b, if a < b then A a b • bond a b else 0) := by
  funext u v
  have loops : ∑ a, ((A a a / 2) • bond a a) u v = if u = v then A u v else 0 := by
    have one : ∀ a, ((A a a / 2) • bond a a) u v = if u = a then (if u = v then A u v else 0) else 0 := by
      intro a
      simp only [Pi.smul_apply,smul_eq_mul,bond]
      by_cases first : u = a
      · subst first
        by_cases second : v = u
        · simp only [second,and_self,if_true]
          ring
        · simp [second,Ne.symm second]
      · simp [first]
    simp only [one]
    simp
  have edges : ∑ a, ∑ b, (if a < b then A a b • bond a b else 0) u v =
      (if u < v then A u v else 0) + if v < u then A u v else 0 := by
    have one : ∀ a b, (if a < b then A a b • bond a b else 0) u v =
        (if u = a then (if v = b then (if a < b then A a b else 0) else 0) else 0) +
          if v = a then (if u = b then (if a < b then A a b else 0) else 0) else 0 := by
      intro a b
      by_cases less : a < b
      · simp only [less,if_true,Pi.smul_apply,smul_eq_mul,bond,mul_add,mul_ite,mul_one,mul_zero,ite_and]
        congr 1
        by_cases first : u = b <;> simp [first]
      · simp [less]
    simp only [one,Finset.sum_add_distrib]
    simp [sym v u]
  rw [Finset.sum_add_distrib]
  simp only [Pi.add_apply,Finset.sum_apply]
  rw [loops,edges]
  obtain less | same | more := lt_trichotomy u v
  · simp [less,less.ne,less.not_gt]
  · simp [same]
  · simp [more,more.ne',more.not_gt]

end Graph

end DeepFry.Modularity
