import DeepFry.Lib.Modularity
import DeepFry.Lib.Tally
import Mathlib.Combinatorics.SimpleGraph.Connectivity.Connected

namespace DeepFry.Explorer.Louvain
open Modularity

-- One level of the community pass: super-nodes, their edges, and the nodes of the input each stands for.
structure LevelGraph (n size : Nat) where
  neighbors : Fin size → List (Fin size × ℚ)
  selfLoop : Fin size → ℚ
  degree : Fin size → ℚ
  totalW : ℚ
  nodeOf : Fin size → List (Fin n)

section Level

variable {n size : Nat}

@[macro_inline] def bump (sums : Fin size → ℚ) (i : Fin size) (w : ℚ) : Fin size → ℚ := Function.update sums i (sums i + w)

@[macro_inline] def push {α : Type} (lists : Fin size → List α) (i : Fin size) (value : α) : Fin size → List α :=
  Function.update lists i (lists i ++ [value])

namespace LevelGraph

def make (nodeOf : Fin size → List (Fin n)) : LevelGraph n size := ⟨fun _ => [],fun _ => 0,fun _ => 0,0,nodeOf⟩

def addLoop (g : LevelGraph n size) (a : Fin size) (w : ℚ) : LevelGraph n size :=
  {g with selfLoop := bump g.selfLoop a w,degree := bump g.degree a (2 * w),totalW := g.totalW + w}

def addEdge (g : LevelGraph n size) (a b : Fin size) (w : ℚ) : LevelGraph n size :=
  {g with
    neighbors := push (push g.neighbors a (b,w)) b (a,w)
    degree := bump (bump g.degree a w) b w
    totalW := g.totalW + w}

end LevelGraph

-- The edge list is read in pairs; a last odd endpoint is dropped.
def pairs : List UInt32 → List (UInt32 × UInt32)
  | s :: t :: rest => (s,t) :: pairs rest
  | _ => []

-- Pairs with an endpoint out of range are skipped.
def inRange (n : Nat) (edges : List UInt32) : List (Fin n × Fin n) :=
  (pairs edges).filterMap fun pair =>
    if first : pair.1.toNat < n then
      if second : pair.2.toNat < n then some (⟨pair.1.toNat,first⟩,⟨pair.2.toNat,second⟩) else none
    else none

-- The key of an undirected edge has its lower endpoint first.
def key (s t : Fin size) : Fin size × Fin size := if s > t then (t,s) else (s,t)

def countEdge (wsum : List ((Fin n × Fin n) × ℚ)) (edge : Fin n × Fin n) : List ((Fin n × Fin n) × ℚ) :=
  if edge.1 = edge.2 then Tally.add (edge.1,edge.1) 1 wsum else Tally.add (key edge.1 edge.2) 1 wsum

def edgeSums (edges : List (Fin n × Fin n)) : List ((Fin n × Fin n) × ℚ) := edges.foldl countEdge []

def layEntry (g : LevelGraph n size) (entry : (Fin size × Fin size) × ℚ) : LevelGraph n size :=
  if entry.1.1 = entry.1.2 then g.addLoop entry.1.1 entry.2 else g.addEdge entry.1.1 entry.1.2 entry.2

def buildLevelGraph (edges : List UInt32) (n : Nat) (order : Tally.Order ((Fin n × Fin n) × ℚ)) : LevelGraph n n :=
  (order.order (edgeSums (inRange n edges))).foldl layEntry (LevelGraph.make fun i => [i])

-- Renumbering to 0..k-1 in the order the labels are first seen.
def remember {α : Type} [DecidableEq α] (seen : List α) (c : α) : List α := if c ∈ seen then seen else seen ++ [c]

def seenLabels (comm : Fin size → Fin size) : List (Fin size) :=
  (List.finRange size).foldl (fun seen v => remember seen (comm v)) []

theorem remember_mem {α : Type} [DecidableEq α] {seen : List α} {c d : α} : d ∈ remember seen c ↔ d ∈ seen ∨ d = c := by
  unfold remember
  split
  · rename_i there
    constructor
    · exact Or.inl
    · intro member
      obtain member | rfl := member
      · exact member
      · exact there
  · simp

theorem remember_nodup {α : Type} [DecidableEq α] {seen : List α} (distinct : seen.Nodup) (c : α) :
    (remember seen c).Nodup := by
  unfold remember
  split
  · exact distinct
  · rename_i fresh
    rw [← List.concat_eq_append]
    exact distinct.concat fresh

theorem foldl_remember {α β : Type} [DecidableEq α] (label : β → α) (nodes : List β) (seen : List α) (c : α) :
    c ∈ nodes.foldl (fun seen v => remember seen (label v)) seen ↔ c ∈ seen ∨ ∃ v ∈ nodes, label v = c := by
  induction nodes generalizing seen with
  | nil => simp
  | cons v rest ih =>
    rw [List.foldl_cons,ih,remember_mem,List.exists_mem_cons_iff,or_assoc,@eq_comm _ c]

theorem seen_comm (comm : Fin size → Fin size) (v : Fin size) : comm v ∈ seenLabels comm :=
  (foldl_remember comm _ _ _).mpr (.inr ⟨v,List.mem_finRange v,rfl⟩)

theorem remap_lt (comm : Fin size → Fin size) (v : Fin size) :
    (seenLabels comm).idxOf (comm v) < (seenLabels comm).length := List.idxOf_lt_length_of_mem (seen_comm comm v)

def remap (comm : Fin size → Fin size) (v : Fin size) : Fin (seenLabels comm).length :=
  ⟨(seenLabels comm).idxOf (comm v),remap_lt comm v⟩

-- Collapsing: what one edge list entry, one super-node and the whole level add to the next level.
def gatherEdge {k : Nat} (rep : Fin size → Fin k) (v : Fin size)
    (acc : LevelGraph n k × List ((Fin k × Fin k) × ℚ)) (edge : Fin size × ℚ) :
    LevelGraph n k × List ((Fin k × Fin k) × ℚ) :=
  if rep v = rep edge.1 then
    if v < edge.1 then (acc.1.addLoop (rep v) edge.2,acc.2) else acc
  else if v < edge.1 then (acc.1,Tally.add (key (rep v) (rep edge.1)) edge.2 acc.2) else acc

def gather {k : Nat} (g : LevelGraph n size) (rep : Fin size → Fin k)
    (acc : LevelGraph n k × List ((Fin k × Fin k) × ℚ)) (v : Fin size) : LevelGraph n k × List ((Fin k × Fin k) × ℚ) :=
  (g.neighbors v).foldl (gatherEdge rep v) (acc.1.addLoop (rep v) (g.selfLoop v),acc.2)

def unionNodes {k : Nat} (g : LevelGraph n size) (rep : Fin size → Fin k) : Fin k → List (Fin n) :=
  (List.finRange size).foldl (fun nodeOf v => Function.update nodeOf (rep v) (nodeOf (rep v) ++ g.nodeOf v)) fun _ => []

def collapse {k : Nat} (g : LevelGraph n size) (rep : Fin size → Fin k) (order : Tally.Order ((Fin k × Fin k) × ℚ)) :
    LevelGraph n k :=
  let gathered := (List.finRange size).foldl (gather g rep) (LevelGraph.make (unionNodes g rep),[])
  (order.order gathered.2).foldl (fun next entry => next.addEdge entry.1.1 entry.1.2 entry.2) gathered.1

-- none: everything collapsed into a single community.
def aggregate (g : LevelGraph n size) (comm : Fin size → Fin size)
    (order : Tally.Order ((Fin (seenLabels comm).length × Fin (seenLabels comm).length) × ℚ)) :
    Option (LevelGraph n (seenLabels comm).length) :=
  if (seenLabels comm).length ≤ 1 then none else some (collapse g (remap comm) order)

-- The matrix of a level, read from its own edges and loops.
def LevelGraph.weights (g : LevelGraph n size) : Weights (Fin size) := fun u v =>
  if u = v then 2 * g.selfLoop u else Tally.total (g.neighbors u) fun other => if other = v then (1 : ℚ) else 0

-- The modularity of a labelling by the degrees and the total weight that the level carries.
def LevelGraph.modularity (g : LevelGraph n size) {L : Type} [DecidableEq L] (f : Fin size → L) : ℚ :=
  ∑ u, ∑ v, if f u = f v then g.weights u v / (2 * g.totalW) - g.degree u * g.degree v / (2 * g.totalW) ^ 2 else 0

structure Carries (g : LevelGraph n size) (A : Weights (Fin size)) : Prop where
  weights : g.weights = A
  degree : g.degree = Modularity.degree A
  totalW : 2 * g.totalW = volume A

-- The two ends of every listed edge are related.
def Within (g : LevelGraph n size) (R : Fin size → Fin size → Prop) : Prop := ∀ v, ∀ edge ∈ g.neighbors v, R v edge.1

theorem carries_modularity {g : LevelGraph n size} {A : Weights (Fin size)} (carries : Carries g A) {L : Type}
    [DecidableEq L] (f : Fin size → L) : g.modularity f = Modularity.modularity A f := by
  unfold LevelGraph.modularity Modularity.modularity together excess
  rw [carries.weights,carries.degree,carries.totalW]

theorem volume_add (A B : Weights (Fin size)) : volume (A + B) = volume A + volume B := by
  unfold volume Modularity.degree
  simp only [Pi.add_apply,Finset.sum_add_distrib]

theorem degree_add (A B : Weights (Fin size)) : Modularity.degree (A + B) = Modularity.degree A + Modularity.degree B := by
  funext v
  unfold Modularity.degree
  simp only [Pi.add_apply,Finset.sum_add_distrib]

theorem degree_smul_bond (w : ℚ) (a b v : Fin size) :
    Modularity.degree (w • bond a b) v = (if v = a then w else 0) + if v = b then w else 0 := by
  have scaled : Modularity.degree (w • bond a b) v = w * Modularity.degree (bond a b) v := by
    unfold Modularity.degree
    simp only [Pi.smul_apply,smul_eq_mul,Finset.mul_sum]
  rw [scaled,degree_bond,mul_add]
  simp

theorem volume_smul_bond (w : ℚ) (a b : Fin size) : volume (w • bond a b) = 2 * w := by
  unfold volume
  simp only [degree_smul_bond,Finset.sum_add_distrib]
  simp
  ring

theorem carries_make (nodeOf : Fin size → List (Fin n)) : Carries (LevelGraph.make nodeOf) 0 := by
  refine ⟨?_,?_,?_⟩
  · funext u v
    simp [LevelGraph.weights,LevelGraph.make,Tally.total]
  · funext v
    simp [LevelGraph.make,Modularity.degree]
  · simp [LevelGraph.make,volume,Modularity.degree]

theorem bump_apply (sums : Fin size → ℚ) (i j : Fin size) (w : ℚ) : bump sums i w j = sums j + if j = i then w else 0 := by
  unfold bump
  by_cases same : j = i
  · subst same
    simp
  · simp [same]

theorem push_total (lists : Fin size → List (Fin size × ℚ)) (i j : Fin size) (edge : Fin size × ℚ) (F : Fin size → ℚ) :
    Tally.total (push lists i edge j) F = Tally.total (lists j) F + if j = i then edge.2 * F edge.1 else 0 := by
  unfold push
  by_cases same : j = i
  · subst same
    simp [Tally.total]
  · simp [same]

theorem carries_addLoop {g : LevelGraph n size} {A : Weights (Fin size)} (carries : Carries g A) (a : Fin size) (w : ℚ) :
    Carries (g.addLoop a w) (A + w • bond a a) := by
  refine ⟨?_,?_,?_⟩
  · rw [← carries.weights]
    funext u v
    simp only [LevelGraph.weights,LevelGraph.addLoop,bump_apply,Pi.add_apply,Pi.smul_apply,smul_eq_mul,bond]
    by_cases same : u = v
    · subst same
      by_cases here : u = a <;> simp [here]
      ring
    · have apart : ¬ (u = a ∧ v = a) := fun both => same (both.1.trans both.2.symm)
      simp [same,apart]
  · funext v
    rw [degree_add,← carries.degree]
    simp only [LevelGraph.addLoop,bump_apply,Pi.add_apply,degree_smul_bond]
    split <;> ring
  · rw [volume_add,← carries.totalW,volume_smul_bond]
    simp only [LevelGraph.addLoop]
    ring

theorem carries_addEdge {g : LevelGraph n size} {A : Weights (Fin size)} (carries : Carries g A) {a b : Fin size}
    (apart : a ≠ b) (w : ℚ) : Carries (g.addEdge a b w) (A + w • bond a b) := by
  refine ⟨?_,?_,?_⟩
  · rw [← carries.weights]
    funext u v
    simp only [LevelGraph.weights,LevelGraph.addEdge,push_total,Pi.add_apply,Pi.smul_apply,smul_eq_mul,bond]
    by_cases same : u = v
    · subst same
      by_cases here : u = a
      · subst here
        simp [apart]
      · simp [here]
    · simp only [same,if_false,add_assoc]
      congr 1
      by_cases first : u = a
      · subst first
        by_cases second : v = b
        · simp [second,apart]
        · simp [second,Ne.symm second,apart]
      · by_cases last : u = b
        · subst last
          by_cases back : v = a
          · simp [back,first]
          · simp [back,Ne.symm back,first]
        · simp [first,last]
  · funext v
    rw [degree_add,← carries.degree]
    simp only [LevelGraph.addEdge,bump_apply,Pi.add_apply,degree_smul_bond]
    ring
  · rw [volume_add,← carries.totalW,volume_smul_bond]
    simp only [LevelGraph.addEdge]
    ring

theorem mem_push {α : Type} {lists : Fin size → List α} {i j : Fin size} {value edge : α} (member : edge ∈ push lists i value j) :
    edge ∈ lists j ∨ j = i ∧ edge = value := by
  unfold push at member
  by_cases here : j = i
  · subst here
    rw [Function.update_self,List.mem_append,List.mem_singleton] at member
    exact member.imp_right fun last => ⟨rfl,last⟩
  · rw [Function.update_of_ne here] at member
    exact .inl member

theorem within_addEdge {g : LevelGraph n size} {R : Fin size → Fin size → Prop} (within : Within g R) {a b : Fin size}
    (forth : R a b) (back : R b a) (w : ℚ) : Within (g.addEdge a b w) R := by
  intro v edge member
  rcases mem_push member with prior | ⟨rfl,rfl⟩
  · rcases mem_push prior with old | ⟨rfl,rfl⟩
    · exact within v edge old
    · exact forth
  · exact back

-- What a graph laid over g from a list of entries has: the entries' weight on top, and g's nodes.
structure Laid (g next : LevelGraph n size) (A : Weights (Fin size)) (R : Fin size → Fin size → Prop) : Prop where
  carries : Carries next A
  within : Within next R
  nodeOf : next.nodeOf = g.nodeOf

def bondAt (ends : Fin size × Fin size) : Weights (Fin size) := bond ends.1 ends.2

theorem bondAt_key (s t : Fin size) : bondAt (key s t) = bond s t := by
  unfold bondAt key
  split
  · funext u v
    unfold bond
    rw [add_comm]
  · rfl

theorem laid_foldl {R : Fin size → Fin size → Prop}
    {step : LevelGraph n size → (Fin size × Fin size) × ℚ → LevelGraph n size} {entries : List ((Fin size × Fin size) × ℚ)}
    (each : ∀ entry ∈ entries, ∀ g A, Carries g A → Within g R →
      Laid g (step g entry) (A + entry.2 • bondAt entry.1) R)
    {g : LevelGraph n size} {A : Weights (Fin size)} (carries : Carries g A) (within : Within g R) :
    Laid g (entries.foldl step g) (A + Tally.total entries bondAt) R := by
  induction entries generalizing g A with
  | nil => exact ⟨by simpa [Tally.total] using carries,within,rfl⟩
  | cons entry rest ih =>
    have first := each entry List.mem_cons_self g A carries within
    have later := ih (fun other member => each other (List.mem_cons_of_mem entry member)) first.carries first.within
    have sum : A + Tally.total (entry :: rest) bondAt = A + entry.2 • bondAt entry.1 + Tally.total rest bondAt := by
      unfold Tally.total
      rw [List.map_cons,List.sum_cons,add_assoc]
    rw [sum]
    exact ⟨later.carries,later.within,later.nodeOf.trans first.nodeOf⟩

-- The symmetrised graph of the edge list: its matrix and its adjacency.
def symmetrised (edges : List UInt32) (n : Nat) : Weights (Fin n) :=
  ((inRange n edges).map fun edge => bond edge.1 edge.2).sum

def followGraph (edges : List UInt32) (n : Nat) : SimpleGraph (Fin n) :=
  SimpleGraph.fromRel fun s t => (s,t) ∈ inRange n edges

theorem symmetrised_symm (edges : List UInt32) (n : Nat) (u v : Fin n) :
    symmetrised edges n u v = symmetrised edges n v u := by
  unfold symmetrised
  induction inRange n edges with
  | nil => rfl
  | cons edge rest ih =>
    simp only [List.map_cons,List.sum_cons,Pi.add_apply,ih,bond_symm edge.1 edge.2 u v]

theorem countEdge_total (wsum : List ((Fin n × Fin n) × ℚ)) (edge : Fin n × Fin n) :
    Tally.total (countEdge wsum edge) bondAt = Tally.total wsum bondAt + bond edge.1 edge.2 := by
  unfold countEdge
  split
  · rename_i same
    rw [Tally.total_add,one_smul,← same]
    rfl
  · rw [Tally.total_add,one_smul,bondAt_key]

theorem edgeSums_total (edges : List (Fin n × Fin n)) :
    Tally.total (edgeSums edges) bondAt = (edges.map fun edge => bond edge.1 edge.2).sum := by
  have fold : ∀ wsum, Tally.total (edges.foldl countEdge wsum) bondAt =
      Tally.total wsum bondAt + (edges.map fun edge => bond edge.1 edge.2).sum := by
    induction edges with
    | nil =>
      intro wsum
      simp
    | cons edge rest ih =>
      intro wsum
      rw [List.foldl_cons,ih,countEdge_total,List.map_cons,List.sum_cons,add_assoc]
  unfold edgeSums
  rw [fold]
  simp [Tally.total]

-- Every key of the map is a listed edge, in one direction or the other.
def Listed (edges : List (Fin n × Fin n)) (ends : Fin n × Fin n) : Prop := ends ∈ edges ∨ (ends.2,ends.1) ∈ edges

theorem countEdge_keys {edges : List (Fin n × Fin n)} {wsum : List ((Fin n × Fin n) × ℚ)}
    (held : ∀ old ∈ wsum, Listed edges old.1) {edge : Fin n × Fin n} (listed : edge ∈ edges) :
    ∀ entry ∈ countEdge wsum edge, Listed edges entry.1 := by
  intro entry member
  unfold countEdge at member
  split at member
  · rename_i same
    obtain fresh | ⟨old,there,equal⟩ := Tally.mem_add member
    · have whole : entry.1 = edge := fresh.trans (Prod.ext rfl same)
      rw [whole]
      exact .inl listed
    · rw [equal]
      exact held old there
  · obtain fresh | ⟨old,there,equal⟩ := Tally.mem_add member
    · rw [fresh]
      unfold key
      split
      · exact .inr listed
      · exact .inl listed
    · rw [equal]
      exact held old there

theorem edgeSums_keys (edges : List (Fin n × Fin n)) : ∀ entry ∈ edgeSums edges, Listed edges entry.1 := by
  have fold : ∀ (rest : List (Fin n × Fin n)) (wsum : List ((Fin n × Fin n) × ℚ)), (∀ edge ∈ rest, edge ∈ edges) →
      (∀ old ∈ wsum, Listed edges old.1) → ∀ entry ∈ rest.foldl countEdge wsum, Listed edges entry.1 := by
    intro rest
    induction rest with
    | nil =>
      intro wsum _ held
      exact held
    | cons edge rest ih =>
      intro wsum listed held
      apply ih _ fun other later => listed other (List.mem_cons_of_mem edge later)
      exact countEdge_keys held (listed edge List.mem_cons_self)
  exact fold edges [] (fun _ member => member) fun _ none => absurd none List.not_mem_nil

-- The first level is the symmetrised graph, in whatever order its map is read.
theorem build_laid (edges : List UInt32) (n : Nat) (order : Tally.Order ((Fin n × Fin n) × ℚ)) :
    Laid (LevelGraph.make fun i : Fin n => [i]) (buildLevelGraph edges n order) (symmetrised edges n)
      (followGraph edges n).Adj := by
  have each : ∀ entry ∈ order.order (edgeSums (inRange n edges)), ∀ (g : LevelGraph n n) A, Carries g A →
      Within g (followGraph edges n).Adj →
      Laid g (layEntry g entry) (A + entry.2 • bondAt entry.1) (followGraph edges n).Adj := by
    intro entry member g A carries within
    have listed := edgeSums_keys _ entry ((order.complete _).mem_iff.mp member)
    unfold layEntry
    by_cases loop : entry.1.1 = entry.1.2
    · rw [if_pos loop,bondAt,← loop]
      exact ⟨carries_addLoop carries _ _,within,rfl⟩
    · rw [if_neg loop]
      have adjacent : (followGraph edges n).Adj entry.1.1 entry.1.2 := ⟨loop,listed⟩
      exact ⟨carries_addEdge carries loop _,within_addEdge within adjacent adjacent.symm _,rfl⟩
  have laid := laid_foldl each (carries_make fun i : Fin n => [i]) (fun _ _ none => absurd none List.not_mem_nil)
  rw [zero_add,Tally.total_perm (order.complete _),edgeSums_total] at laid
  exact laid

section Collapse

variable {k : Nat} {R : Fin k → Fin k → Prop} {nodeOf : Fin k → List (Fin n)} {rep : Fin size → Fin k}

-- The next level and its map together hold a weight.
structure Gathered (R : Fin k → Fin k → Prop) (nodeOf : Fin k → List (Fin n))
    (acc : LevelGraph n k × List ((Fin k × Fin k) × ℚ)) (T : Weights (Fin k)) : Prop where
  carried : ∃ B, Carries acc.1 B ∧ B + Tally.total acc.2 bondAt = T
  within : Within acc.1 R
  keys : ∀ entry ∈ acc.2, R entry.1.1 entry.1.2
  nodes : acc.1.nodeOf = nodeOf

theorem gathered_loop {acc : LevelGraph n k × List ((Fin k × Fin k) × ℚ)} {T : Weights (Fin k)}
    (gathered : Gathered R nodeOf acc T) (a : Fin k) (w : ℚ) :
    Gathered R nodeOf (acc.1.addLoop a w,acc.2) (T + w • bond a a) := by
  obtain ⟨⟨B,carries,total⟩,within,keys,nodes⟩ := gathered
  refine ⟨⟨B + w • bond a a,carries_addLoop carries a w,?_⟩,within,keys,nodes⟩
  rw [← total]
  abel

theorem gathered_edge (sym : ∀ a b, R a b → R b a) {v : Fin size} {edge : Fin size × ℚ}
    (across : rep v ≠ rep edge.1 → R (rep v) (rep edge.1)) {acc : LevelGraph n k × List ((Fin k × Fin k) × ℚ)}
    {T : Weights (Fin k)} (gathered : Gathered R nodeOf acc T) : Gathered R nodeOf (gatherEdge rep v acc edge)
      (T + edge.2 • if v < edge.1 then bond (rep v) (rep edge.1) else 0) := by
  unfold gatherEdge
  by_cases below : v < edge.1
  · simp only [below,if_true]
    split
    · rename_i same
      rw [← same]
      exact gathered_loop gathered (rep v) edge.2
    · rename_i apart
      obtain ⟨⟨B,carries,total⟩,within,keys,nodes⟩ := gathered
      refine ⟨⟨B,carries,?_⟩,within,?_,nodes⟩
      · rw [Tally.total_add,bondAt_key,← add_assoc,total]
      · intro entry member
        obtain fresh | ⟨old,there,equal⟩ := Tally.mem_add member
        · rw [fresh]
          unfold key
          split
          · exact sym _ _ (across apart)
          · exact across apart
        · rw [equal]
          exact keys old there
  · simp only [below,if_false,ite_self,smul_zero,add_zero]
    exact gathered

theorem gathered_node (sym : ∀ a b, R a b → R b a) {g : LevelGraph n size} {v : Fin size}
    (across : ∀ edge ∈ g.neighbors v, rep v ≠ rep edge.1 → R (rep v) (rep edge.1))
    {acc : LevelGraph n k × List ((Fin k × Fin k) × ℚ)} {T : Weights (Fin k)} (gathered : Gathered R nodeOf acc T) :
    Gathered R nodeOf (gather g rep acc v) (T + (g.selfLoop v • bond (rep v) (rep v) +
      Tally.total (g.neighbors v) fun u => if v < u then bond (rep v) (rep u) else 0)) := by
  have fold : ∀ (edges : List (Fin size × ℚ)) (acc : LevelGraph n k × List ((Fin k × Fin k) × ℚ)) (T : Weights (Fin k)),
      (∀ edge ∈ edges, rep v ≠ rep edge.1 → R (rep v) (rep edge.1)) → Gathered R nodeOf acc T →
      Gathered R nodeOf (edges.foldl (gatherEdge rep v) acc)
        (T + Tally.total edges fun u => if v < u then bond (rep v) (rep u) else 0) := by
    intro edges
    induction edges with
    | nil =>
      intro acc T _ gathered
      simpa [Tally.total] using gathered
    | cons edge rest ih =>
      intro acc T across gathered
      have first := gathered_edge sym (across edge List.mem_cons_self) gathered
      have later := ih _ _ (fun other member => across other (List.mem_cons_of_mem edge member)) first
      rw [List.foldl_cons]
      unfold Tally.total at later ⊢
      rw [List.map_cons,List.sum_cons,← add_assoc]
      exact later
  rw [← add_assoc]
  exact fold (g.neighbors v) _ _ across (gathered_loop gathered (rep v) (g.selfLoop v))

theorem node_share {g : LevelGraph n size} {A : Weights (Fin size)} (carries : Carries g A) (rep : Fin size → Fin k)
    (v : Fin size) : (g.selfLoop v • bond (rep v) (rep v) +
      Tally.total (g.neighbors v) fun u => if v < u then bond (rep v) (rep u) else 0) =
      (A v v / 2) • bond (rep v) (rep v) + ∑ u, if v < u then A v u • bond (rep v) (rep u) else 0 := by
  congr 1
  · rw [← carries.weights]
    simp [LevelGraph.weights]
  · rw [Tally.total_fiber]
    apply Finset.sum_congr rfl
    intro u _
    split
    · rename_i below
      rw [← carries.weights]
      simp only [LevelGraph.weights,below.ne,if_false]
    · exact smul_zero _

theorem merge_shares {A : Weights (Fin size)} (sym : ∀ u v, A u v = A v u) (rep : Fin size → Fin k) : merge rep A =
    ∑ v, ((A v v / 2) • bond (rep v) (rep v) + ∑ u, if v < u then A v u • bond (rep v) (rep u) else 0) := by
  conv_lhs => rw [decompose sym]
  rw [map_sum]
  apply Finset.sum_congr rfl
  intro v _
  rw [map_add,map_smul,merge_bond,map_sum]
  congr 1
  apply Finset.sum_congr rfl
  intro u _
  split
  · rw [map_smul,merge_bond]
  · rw [map_zero]

-- Collapsing carries loops, degrees and total weight to the merged matrix, in whatever order its map is read.
theorem collapse_laid (symR : ∀ a b, R a b → R b a) (apart : ∀ a b, R a b → a ≠ b) {g : LevelGraph n size}
    {A : Weights (Fin size)} (carries : Carries g A) (sym : ∀ u v, A u v = A v u)
    (across : ∀ v, ∀ edge ∈ g.neighbors v, rep v ≠ rep edge.1 → R (rep v) (rep edge.1))
    (order : Tally.Order ((Fin k × Fin k) × ℚ)) :
    Laid (LevelGraph.make (unionNodes g rep)) (collapse g rep order) (merge rep A) R := by
  have fold : ∀ (nodes : List (Fin size)) (acc : LevelGraph n k × List ((Fin k × Fin k) × ℚ)) (T : Weights (Fin k)),
      Gathered R (unionNodes g rep) acc T → Gathered R (unionNodes g rep) (nodes.foldl (gather g rep) acc)
        (T + (nodes.map fun v => (A v v / 2) • bond (rep v) (rep v) +
          ∑ u, if v < u then A v u • bond (rep v) (rep u) else 0).sum) := by
    intro nodes
    induction nodes with
    | nil =>
      intro acc T gathered
      simpa using gathered
    | cons v rest ih =>
      intro acc T gathered
      have first := gathered_node symR (across v) gathered
      rw [node_share carries] at first
      have later := ih _ _ first
      rw [List.foldl_cons,List.map_cons,List.sum_cons,← add_assoc]
      exact later
  have start : Gathered R (unionNodes g rep) (LevelGraph.make (unionNodes g rep),[]) 0 :=
    ⟨⟨0,carries_make _,by simp [Tally.total]⟩,fun _ _ none => absurd none List.not_mem_nil,
      fun _ none => absurd none List.not_mem_nil,rfl⟩
  obtain ⟨⟨B,carried,total⟩,within,keys,nodes⟩ := fold (List.finRange size) _ _ start
  rw [zero_add,← Fin.sum_univ_def,← merge_shares sym] at total
  rw [← total,← Tally.total_perm (order.complete _)]
  have each : ∀ entry ∈ order.order ((List.finRange size).foldl (gather g rep) (LevelGraph.make (unionNodes g rep),[])).2,
      ∀ (next : LevelGraph n k) C, Carries next C → Within next R →
      Laid next (next.addEdge entry.1.1 entry.1.2 entry.2) (C + entry.2 • bondAt entry.1) R := by
    intro entry member next C carries within
    have related := keys entry ((order.complete _).mem_iff.mp member)
    exact ⟨carries_addEdge carries (apart _ _ related) _,within_addEdge within related (symR _ _ related) _,rfl⟩
  have laid := laid_foldl each carried within
  exact ⟨laid.carries,laid.within,laid.nodeOf.trans nodes⟩

omit R nodeOf in
-- The nodes of a community are the nodes of its members.
theorem unionNodes_mem (g : LevelGraph n size) (rep : Fin size → Fin k) (c : Fin k) (o : Fin n) :
    o ∈ unionNodes g rep c ↔ ∃ v, rep v = c ∧ o ∈ g.nodeOf v := by
  have fold : ∀ (nodes : List (Fin size)) (lists : Fin k → List (Fin n)),
      o ∈ nodes.foldl (fun nodeOf v => Function.update nodeOf (rep v) (nodeOf (rep v) ++ g.nodeOf v)) lists c ↔
        o ∈ lists c ∨ ∃ v ∈ nodes, rep v = c ∧ o ∈ g.nodeOf v := by
    intro nodes
    induction nodes with
    | nil =>
      intro lists
      simp
    | cons v rest ih =>
      intro lists
      rw [List.foldl_cons,ih,List.exists_mem_cons_iff,← or_assoc]
      apply or_congr_left
      by_cases here : c = rep v
      · subst here
        simp
      · simp [here,Ne.symm here]
  unfold unionNodes
  rw [fold]
  simp

end Collapse

end Level

end DeepFry.Explorer.Louvain
