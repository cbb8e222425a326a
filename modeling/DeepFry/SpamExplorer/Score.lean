import DeepFry.Lib.Tally
import DeepFry.SpamExplorer.Rounds

namespace DeepFry.SpamExplorer
open Hops Multimap

def scoreTarget (levels : Table Nat) (lf : Nat) (vfc : Table Nat) (target : Str) : Table Nat :=
  match levels.lookup target with
  | none => vfc
  | some lt => if lf < lt then tick target vfc else vfc

def scoreFollower (levels : Table Nat) (vfc : Table Nat) (entry : Σ _ : Str, List Str) : Table Nat :=
  match levels.lookup entry.1 with
  | none => vfc
  | some lf => entry.2.foldl (scoreTarget levels lf) vfc

-- The adjacency is ranged over in the order of the map.
def score (order : Tally.Order (Σ _ : Str, List Str)) (levels : Table Nat) (adjacency : Table (List Str)) : Table Nat :=
  (order.order adjacency.entries).foldl (scoreFollower levels) ∅

-- Abstract: the followers in the whole graph that are strictly nearer to the seed, whatever the walk saw of them.
def FollowGraph.ValidFollower (g : FollowGraph) (seed follower target : Str) : Prop :=
  g.Follows follower target ∧ ∃ lf lt, Dist g.Follows seed lf follower ∧ Dist g.Follows seed lt target ∧ lf < lt

noncomputable def FollowGraph.validFollowers (g : FollowGraph) (seed target : Str) : Nat := {follower | g.ValidFollower seed follower target}.ncard

section Counting
variable {levels : Table Nat}

def upstream (levels : Table Nat) (edge : Str × Str) : Bool :=
  match levels.lookup edge.1,levels.lookup edge.2 with
  | some lf,some lt => lf < lt
  | _,_ => false

theorem upstream_iff {edge : Str × Str} :
    upstream levels edge = true ↔ ∃ lf lt, levels.lookup edge.1 = some lf ∧ levels.lookup edge.2 = some lt ∧ lf < lt := by
  unfold upstream
  split
  · rename_i lf lt follower target
    rw [follower,target,decide_eq_true_eq]
    constructor
    · intro less
      exact ⟨lf,lt,rfl,rfl,less⟩
    · intro found
      obtain ⟨lf',lt',one,other,less⟩ := found
      cases one
      cases other
      exact less
  · rename_i missing
    constructor
    · intro found
      cases found
    · intro found
      obtain ⟨lf,lt,follower,target,_⟩ := found
      exact absurd target (missing lf lt follower)

theorem scoreFollower_ticks (levels vfc : Table Nat) (entry : Σ _ : Str, List Str) :
    scoreFollower levels vfc entry = tickAll (upstream levels) Prod.snd (entry.2.map fun target => (entry.1,target)) vfc := by
  rw [tickAll,List.foldl_map,scoreFollower]
  cases follower : levels.lookup entry.1 with
  | none =>
    have still (targets : List Str) : targets.foldl
        (fun m target => if upstream levels (entry.1,target) = true then tick target m else m) vfc = vfc := by
      induction targets with
      | nil => rfl
      | cons target targets ih => simp [upstream,follower]
    exact (still entry.2).symm
  | some lf =>
    refine List.foldl_ext _ _ _ ?_
    intro m target _
    unfold scoreTarget upstream
    rw [follower]
    cases levels.lookup target <;> simp

-- One tick for each materialized edge that leads to a deeper level, whatever the order.
theorem score_ticks (order : Tally.Order (Σ _ : Str, List Str)) (levels : Table Nat) (adjacency : Table (List Str)) :
    score order levels adjacency = tickAll (upstream levels) Prod.snd (pairs (order.order adjacency.entries)) ∅ := by
  have folded (entries : List (Σ _ : Str, List Str)) (vfc : Table Nat) :
      entries.foldl (scoreFollower levels) vfc = tickAll (upstream levels) Prod.snd (pairs entries) vfc := by
    induction entries generalizing vfc with
    | nil => rfl
    | cons entry entries ih =>
      rw [List.foldl_cons,ih,scoreFollower_ticks,pairs_cons,tickAll,tickAll,tickAll,List.foldl_append]
  exact folded _ _

end Counting

section Exact
variable {g : FollowGraph} {seed : Str} {maxLevel : Int} {leveled : Leveled} {d : Nat} {frontier : List Str} {target : Str}

-- The followers that count are the same in the materialized edges and in the whole graph.
theorem Stopped.valid (stopped : Stopped g seed maxLevel leveled d frontier) (kept : target ∈ leveled.levels) (follower : Str) :
    (follower,target) ∈ pairs leveled.adjacency.entries ∧ upstream leveled.levels (follower,target) = true ↔ g.ValidFollower seed follower target := by
  rw [upstream_iff]
  constructor
  · intro both
    obtain ⟨materialized,lf,lt,near,far,less⟩ := both
    refine ⟨(stopped.materialized near far less).mp materialized,lf,lt,?_,?_,less⟩
    · exact ((stopped.levels _ _).mp near).1
    · exact ((stopped.levels _ _).mp far).1
  · intro valid
    obtain ⟨follows,lf,lt,near,far,less⟩ := valid
    obtain ⟨level,held⟩ := Option.isSome_iff_exists.mp (AList.lookup_isSome.mpr kept)
    obtain ⟨dist,within⟩ := (stopped.levels _ _).mp held
    have same := dist.unique far
    rw [same] at held within
    have above : leveled.levels.lookup follower = some lf := by
      apply (stopped.levels _ _).mpr
      refine ⟨near,?_⟩
      intro cap
      have reach := within cap
      omega
    exact ⟨(stopped.materialized above held less).mpr follows,lf,lt,above,held,less⟩

theorem Stopped.countP (stopped : Stopped g seed maxLevel leveled d frontier) (kept : target ∈ leveled.levels) :
    ((pairs leveled.adjacency.entries).countP fun edge => upstream leveled.levels edge && decide (edge.2 = target)) = g.validFollowers seed target := by
  let counted := (pairs leveled.adjacency.entries).filter fun edge => upstream leveled.levels edge && decide (edge.2 = target)
  have member (edge : Str × Str) : edge ∈ counted ↔ g.ValidFollower seed edge.1 edge.2 ∧ edge.2 = target := by
    rw [List.mem_filter,Bool.and_eq_true,decide_eq_true_eq,← and_assoc]
    apply and_congr_left
    intro same
    exact stopped.valid (by rw [same]; exact kept) edge.1
  have apart : (counted.map Prod.fst).Nodup := by
    apply List.Nodup.map_on _ (stopped.walked.distinct.filter _)
    intro one first other second same
    exact Prod.ext same (((member one).mp first).2.trans ((member other).mp second).2.symm)
  have followers : {follower | g.ValidFollower seed follower target} = ((counted.map Prod.fst).toFinset : Set Str) := by
    ext follower
    rw [Set.mem_ofPred_eq,Finset.mem_coe,List.mem_toFinset,List.mem_map]
    constructor
    · intro valid
      exact ⟨(follower,target),(member _).mpr ⟨valid,rfl⟩,rfl⟩
    · intro found
      obtain ⟨edge,listed,same⟩ := found
      obtain ⟨valid,on⟩ := (member edge).mp listed
      rw [← same,← on]
      exact valid
  rw [FollowGraph.validFollowers,followers,Set.ncard_coe_finset,List.toFinset_card_of_nodup apart,List.length_map,List.countP_eq_length_filter]

theorem Stopped.score_exact (stopped : Stopped g seed maxLevel leveled d frontier) (order : Tally.Order (Σ _ : Str, List Str)) (kept : target ∈ leveled.levels) :
    ((score order leveled.levels leveled.adjacency).lookup target).getD 0 = g.validFollowers seed target := by
  rw [score_ticks,lookup_tickAll,(pairs_perm (order.complete _)).countP_eq,stopped.countP kept,AList.lookup_empty]
  exact Nat.zero_add _

-- Of the levelled nodes the seed alone has no valid follower.
theorem Stopped.scored (stopped : Stopped g seed maxLevel leveled d frontier) (kept : target ∈ leveled.levels) :
    0 < g.validFollowers seed target ↔ target ≠ seed := by
  rw [← stopped.countP kept,List.countP_pos_iff]
  obtain ⟨level,held⟩ := Option.isSome_iff_exists.mp (AList.lookup_isSome.mpr kept)
  obtain ⟨dist,_⟩ := (stopped.levels _ _).mp held
  constructor
  · intro found same
    obtain ⟨edge,materialized,counted⟩ := found
    rw [Bool.and_eq_true,decide_eq_true_eq] at counted
    obtain ⟨on,there⟩ := counted
    have valid := (stopped.valid (by rw [there]; exact kept) edge.1).mp ⟨materialized,on⟩
    obtain ⟨_,lf,lt,_,far,less⟩ := valid
    rw [there,same] at far
    have zero := dist_source.unique far
    omega
  · intro other
    cases level with
    | zero => exact absurd (dist_zero.mp dist) other
    | succ level =>
      obtain ⟨follower,near,follows⟩ := dist.pred
      have valid : g.ValidFollower seed follower target := ⟨follows,level,level+1,near,dist,Nat.lt_succ_self _⟩
      obtain ⟨materialized,on⟩ := (stopped.valid kept follower).mpr valid
      exact ⟨(follower,target),materialized,by simp [on]⟩

-- The score map holds the levelled nodes without the seed.
theorem Stopped.lookup_score (stopped : Stopped g seed maxLevel leveled d frontier) (order : Tally.Order (Σ _ : Str, List Str)) {vfc : Nat} :
    (score order leveled.levels leveled.adjacency).lookup target = some vfc ↔
      target ∈ leveled.levels ∧ target ≠ seed ∧ vfc = g.validFollowers seed target := by
  have positive : Positive (score order leveled.levels leveled.adjacency) := by
    rw [score_ticks]
    exact Positive.empty.tickAll _ _ _
  rw [positive.lookup]
  by_cases kept : target ∈ leveled.levels
  · rw [stopped.score_exact order kept,← stopped.scored kept]
    constructor
    · intro both
      refine ⟨kept,?_,both.2.symm⟩
      rw [both.2]
      exact both.1
    · intro both
      refine ⟨?_,both.2.2.symm⟩
      rw [both.2.2]
      exact both.2.1
  · constructor
    · intro both
      obtain ⟨more,count⟩ := both
      rw [score_ticks,lookup_tickAll,AList.lookup_empty,Option.getD_none,Nat.zero_add] at count
      rw [← count,List.countP_pos_iff] at more
      obtain ⟨edge,_,counted⟩ := more
      rw [Bool.and_eq_true,decide_eq_true_eq,upstream_iff] at counted
      obtain ⟨⟨_,lt,_,held,_⟩,there⟩ := counted
      rw [there] at held
      exact absurd (AList.lookup_isSome.mp (by rw [held]; rfl)) kept
    · intro both
      exact absurd both.1 kept

end Exact
end DeepFry.SpamExplorer
