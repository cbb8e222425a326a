import DeepFry.SpamExplorer.Write

namespace DeepFry.SpamExplorer
open Hops

section Explore
variable {ε δ : Type} {g : FollowGraph} {seed : Str} {maxLevel : Int} {leveled : Leveled} {d : Nat} {frontier : List Str}

-- Without a cap the levelled nodes are those a chain of follows reaches.
theorem Stopped.reachable (stopped : Stopped g seed maxLevel leveled d frontier) (uncapped : maxLevel ≤ 0) (v : Str) :
    v ∈ leveled.levels ↔ Relation.ReflTransGen g.Follows seed v := by
  rw [reachable_iff,← AList.lookup_isSome,Option.isSome_iff_exists]
  apply exists_congr
  intro e
  rw [stopped.levels]
  constructor
  · exact And.left
  · intro dist
    refine ⟨dist,?_⟩
    intro cap
    omega

-- What a write that ends without error has encoded; whether it reaches the file is for the last flush and the close.
structure Emits (g : FollowGraph) (seed : Str) (maxLevel threshold k : Int) (written : Written δ) : Prop where
  emitted : written.emitted = written.lines.length
  sorted : written.lines.Pairwise fun a b => a.pubkey < b.pubkey
  candidates : ∀ r, r ∈ written.lines ↔ ∃ v, g.Candidate seed maxLevel threshold k v ∧ r = g.record seed v

theorem Stopped.write (stopped : Stopped g seed maxLevel leveled d frontier) (orderA : Tally.Order (Σ _ : Str, List Str))
    (orderS : Tally.Order (Σ _ : Str, Nat)) (disk : Disk δ) (sorter : SortSlice) (path : Str) (threshold k : Int) (distinct : g.Distinct)
    (clean : (write disk sorter orderS path (score orderA leveled.levels leveled.adjacency) leveled.levels leveled.pubkeys threshold k).err.isNone) :
    Emits g seed maxLevel threshold k
      (write disk sorter orderS path (score orderA leveled.levels leveled.adjacency) leveled.levels leveled.pubkeys threshold k) := by
  let records := collected orderS (score orderA leveled.levels leveled.adjacency) leveled.levels leveled.pubkeys threshold k
  unfold SpamExplorer.write at clean ⊢
  cases created : disk.create path with
  | some err =>
    rw [created] at clean
    cases clean
  | none =>
    rw [created] at clean
    obtain ⟨count,_,whole⟩ := encodeAll_emitted disk 0 (sorter.sort records)
    have lines := whole clean
    have apart : (sorter.sort records).Pairwise fun a b => a.pubkey ≠ b.pubkey :=
      ((sorter.complete records).pairwise_iff fun differ => differ.symm).mpr (stopped.apart orderA orderS threshold k distinct)
    refine ⟨?_,?_,?_⟩
    · exact count.trans (Nat.zero_add _)
    · rw [lines]
      exact (sorter.sorted records).imp₂ (fun _ _ below differ => lt_of_le_of_ne below differ) apart
    · intro r
      rw [lines,(sorter.complete records).mem_iff]
      exact stopped.mem_collected orderA orderS threshold k r

-- Level ends; it levels the nodes within the cap with their distance; Score counts the followers of the whole graph that are strictly
-- nearer to the seed; Write emits the candidates.
theorem explore_exact {expand : FrontierExpander ε} (expands : Expands g expand) (seed : Str) (maxLevel : Int) :
    ∃ leveled, (∀ fuel, g.targets.card + 2 ≤ fuel → level expand seed maxLevel fuel = some (.ok leveled)) ∧
      (∀ v e, leveled.levels.lookup v = some e ↔ Dist g.Follows seed e v ∧ (0 < maxLevel → (e : Int) ≤ maxLevel)) ∧
      (maxLevel ≤ 0 → ∀ v, v ∈ leveled.levels ↔ Relation.ReflTransGen g.Follows seed v) ∧
      ∀ orderA : Tally.Order (Σ _ : Str, List Str),
        (∀ v ∈ leveled.levels, ((score orderA leveled.levels leveled.adjacency).lookup v).getD 0 = g.validFollowers seed v ∧
          (v ≠ seed → 1 ≤ g.validFollowers seed v)) ∧
        ∀ (disk : Disk δ) (sorter : SortSlice) (orderS : Tally.Order (Σ _ : Str, Nat)) (path : Str) (threshold k : Int), g.Distinct →
          (write disk sorter orderS path (score orderA leveled.levels leveled.adjacency) leveled.levels leveled.pubkeys threshold k).err.isNone →
          Emits g seed maxLevel threshold k
            (write disk sorter orderS path (score orderA leveled.levels leveled.adjacency) leveled.levels leveled.pubkeys threshold k) := by
  obtain ⟨leveled,returned,last,rest,stopped⟩ := level_stops expands seed maxLevel (le_refl (g.targets.card + 2))
  refine ⟨leveled,?_,stopped.levels,stopped.reachable,?_⟩
  · intro fuel enough
    exact level_more returned enough
  · intro orderA
    refine ⟨?_,?_⟩
    · intro v kept
      exact ⟨stopped.score_exact orderA kept,(stopped.scored kept).mpr⟩
    · intro disk sorter orderS path threshold k distinct clean
      exact stopped.write orderA orderS disk sorter path threshold k distinct clean

-- An expander over a list of edges that answers for every node asked for.
def fetch (edges : List (Str × Str)) (pubkey : Str → Str) : FrontierExpander ε := fun frontier =>
  .ok (frontier.map fun u => ⟨u,pubkey u,(edges.filter fun edge => edge.1 = u).map fun edge => ⟨edge.2,pubkey edge.2⟩⟩)

def graphOf (edges : List (Str × Str)) (pubkey : Str → Str) : FollowGraph := ⟨edges.toFinset,pubkey⟩

theorem fetch_expands (edges : List (Str × Str)) (distinct : edges.Nodup) (pubkey : Str → Str) :
    Expands (graphOf edges pubkey) (fetch edges pubkey : FrontierExpander ε) := by
  intro frontier _ once
  have asked : edgesOf (frontier.map fun u =>
      (⟨u,pubkey u,(edges.filter fun edge => edge.1 = u).map fun edge => ⟨edge.2,pubkey edge.2⟩⟩ : FrontierResult)) =
      frontier.flatMap fun u => edges.filter fun edge => edge.1 = u := by
    unfold edgesOf
    rw [List.flatMap_map]
    congr 1
    funext u
    rw [List.map_map]
    refine (List.map_congr_left ?_).trans (List.map_id _)
    intro edge member
    rw [← of_decide_eq_true (List.mem_filter.mp member).2]
    rfl
  refine ⟨_,rfl,?_,?_,?_⟩
  · rw [asked,List.nodup_flatMap]
    refine ⟨fun u _ => distinct.filter _,?_⟩
    refine once.imp ?_
    intro u w apart edge first second
    apply apart
    rw [← of_decide_eq_true (List.mem_filter.mp first).2,← of_decide_eq_true (List.mem_filter.mp second).2]
  · intro u v
    rw [asked,List.mem_flatMap]
    unfold FollowGraph.Follows graphOf
    rw [List.mem_toFinset]
    constructor
    · intro found
      obtain ⟨w,member,listed⟩ := found
      obtain ⟨edge,same⟩ := List.mem_filter.mp listed
      have here := of_decide_eq_true same
      rw [← here] at member
      exact ⟨member,edge⟩
    · intro both
      exact ⟨u,both.1,List.mem_filter.mpr ⟨both.2,decide_eq_true rfl⟩⟩
  · intro r listed
    obtain ⟨u,_,same⟩ := List.mem_map.mp listed
    rw [← same]
    refine ⟨rfl,?_⟩
    intro edge member
    obtain ⟨_,_,equal⟩ := List.mem_map.mp member
    rw [← equal]
    rfl

end Explore

-- A diamond with a self-follow, a way back and a node below the cap.
def diamond : List (Str × Str) := [([0],[1]),([0],[2]),([1],[3]),([2],[3]),([1],[1]),([3],[1]),([3],[4])]

def nameless (u : Str) : Str := if u = [2] then [] else 7 :: u

def asListed {ν : Type} : Tally.Order (Σ _ : Str, ν) := ⟨id,fun _ => .refl _⟩

instance : Std.Total fun a b : Record => a.pubkey ≤ b.pubkey := ⟨fun a b => le_total a.pubkey b.pubkey⟩

instance : IsTrans Record fun a b => a.pubkey ≤ b.pubkey := ⟨fun _ _ _ first second => le_trans first second⟩

def byPubkey : SortSlice where
  sort records := records.insertionSort fun a b => a.pubkey ≤ b.pubkey
  complete _ := List.perm_insertionSort _ _
  sorted _ := List.pairwise_insertionSort _ _

def roomy : Disk Unit := ⟨fun _ => none,fun _ _ => none⟩

def writtenOf : Option (Except Unit Leveled) → Written Unit
  | some (.ok leveled) => write roomy byPubkey asListed [] (score asListed leveled.levels leveled.adjacency) leveled.levels leveled.pubkeys 2 0
  | _ => ⟨[],0,some (.create [] ())⟩

def scoreAt (target : Str) : Option (Except Unit Leveled) → Nat
  | some (.ok leveled) => ((score asListed leveled.levels leveled.adjacency).lookup target).getD 0
  | _ => 0

theorem nameless_distinct : (graphOf diamond nameless).Distinct := by
  intro u v
  change nameless u ≠ [] → nameless u = nameless v → u = v
  unfold nameless
  split
  · intro full
    exact absurd rfl full
  · intro _ same
    split at same
    · cases same
    · exact (List.cons.inj same).2

theorem explore_exact_diamond : (graphOf diamond nameless).validFollowers [0] [3] = 2 ∧ (graphOf diamond nameless).validFollowers [0] [1] = 1 ∧
    ∃ written : Written Unit, written.lines = [⟨[7,1],1⟩] ∧ Emits (graphOf diamond nameless) [0] 2 2 0 written := by
  have expands : Expands (graphOf diamond nameless) (fetch diamond nameless : FrontierExpander Unit) := fetch_expands diamond (by decide) nameless
  obtain ⟨leveled,returned,levelled,_,scored⟩ := @explore_exact Unit Unit (graphOf diamond nameless) _ expands [0] 2
  have run := returned 9 (by decide +kernel)
  have kept : ([3] : Str) ∈ leveled.levels ∧ ([1] : Str) ∈ leveled.levels := by
    have members : (match level (fetch diamond nameless : FrontierExpander Unit) [0] 2 9 with
        | some (.ok walked) => decide (([3] : Str) ∈ walked.levels ∧ ([1] : Str) ∈ walked.levels)
        | _ => false) = true := by decide +kernel
    rw [run] at members
    exact of_decide_eq_true members
  have deep : scoreAt [3] (level (fetch diamond nameless) [0] 2 9) = 2 := by decide +kernel
  have near : scoreAt [1] (level (fetch diamond nameless) [0] 2 9) = 1 := by decide +kernel
  have lines : (writtenOf (level (fetch diamond nameless) [0] 2 9)).lines = [⟨[7,1],1⟩] := by decide +kernel
  have clean : (writtenOf (level (fetch diamond nameless) [0] 2 9)).err.isNone = true := by decide +kernel
  rw [run] at deep near lines clean
  refine ⟨?_,?_,_,lines,(scored asListed).2 roomy byPubkey asListed [] 2 0 nameless_distinct clean⟩
  · rw [← ((scored asListed).1 [3] kept.1).1]
    exact deep
  · rw [← ((scored asListed).1 [1] kept.2).1]
    exact near

end DeepFry.SpamExplorer
