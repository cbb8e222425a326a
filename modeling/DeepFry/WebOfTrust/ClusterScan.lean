import DeepFry.Lib.Hops
import DeepFry.Lib.Rounding
import DeepFry.WebOfTrust.Graph
import DeepFry.WebOfTrust.TrustClosure

namespace DeepFry.WebOfTrust.ClusterScan
open Trust (Round propagate endorsed)

-- clusterscan from the seeds to the ranked reports. A node is its uid; a node without a pubkey has the empty one.
variable {V : Type} [DecidableEq V]

structure WeakBridge (V : Type) where
  uid : V
  pubkey : Str
  kind3CreatedAt : Int
  trustedFollowers : Nat
  trustedFollowees : Nat
  weight : Nat

structure ClusterNode (V : Type) where
  uid : V
  pubkey : Str

-- The nested answer of an @recurse query.
inductive RecurseNode (V : Type) where
  | node (uid : V) (pubkey : Str) (follows : List (RecurseNode V))

structure Report (V : Type) where
  pubkey : Str
  weight : Nat
  trustedFollowers : Nat
  trustedFollowees : Nat
  clusterSize : Nat
  score : ℚ
  kind3CreatedAt : Int
  members : List (ClusterNode V)

structure Flags where
  k : Int
  depth : Int
  maxWeight : Int
  minCluster : Int
  bridgeLimit : Int
  withMembers : Bool

-- What the client sees of Dgraph: the answers of its queries and the orders of its maps. beneath: none where the query fails.
structure Store (V : Type) where
  nodes : List Str → List (V × Str)
  rounds : Nat → Round V
  keysOf : Finset V → List V
  bridges : List V → Int → Int → List (WeakBridge V)
  beneath : V → Int → Option (List (RecurseNode V))

-- out[n.Pubkey] = n.UID
def resolvePubkeysToUIDs (query : List Str → List (V × Str)) (pubkeys : List Str) : AList fun _ : Str => V :=
  if pubkeys = [] then ∅ else (query pubkeys).foldl (fun out n => out.insert n.2 n.1) ∅

def getWeakBridges (query : List V → Int → Int → List (WeakBridge V)) (trustedUIDs : List V) (maxWeight limit : Int) :
    List (WeakBridge V) × Bool :=
  if trustedUIDs = [] then ([],false)
  else
    let bridges := query trustedUIDs maxWeight limit
    (bridges,decide (limit ≤ bridges.length))

structure Found (V : Type) where
  seen : List V
  members : List (ClusterNode V)

def meet (s : Found V) (n : ClusterNode V) : Found V := if n.uid ∈ s.seen then s else ⟨n.uid :: s.seen,s.members ++ [n]⟩

mutual
def walkNode (s : Found V) : RecurseNode V → Found V
  | .node uid pubkey follows => walk (meet s ⟨uid,pubkey⟩) follows

def walk (s : Found V) : List (RecurseNode V) → Found V
  | [] => s
  | n :: rest => walk (walkNode s n) rest
end

def RecurseNode.follows : RecurseNode V → List (RecurseNode V)
  | .node _ _ follows => follows

def clusterBeneath (sub : List (RecurseNode V)) (bridgeUID : V) : List (ClusterNode V) :=
  match sub with
  | [] => []
  | root :: _ => (walk ⟨[bridgeUID],[]⟩ root.follows).members

-- One pass of the loop over the bridges.
def size (flags : Flags) (store : Store V) (trusted : Finset V) (b : WeakBridge V) : Option (Report V) :=
  match store.beneath b.uid flags.depth with
  | none => none
  | some sub =>
    let cluster := (clusterBeneath sub b.uid).filter fun m => m.uid ∉ trusted
    if (cluster.length : Int) < flags.minCluster then none
    else some {
      pubkey := b.pubkey
      weight := b.weight
      trustedFollowers := b.trustedFollowers
      trustedFollowees := b.trustedFollowees
      clusterSize := cluster.length
      score := Rounding.divide cluster.length b.weight
      kind3CreatedAt := b.kind3CreatedAt
      members := if flags.withMembers then cluster else []
    }

def before (a b : Report V) : Prop := if a.score ≠ b.score then b.score < a.score else b.clusterSize < a.clusterSize

-- sort.Slice; equal reports may come in any order.
structure SortSlice (V : Type) where
  sort : List (Report V) → List (Report V)
  complete : ∀ reports, (sort reports).Perm reports
  sorted : ∀ reports, (sort reports).Pairwise fun a b => ¬before b a

inductive Outcome (V : Type) where
  | noSeeds
  | reports (reports : List (Report V)) (truncated : Bool)

def seedSet (resolved : AList fun _ : Str => V) : Finset V := (resolved.entries.map fun entry => entry.2).toFinset

def clusterscan (flags : Flags) (store : Store V) (sorter : SortSlice V) (seedPubkeys : List Str) (fuel : Nat) : Option (Outcome V) :=
  let seeds := seedSet (resolvePubkeysToUIDs store.nodes seedPubkeys)
  if seeds = ∅ then some .noSeeds
  else
    (propagate store.rounds flags.k fuel 1 seeds).map fun trusted =>
      let (bridges,truncated) := getWeakBridges store.bridges (store.keysOf trusted) flags.maxWeight flags.bridgeLimit
      .reports (sorter.sort (bridges.filterMap (size flags store trusted))) truncated

section Flatten
variable {s : Found V}

mutual
def RecurseNode.preorder : RecurseNode V → List (ClusterNode V)
  | .node uid pubkey follows => ⟨uid,pubkey⟩ :: below follows

-- The nodes of some trees, each as often as it is shown.
def below : List (RecurseNode V) → List (ClusterNode V)
  | [] => []
  | n :: rest => n.preorder ++ below rest
end

mutual
theorem walkNode_preorder (s : Found V) : (n : RecurseNode V) → walkNode s n = n.preorder.foldl meet s
  | .node uid pubkey follows => by
    rw [walkNode,RecurseNode.preorder,List.foldl_cons]
    exact walk_below _ follows

theorem walk_below (s : Found V) : (nodes : List (RecurseNode V)) → walk s nodes = (below nodes).foldl meet s
  | [] => by
    rw [walk,below]
    rfl
  | n :: rest => by
    rw [walk,below,List.foldl_append,walkNode_preorder s n]
    exact walk_below _ rest
end

-- Each uid of a list that was not seen before is met once.
structure Met (s : Found V) (nodes : List (ClusterNode V)) (after : Found V) : Prop where
  members : ∀ v, v ∈ after.members.map ClusterNode.uid ↔ v ∈ s.members.map ClusterNode.uid ∨ v ∈ nodes.map ClusterNode.uid ∧ v ∉ s.seen
  shown : ∀ m ∈ after.members, m ∈ s.members ∨ m ∈ nodes
  distinct : (after.members.map ClusterNode.uid).Nodup

theorem fold_met (nodes : List (ClusterNode V)) (known : ∀ v ∈ s.members.map ClusterNode.uid, v ∈ s.seen)
    (distinct : (s.members.map ClusterNode.uid).Nodup) : Met s nodes (nodes.foldl meet s) := by
  induction nodes generalizing s with
  | nil => exact ⟨fun v => by simp,fun m member => .inl member,distinct⟩
  | cons n rest ih =>
    rw [List.foldl_cons,meet]
    split
    · next dup =>
      obtain ⟨members,shown,distinct⟩ := ih known distinct
      refine ⟨fun v => ?_,fun m member => (shown m member).imp_right (List.mem_cons_of_mem _),distinct⟩
      rw [members v,List.map_cons,List.mem_cons]
      constructor
      · exact fun held => held.imp_right fun both => ⟨.inr both.1,both.2⟩
      · rintro (old | ⟨rfl | later,unseen⟩)
        · exact .inl old
        · exact absurd dup unseen
        · exact .inr ⟨later,unseen⟩
    · next fresh =>
      have grown : ∀ v ∈ (s.members ++ [n]).map ClusterNode.uid, v ∈ n.uid :: s.seen := by
        intro v member
        rw [List.map_append,List.mem_append] at member
        rcases member with old | new
        · exact List.mem_cons_of_mem _ (known v old)
        · rw [List.mem_singleton.mp new]
          exact List.mem_cons_self
      have apart : ((s.members ++ [n]).map ClusterNode.uid).Nodup := by
        rw [List.map_append]
        refine distinct.append (List.nodup_singleton _) fun v old new => ?_
        rw [List.mem_singleton.mp new] at old
        exact fresh (known _ old)
      obtain ⟨members,shown,distinct⟩ := @ih ⟨n.uid :: s.seen,s.members ++ [n]⟩ grown apart
      refine ⟨fun v => ?_,fun m member => ?_,distinct⟩
      · rw [members v]
        simp only [List.map_append,List.map_cons,List.map_nil,List.mem_append,List.mem_cons,List.not_mem_nil,or_false]
        by_cases same : v = n.uid
        · subst same
          simp [fresh]
        · simp [same]
      · rcases shown m member with old | later
        · rcases List.mem_append.mp old with old | new
          · exact .inl old
          · exact .inr (List.mem_cons.mpr (.inl (List.mem_singleton.mp new)))
        · exact .inr (List.mem_cons_of_mem _ later)

end Flatten

-- The graph: its follows, its pubkeys and the times of its follow lists.
structure Accounts (V : Type) where
  follows : Finset (V × V)
  pubkey : V → Str
  kind3CreatedAt : V → Int
  unique : ∀ u v, pubkey u ≠ [] → pubkey u = pubkey v → u = v

namespace Accounts
variable (g : Accounts V) (trusted : Finset V)

-- The follows that count for trust: the candidates of ExpandTrustedSet have a pubkey.
def endorsements : Finset (V × V) := g.follows.filter fun edge => g.pubkey edge.2 ≠ []

def trustedFollowers (v : V) : Nat := (g.follows.filter fun edge => edge.2 = v ∧ edge.1 ∈ trusted).card

def trustedFollowees (v : V) : Nat := (g.follows.filter fun edge => edge.1 = v ∧ edge.2 ∈ trusted).card

def weight (v : V) : Nat := g.trustedFollowers trusted v + g.trustedFollowees trusted v

-- An account outside the trusted set with few edges into it or out of it.
def Weak (maxWeight : Int) (v : V) : Prop :=
  g.pubkey v ≠ [] ∧ v ∉ trusted ∧ 1 ≤ g.weight trusted v ∧ (g.weight trusted v : Int) ≤ maxWeight

-- The untrusted nodes within some hops of a bridge, the walk through trusted ones included.
def cluster (hops : Nat) (b : V) : Set V :=
  {v | v ≠ b ∧ v ∉ trusted ∧ ∃ n, 1 ≤ n ∧ n ≤ hops ∧ Hops.Walk (fun u v => (u,v) ∈ g.follows) b n v}

def bridge (v : V) : WeakBridge V :=
  ⟨v,g.pubkey v,g.kind3CreatedAt v,g.trustedFollowers trusted v,g.trustedFollowees trusted v,g.weight trusted v⟩

end Accounts

-- What Dgraph answers, over a graph that stands still: hops is what it makes of the depth.
structure Answers (g : Accounts V) (flags : Flags) (hops : Nat) (seedPubkeys : List Str) (store : Store V) : Prop where
  nodes : ∀ v pk, (v,pk) ∈ store.nodes seedPubkeys ↔ pk ∈ seedPubkeys ∧ pk ≠ [] ∧ g.pubkey v = pk
  rounds : ∀ round, (store.rounds round).Exact g.endorsements flags.k
  keys : ∀ trusted v, v ∈ store.keysOf trusted ↔ v ∈ trusted
  bridges : ∀ trusted, ∃ all : List V, all.Nodup ∧ (∀ v, v ∈ all ↔ g.Weak trusted flags.maxWeight v) ∧
    all.Pairwise (fun u v => g.pubkey u ≤ g.pubkey v) ∧
    store.bridges (store.keysOf trusted) flags.maxWeight flags.bridgeLimit = (all.take flags.bridgeLimit.toNat).map (g.bridge trusted)
  beneath : ∀ b root rest, store.beneath b flags.depth = some (root :: rest) →
    (∀ v, v ≠ b → (v ∈ (below root.follows).map ClusterNode.uid ↔ ∃ n, 1 ≤ n ∧ n ≤ hops ∧ Hops.Walk (fun u v => (u,v) ∈ g.follows) b n v)) ∧
    ∀ m ∈ below root.follows, m.pubkey = g.pubkey m.uid
  rooted : ∀ b, store.beneath b flags.depth ≠ some []

-- A report of the bridge b.
structure Reports (g : Accounts V) (flags : Flags) (hops : Nat) (trusted : Finset V) (b : V) (r : Report V) : Prop where
  pubkey : r.pubkey = g.pubkey b
  weight : r.weight = g.weight trusted b
  trustedFollowers : r.trustedFollowers = g.trustedFollowers trusted b
  trustedFollowees : r.trustedFollowees = g.trustedFollowees trusted b
  clusterSize : r.clusterSize = (g.cluster trusted hops b).ncard
  large : flags.minCluster ≤ r.clusterSize
  score : r.score = Rounding.divide r.clusterSize r.weight
  kind3CreatedAt : r.kind3CreatedAt = g.kind3CreatedAt b
  members : if flags.withMembers then (r.members.map ClusterNode.uid).Nodup ∧ (∀ m ∈ r.members, m.pubkey = g.pubkey m.uid) ∧
    ∀ v, v ∈ r.members.map ClusterNode.uid ↔ v ∈ g.cluster trusted hops b else r.members = []

section Scan
variable {g : Accounts V} {flags : Flags} {hops : Nat} {seedPubkeys : List Str} {store : Store V} {trusted : Finset V} {b : V}

theorem clusterBeneath_exact (answers : Answers g flags hops seedPubkeys store) {sub : List (RecurseNode V)}
    (answered : store.beneath b flags.depth = some sub) :
    (((clusterBeneath sub b).filter fun m => m.uid ∉ trusted).map ClusterNode.uid).Nodup ∧
    (∀ m ∈ (clusterBeneath sub b).filter fun m => m.uid ∉ trusted, m.pubkey = g.pubkey m.uid) ∧
    ∀ v, v ∈ ((clusterBeneath sub b).filter fun m => m.uid ∉ trusted).map ClusterNode.uid ↔ v ∈ g.cluster trusted hops b := by
  cases sub with
  | nil => exact absurd answered (answers.rooted b)
  | cons root rest =>
    obtain ⟨walked,named⟩ := answers.beneath b root rest answered
    have met := @fold_met V _ ⟨[b],[]⟩ (below root.follows) (fun v member => absurd member List.not_mem_nil) List.nodup_nil
    rw [← walk_below] at met
    obtain ⟨members,shown,distinct⟩ := met
    have part : ((clusterBeneath (root :: rest) b).filter fun m => m.uid ∉ trusted).map ClusterNode.uid =
        ((walk ⟨[b],[]⟩ root.follows).members.map ClusterNode.uid).filter fun v => v ∉ trusted := by
      rw [List.filter_map]
      rfl
    refine ⟨?_,fun m member => ?_,fun v => ?_⟩
    · rw [part]
      exact distinct.filter _
    · exact named m ((shown m (List.mem_filter.mp member).1).resolve_left List.not_mem_nil)
    · rw [part,List.mem_filter,members v]
      simp only [List.map_nil,List.not_mem_nil,false_or,List.mem_singleton,decide_eq_true_eq]
      constructor
      · exact fun held => ⟨held.1.2,held.2,(walked v held.1.2).mp held.1.1⟩
      · exact fun held => ⟨⟨(walked v held.1).mpr held.2.2,held.1⟩,held.2.1⟩

theorem clusterBeneath_count (answers : Answers g flags hops seedPubkeys store) {sub : List (RecurseNode V)}
    (answered : store.beneath b flags.depth = some sub) :
    ((clusterBeneath sub b).filter fun m => m.uid ∉ trusted).length = (g.cluster trusted hops b).ncard := by
  obtain ⟨distinct,-,exact_⟩ := @clusterBeneath_exact V _ g flags hops seedPubkeys store trusted b answers sub answered
  have same : ((((clusterBeneath sub b).filter fun m => m.uid ∉ trusted).map ClusterNode.uid).toFinset : Set V) = g.cluster trusted hops b := by
    ext v
    rw [List.coe_toFinset]
    exact exact_ v
  rw [← same,Set.ncard_coe_finset,List.toFinset_card_of_nodup distinct,List.length_map]

theorem size_some (answers : Answers g flags hops seedPubkeys store) {r : Report V} (sized : size flags store trusted (g.bridge trusted b) = some r) :
    Reports g flags hops trusted b r := by
  unfold size at sized
  change (match store.beneath b flags.depth with | none => none | some sub => _) = some r at sized
  split at sized
  · cases sized
  · next sub answered =>
    obtain ⟨distinct,named,exact_⟩ := @clusterBeneath_exact V _ g flags hops seedPubkeys store trusted b answers sub answered
    change (if (((clusterBeneath sub b).filter fun m => m.uid ∉ trusted).length : Int) < flags.minCluster then none else _) = some r at sized
    split at sized
    · cases sized
    · next large =>
      cases sized
      refine ⟨rfl,rfl,rfl,rfl,clusterBeneath_count answers answered,not_lt.mp large,rfl,rfl,?_⟩
      split
      · exact ⟨distinct,named,exact_⟩
      · rfl

theorem size_large (answers : Answers g flags hops seedPubkeys store) (answered : (store.beneath b flags.depth).isSome = true)
    (large : flags.minCluster ≤ (g.cluster trusted hops b).ncard) : ∃ r, size flags store trusted (g.bridge trusted b) = some r := by
  obtain ⟨sub,answered⟩ := Option.isSome_iff_exists.mp answered
  have enough : ¬(((clusterBeneath sub b).filter fun m => m.uid ∉ trusted).length : Int) < flags.minCluster := by
    rw [@clusterBeneath_count V _ g flags hops seedPubkeys store trusted b answers sub answered]
    exact not_lt.mpr large
  unfold size
  change ∃ r, (match store.beneath b flags.depth with | none => none | some sub => _) = some r
  rw [answered]
  exact ⟨_,if_neg enough⟩

omit [DecidableEq V] in
-- The map holds the last uid of each pubkey; with unique pubkeys that is its only one.
theorem resolved_entries (nodes : List (V × Str)) (start : AList fun _ : Str => V) (named : ∀ n ∈ nodes, n.2 ≠ [] ∧ g.pubkey n.1 = n.2)
    (known : ∀ pk v, start.lookup pk = some v → pk ≠ [] ∧ g.pubkey v = pk) (pk : Str) (v : V) :
    (nodes.foldl (fun out n => out.insert n.2 n.1) start).lookup pk = some v ↔ start.lookup pk = some v ∨ (v,pk) ∈ nodes := by
  induction nodes generalizing start with
  | nil => simp
  | cons n rest ih =>
    obtain ⟨given,own⟩ := named n List.mem_cons_self
    have inserted : ∀ pk v, (start.insert n.2 n.1).lookup pk = some v ↔ start.lookup pk = some v ∨ (v,pk) = n := by
      intro pk v
      by_cases same : pk = n.2
      · subst same
        rw [AList.lookup_insert,Option.some.injEq]
        constructor
        · rintro rfl
          exact .inr rfl
        · rintro (old | new)
          · exact g.unique _ _ (by rw [own]; exact given) (own.trans (known _ _ old).2.symm)
          · rw [← new]
      · rw [AList.lookup_insert_ne same]
        exact ⟨.inl,fun either => either.resolve_right fun new => same (by rw [← new])⟩
    rw [List.foldl_cons,ih (start.insert n.2 n.1) (fun m member => named m (List.mem_cons_of_mem _ member)),inserted,List.mem_cons,or_assoc]
    intro pk v found
    rcases (inserted pk v).mp found with old | new
    · exact known pk v old
    · rw [← new] at given own
      exact ⟨given,own⟩

theorem seedSet_exact (answers : Answers g flags hops seedPubkeys store) (v : V) :
    v ∈ seedSet (resolvePubkeysToUIDs store.nodes seedPubkeys) ↔ g.pubkey v ∈ seedPubkeys ∧ g.pubkey v ≠ [] := by
  have held : ∀ resolved : AList fun _ : Str => V, v ∈ seedSet resolved ↔ ∃ pk, resolved.lookup pk = some v := by
    intro resolved
    unfold seedSet
    rw [List.mem_toFinset,List.mem_map]
    constructor
    · rintro ⟨entry,member,rfl⟩
      exact ⟨entry.1,AList.mem_lookup_iff.mpr member⟩
    · rintro ⟨pk,found⟩
      exact ⟨⟨pk,v⟩,AList.mem_lookup_iff.mp found,rfl⟩
  rw [held]
  unfold resolvePubkeysToUIDs
  split
  · next empty =>
    rw [empty]
    simp [AList.lookup_empty]
  · have named : ∀ n ∈ store.nodes seedPubkeys, n.2 ≠ [] ∧ g.pubkey n.1 = n.2 := fun n member => ((answers.nodes n.1 n.2).mp member).2
    have entries := resolved_entries (store.nodes seedPubkeys) ∅ named fun pk v found => by
      rw [AList.lookup_empty] at found
      cases found
    constructor
    · rintro ⟨pk,found⟩
      have member := ((entries pk v).mp found).resolve_left fun none_held => by
        rw [AList.lookup_empty] at none_held
        cases none_held
      obtain ⟨among,given,rfl⟩ := (answers.nodes v pk).mp member
      exact ⟨among,given⟩
    · rintro ⟨among,given⟩
      exact ⟨g.pubkey v,(entries _ v).mpr (.inr ((answers.nodes v _).mpr ⟨among,given,rfl⟩))⟩

-- A sorted list of distinct accounts shows each one early that few come before.
theorem early_shown {all : List V} {limit : Nat} (distinct : all.Nodup) (sorted : all.Pairwise fun u v => g.pubkey u ≤ g.pubkey v)
    (member : b ∈ all) (few : ({v | v ∈ all ∧ g.pubkey v ≤ g.pubkey b} : Set V).ncard ≤ limit) : b ∈ all.take limit := by
  obtain ⟨front,back,split⟩ := List.append_of_mem member
  have first : ∀ v ∈ front, g.pubkey v ≤ g.pubkey b := fun v early => by
    rw [split,List.pairwise_append] at sorted
    exact sorted.2.2 v early b List.mem_cons_self
  have part : ((front ++ [b]).toFinset : Set V) ⊆ {v | v ∈ all ∧ g.pubkey v ≤ g.pubkey b} := by
    intro v early
    rw [List.coe_toFinset] at early
    rcases List.mem_append.mp early with early | own
    · exact ⟨by rw [split]; exact List.mem_append_left _ early,first v early⟩
    · rw [List.mem_singleton.mp own]
      exact ⟨member,le_refl _⟩
  have finite : ({v | v ∈ all ∧ g.pubkey v ≤ g.pubkey b} : Set V).Finite := all.toFinset.finite_toSet.subset fun v held => by
    rw [List.coe_toFinset]
    exact held.1
  have counted := Set.ncard_le_ncard part finite
  have once : (front ++ [b]).Nodup := by
    rw [split,List.append_cons] at distinct
    exact distinct.of_append_left
  rw [Set.ncard_coe_finset,List.toFinset_card_of_nodup once,List.length_append,List.length_singleton] at counted
  have shown : front ++ [b] <+: all.take limit := by
    refine List.prefix_take_iff.mpr ⟨⟨back,?_⟩,by simpa using counted.trans few⟩
    rw [split,List.append_assoc,List.singleton_append]
  exact shown.subset (List.mem_append_right _ List.mem_cons_self)

-- What the reports say of a trusted set.
structure Scanned (g : Accounts V) (flags : Flags) (hops : Nat) (store : Store V) (trusted : Finset V) (reports : List (Report V))
    (truncated : Bool) : Prop where
  warned : truncated = true ↔ flags.bridgeLimit ≤ ({v | g.Weak trusted flags.maxWeight v} : Set V).ncard
  sound : ∀ r ∈ reports, ∃ b, g.Weak trusted flags.maxWeight b ∧ Reports g flags hops trusted b r
  complete : ∀ b, g.Weak trusted flags.maxWeight b → (store.beneath b flags.depth).isSome = true →
    flags.minCluster ≤ (g.cluster trusted hops b).ncard →
    (({v | g.Weak trusted flags.maxWeight v ∧ g.pubkey v ≤ g.pubkey b} : Set V).ncard : Int) ≤ flags.bridgeLimit →
      ∃ r ∈ reports, Reports g flags hops trusted b r
  once : (reports.map Report.pubkey).Nodup
  ranked : reports.Pairwise fun a b => ¬before b a

theorem seeds_set (answers : Answers g flags hops seedPubkeys store) :
    (seedSet (resolvePubkeysToUIDs store.nodes seedPubkeys) : Set V) = {v | g.pubkey v ∈ seedPubkeys ∧ g.pubkey v ≠ []} := by
  ext v
  exact seedSet_exact answers v

-- The bridges that are fetched: the first of the weak accounts by pubkey.
theorem bridges_fetched (answers : Answers g flags hops seedPubkeys store) (some_trusted : trusted.Nonempty) (limited : 1 ≤ flags.bridgeLimit) :
    ∃ all : List V, all.Nodup ∧ (∀ v, v ∈ all ↔ g.Weak trusted flags.maxWeight v) ∧ all.Pairwise (fun u v => g.pubkey u ≤ g.pubkey v) ∧
      getWeakBridges store.bridges (store.keysOf trusted) flags.maxWeight flags.bridgeLimit =
        ((all.take flags.bridgeLimit.toNat).map (g.bridge trusted),
          decide (flags.bridgeLimit ≤ ({v | g.Weak trusted flags.maxWeight v} : Set V).ncard)) := by
  obtain ⟨all,distinct,weak,sorted,answer⟩ := answers.bridges trusted
  obtain ⟨v,member⟩ := some_trusted
  have given : store.keysOf trusted ≠ [] := List.ne_nil_of_mem ((answers.keys trusted v).mpr member)
  have counted : ({v | g.Weak trusted flags.maxWeight v} : Set V).ncard = all.length := by
    have same : ({v | g.Weak trusted flags.maxWeight v} : Set V) = all.toFinset := by
      ext v
      rw [List.coe_toFinset]
      exact (weak v).symm
    rw [same,Set.ncard_coe_finset,List.toFinset_card_of_nodup distinct]
  have cut : flags.bridgeLimit ≤ (((all.take flags.bridgeLimit.toNat).map (g.bridge trusted)).length : Int) ↔ flags.bridgeLimit ≤ all.length := by
    rw [List.length_map,List.length_take]
    omega
  refine ⟨all,distinct,weak,sorted,?_⟩
  rw [getWeakBridges,if_neg given,answer,counted]
  dsimp only
  rw [decide_eq_decide.mpr cut]

omit [DecidableEq V] in
-- The names of what is found are among the names of what is searched, in order.
theorem filterMap_named {α : Type} {find : α → Option (Report V)} {name : α → Str} (named : ∀ a r, find a = some r → r.pubkey = name a)
    (searched : List α) : ((searched.filterMap find).map Report.pubkey).Sublist (searched.map name) := by
  induction searched with
  | nil => exact List.Sublist.refl _
  | cons a rest ih =>
    cases found : find a with
    | none =>
      rw [List.filterMap_cons_none found,List.map_cons]
      exact ih.cons _
    | some r =>
      rw [List.filterMap_cons_some found,List.map_cons,List.map_cons,named a r found]
      exact ih.cons_cons _

theorem reports_once (answers : Answers g flags hops seedPubkeys store) {shown : List V} (distinct : shown.Nodup)
    (weak : ∀ v ∈ shown, g.Weak trusted flags.maxWeight v) :
    (((shown.map (g.bridge trusted)).filterMap (size flags store trusted)).map Report.pubkey).Nodup := by
  have named : ∀ v r, (size flags store trusted ∘ g.bridge trusted) v = some r → r.pubkey = g.pubkey v :=
    fun _ _ reported => (size_some answers reported).pubkey
  have apart : (shown.map g.pubkey).Nodup := distinct.map_on fun u member v _ same => g.unique u v (weak u member).1 same
  rw [List.filterMap_map]
  exact apart.sublist (filterMap_named named shown)

theorem reports_scanned (answers : Answers g flags hops seedPubkeys store) (sorter : SortSlice V) (some_trusted : trusted.Nonempty)
    (limited : 1 ≤ flags.bridgeLimit) :
    Scanned g flags hops store trusted
      (sorter.sort ((getWeakBridges store.bridges (store.keysOf trusted) flags.maxWeight flags.bridgeLimit).1.filterMap (size flags store trusted)))
      (getWeakBridges store.bridges (store.keysOf trusted) flags.maxWeight flags.bridgeLimit).2 := by
  obtain ⟨all,distinct,weak,sorted,fetched⟩ := bridges_fetched answers some_trusted limited
  rw [fetched]
  have listed : ∀ r, r ∈ sorter.sort (((all.take flags.bridgeLimit.toNat).map (g.bridge trusted)).filterMap (size flags store trusted)) ↔
      ∃ b ∈ all.take flags.bridgeLimit.toNat, size flags store trusted (g.bridge trusted b) = some r := by
    intro r
    rw [(sorter.complete _).mem_iff,List.filterMap_map,List.mem_filterMap]
    rfl
  refine ⟨decide_eq_true_iff,fun r member => ?_,fun b bridge answered large few => ?_,?_,sorter.sorted _⟩
  · obtain ⟨b,early,reported⟩ := (listed r).mp member
    exact ⟨b,(weak b).mp (List.mem_of_mem_take early),size_some answers reported⟩
  · obtain ⟨r,reported⟩ := @size_large V _ g flags hops seedPubkeys store trusted b answers answered large
    refine ⟨r,(listed r).mpr ⟨b,?_,reported⟩,size_some answers reported⟩
    have part : ({v | v ∈ all ∧ g.pubkey v ≤ g.pubkey b} : Set V) = {v | g.Weak trusted flags.maxWeight v ∧ g.pubkey v ≤ g.pubkey b} := by
      ext v
      exact and_congr_left fun _ => weak v
    apply early_shown distinct sorted ((weak b).mpr bridge)
    rw [part]
    omega
  · have once := reports_once answers (distinct.sublist (List.take_sublist flags.bridgeLimit.toNat all))
      fun v early => (weak v).mp (List.mem_of_mem_take early)
    exact ((sorter.complete _).map Report.pubkey).nodup_iff.mpr once

-- From the seeds on: the scan ends with the least trusted set, whatever the order of the maps, and reports the weak accounts around it.
theorem clusterscan_exact (answers : Answers g flags hops seedPubkeys store) (sorter : SortSlice V) (positive : 1 ≤ flags.k)
    (limited : 1 ≤ flags.bridgeLimit) :
    ((∀ v, g.pubkey v ≠ [] → g.pubkey v ∉ seedPubkeys) → ∀ fuel, clusterscan flags store sorter seedPubkeys fuel = some .noSeeds) ∧
    ((∃ v, g.pubkey v ≠ [] ∧ g.pubkey v ∈ seedPubkeys) → ∃ trusted : Finset V,
      IsLeast {s | {v | g.pubkey v ∈ seedPubkeys ∧ g.pubkey v ≠ []} ⊆ s ∧ Trust.Closed g.endorsements flags.k s} (trusted : Set V) ∧
      ∃ reports truncated, (∃ fuel, clusterscan flags store sorter seedPubkeys fuel = some (.reports reports truncated)) ∧
        (∀ fuel outcome, clusterscan flags store sorter seedPubkeys fuel = some outcome → outcome = .reports reports truncated) ∧
        Scanned g flags hops store trusted reports truncated) := by
  have seeds := seeds_set answers
  constructor
  · intro none_known fuel
    have empty : seedSet (resolvePubkeysToUIDs store.nodes seedPubkeys) = ∅ := by
      apply Finset.coe_injective
      rw [seeds,Finset.coe_empty,Set.eq_empty_iff_forall_notMem]
      exact fun v both => none_known v both.2 both.1
    rw [clusterscan,if_pos empty]
  · rintro ⟨v,given,known⟩
    have first : v ∈ seedSet (resolvePubkeysToUIDs store.nodes seedPubkeys) := (seedSet_exact answers v).mpr ⟨known,given⟩
    have some_seed : seedSet (resolvePubkeysToUIDs store.nodes seedPubkeys) ≠ ∅ := Finset.ne_empty_of_mem first
    obtain ⟨enough,trusted,returned⟩ := Trust.propagate_ends answers.rounds positive (seedSet (resolvePubkeysToUIDs store.nodes seedPubkeys))
    have reached := Trust.propagate_closure answers.rounds positive Closure.Between.refl returned
    have least := Closure.closure_least (seedSet (resolvePubkeysToUIDs store.nodes seedPubkeys) : Set V) (endorsed g.endorsements flags.k)
    rw [← reached,seeds] at least
    have inside : v ∈ trusted := Finset.mem_coe.mp (least.1.1 ⟨known,given⟩)
    refine ⟨trusted,least,_,_,⟨enough,?_⟩,fun fuel outcome ran => ?_,reports_scanned answers sorter ⟨v,inside⟩ limited⟩
    · rw [clusterscan,if_neg some_seed,returned]
      rfl
    · rw [clusterscan,if_neg some_seed] at ran
      obtain ⟨again,run,same⟩ := Option.map_eq_some_iff.mp ran
      have reached_again := Trust.propagate_closure answers.rounds positive Closure.Between.refl run
      rw [Finset.coe_injective (reached_again.trans reached.symm)] at same
      exact same.symm

end Scan

-- The seed 0 trusts 1; the untrusted 2 follows the seed, and 3 and 4 hang below it.
def fiveAccounts : Accounts (Fin 5) where
  follows := {(0,1),(2,0),(2,3),(3,4)}
  pubkey v := [UInt8.ofNat v]
  kind3CreatedAt _ := 0
  unique := by decide

def oneEndorsement : Flags := ⟨1,2,2,2,10,true⟩

def shownBelow : RecurseNode (Fin 5) :=
  .node 2 [2] [.node 0 [0] [.node 1 [1] []],.node 3 [3] [.node 4 [4] []]]

-- Dgraph over these accounts, answering in increasing order; it walks below 2 only.
def fiveStore : Store (Fin 5) where
  nodes pubkeys := ((List.finRange 5).filter fun v => fiveAccounts.pubkey v ∈ pubkeys).map fun v => (v,fiveAccounts.pubkey v)
  rounds _ := ⟨fun trusted => (List.finRange 5).filter (· ∈ trusted),fun trusted k =>
    (List.finRange 5).filter fun v => v ∉ trusted ∧ k ≤ Trust.trustedFollowers fiveAccounts.endorsements trusted v⟩
  keysOf trusted := (List.finRange 5).filter (· ∈ trusted)
  bridges trusted maxWeight limit := (((List.finRange 5).filter fun v => fiveAccounts.pubkey v ≠ [] ∧ v ∉ trusted.toFinset ∧
    1 ≤ fiveAccounts.weight trusted.toFinset v ∧ (fiveAccounts.weight trusted.toFinset v : Int) ≤ maxWeight).take limit.toNat).map
      (fiveAccounts.bridge trusted.toFinset)
  beneath v _ := if v = 2 then some [shownBelow] else none

def ranking : SortSlice (Fin 5) where
  sort reports := reports.insertionSort fun a b => toLex (b.score,b.clusterSize) ≤ toLex (a.score,a.clusterSize)
  complete _ := List.perm_insertionSort _ _
  sorted reports := by
    have ordered := List.pairwise_insertionSort (fun a b : Report (Fin 5) => toLex (b.score,b.clusterSize) ≤ toLex (a.score,a.clusterSize)) reports
    refine ordered.imp fun {a b} least worse => ?_
    rw [Prod.Lex.toLex_le_toLex] at least
    unfold before at worse
    split at worse
    · next differ =>
      rcases least with less | ⟨same,_⟩
      · exact lt_asymm less worse
      · exact differ same
    · next same =>
      rcases least with less | ⟨_,fewer⟩
      · exact less.ne (not_not.mp same)
      · exact absurd worse (not_lt.mpr fewer)

-- The walk that leads to each account but 2.
theorem fiveAccounts_walks (v : Fin 5) (other : v ≠ 2) : ∃ n, 1 ≤ n ∧ n ≤ 2 ∧ Hops.Walk (fun u v => (u,v) ∈ fiveAccounts.follows) 2 n v := by
  have seed : Hops.Walk (fun u v => (u,v) ∈ fiveAccounts.follows) 2 1 0 := .hop .start (by decide)
  have next : Hops.Walk (fun u v => (u,v) ∈ fiveAccounts.follows) 2 1 3 := .hop .start (by decide)
  match v with
  | 0 => exact ⟨1,by decide,by decide,seed⟩
  | 1 => exact ⟨2,by decide,by decide,seed.hop (by decide)⟩
  | 2 => exact absurd rfl other
  | 3 => exact ⟨1,by decide,by decide,next⟩
  | 4 => exact ⟨2,by decide,by decide,next.hop (by decide)⟩

theorem fiveStore_answers : Answers fiveAccounts oneEndorsement 2 [[0]] fiveStore where
  nodes v pk := by
    simp only [fiveStore,List.mem_map,List.mem_filter,List.mem_finRange,true_and,decide_eq_true_eq,Prod.mk.injEq]
    constructor
    · rintro ⟨u,among,rfl,rfl⟩
      exact ⟨among,List.cons_ne_nil _ _,rfl⟩
    · rintro ⟨among,-,rfl⟩
      exact ⟨v,among,rfl,rfl⟩
  rounds _ := ⟨fun trusted v => by simp [fiveStore],fun trusted v => by simp [fiveStore,oneEndorsement]⟩
  keys trusted v := by simp [fiveStore]
  bridges trusted := by
    have keys : (fiveStore.keysOf trusted).toFinset = trusted := by
      ext v
      simp [fiveStore]
    refine ⟨(List.finRange 5).filter fun v => fiveAccounts.pubkey v ≠ [] ∧ v ∉ trusted ∧ 1 ≤ fiveAccounts.weight trusted v ∧
      (fiveAccounts.weight trusted v : Int) ≤ oneEndorsement.maxWeight,(List.nodup_finRange 5).filter _,fun v => ?_,?_,?_⟩
    · simp [Accounts.Weak]
    · have ordered : (List.finRange 5).Pairwise fun u v => fiveAccounts.pubkey u ≤ fiveAccounts.pubkey v := by decide
      exact ordered.filter _
    · change (((List.finRange 5).filter _).take _).map (fiveAccounts.bridge (fiveStore.keysOf trusted).toFinset) = _
      rw [keys]
  beneath b root rest answered := by
    obtain ⟨rfl,shown⟩ := Option.ite_none_right_eq_some.mp answered
    cases shown
    refine ⟨fun v other => iff_of_true ?_ (fiveAccounts_walks v other),by decide⟩
    revert v
    decide
  rooted b := by
    unfold fiveStore
    dsimp only
    split <;> simp

def Outcome.shown : Outcome V → List (Str × Nat × Nat) × Bool
  | .noSeeds => ([],false)
  | .reports found truncated => (found.map fun r => (r.pubkey,r.weight,r.clusterSize),truncated)

-- The account 2 and the two nodes below it are the one report.
theorem clusterscan_exact_five : ∃ trusted reports, (0 : Fin 5) ∈ trusted ∧
    clusterscan oneEndorsement fiveStore ranking [[0]] 6 = some (.reports reports false) ∧
    (reports.map fun r => (r.pubkey,r.weight,r.clusterSize)) = [([2],1,2)] ∧
    Scanned fiveAccounts oneEndorsement 2 fiveStore trusted reports false := by
  obtain ⟨trusted,least,reports,truncated,-,same,scanned⟩ :=
    (clusterscan_exact fiveStore_answers ranking (by decide) (by decide)).2 ⟨0,by decide,by decide⟩
  have run : (clusterscan oneEndorsement fiveStore ranking [[0]] 6).map Outcome.shown = some ([([2],1,2)],false) := by decide +kernel
  obtain ⟨outcome,ran,shown⟩ := Option.map_eq_some_iff.mp run
  have known := same 6 outcome ran
  rw [known] at ran shown
  cases (Prod.mk.inj shown).2
  exact ⟨trusted,reports,Finset.mem_coe.mp (least.1.1 ⟨by decide,by decide⟩),ran,(Prod.mk.inj shown).1,scanned⟩

end DeepFry.WebOfTrust.ClusterScan
