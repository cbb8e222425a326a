import DeepFry.Lib.Bytes
import DeepFry.Lib.Hops
import DeepFry.Lib.Multimap

namespace DeepFry.SpamExplorer
open Hops

abbrev Str := Bytes

abbrev Table (ν : Type) := AList fun _ : Str => ν

structure FollowEdge where
  uid : Str
  pubkey : Str
deriving DecidableEq

structure FrontierResult where
  uid : Str
  pubkey : Str
  follows : List FollowEdge
deriving DecidableEq

-- The answer depends on the uids alone: no frontier is asked for twice.
abbrev FrontierExpander (ε : Type) := List Str → Except ε (List FrontierResult)

-- What the rounds fill: levels, every materialized follows edge, every pubkey observed.
structure Leveled where
  levels : Table Nat
  adjacency : Table (List Str)
  pubkeys : Table Str

structure Round where
  leveled : Leveled
  next : List Str

-- An empty pubkey is not stored.
def observe (uid pubkey : Str) (pubkeys : Table Str) : Table Str := if pubkey ≠ [] then pubkeys.insert uid pubkey else pubkeys

def visitEdge (nextLevel : Nat) (uid : Str) (round : Round) (edge : FollowEdge) : Round :=
  let adjacency := Multimap.append uid edge.uid round.leveled.adjacency
  let pubkeys := observe edge.uid edge.pubkey round.leveled.pubkeys
  if edge.uid ∈ round.leveled.levels then ⟨⟨round.leveled.levels,adjacency,pubkeys⟩,round.next⟩
  else ⟨⟨round.leveled.levels.insert edge.uid nextLevel,adjacency,pubkeys⟩,round.next ++ [edge.uid]⟩

def visitResult (nextLevel : Nat) (round : Round) (r : FrontierResult) : Round :=
  let pubkeys := observe r.uid r.pubkey round.leveled.pubkeys
  r.follows.foldl (visitEdge nextLevel r.uid) ⟨⟨round.leveled.levels,round.leveled.adjacency,pubkeys⟩,round.next⟩

def visitResults (nextLevel : Nat) (leveled : Leveled) (results : List FrontierResult) : Round :=
  results.foldl (visitResult nextLevel) ⟨leveled,[]⟩

-- Out of fuel is none.
def levelFrom {ε : Type} (expand : FrontierExpander ε) (maxLevel : Int) : Nat → Nat → List Str → Leveled → Option (Except ε Leveled)
  | 0,_,_,_ => none
  | fuel+1,currentLevel,frontier,leveled =>
    if frontier = [] then some (.ok leveled)
    else if 0 < maxLevel ∧ maxLevel ≤ currentLevel then some (.ok leveled)
    else
      match expand frontier with
      | .error e => some (.error e)
      | .ok results =>
        let round := visitResults (currentLevel+1) leveled results
        levelFrom expand maxLevel fuel (currentLevel+1) round.next round.leveled

def level {ε : Type} (expand : FrontierExpander ε) (seedUID : Str) (maxLevel : Int) (fuel : Nat) : Option (Except ε Leveled) :=
  levelFrom expand maxLevel fuel 0 [seedUID] ⟨(∅ : Table Nat).insert seedUID 0,∅,∅⟩

-- The graph behind the expander: finitely many follows, any of them to a node without pubkey, to the follower itself or around a cycle.
structure FollowGraph where
  follows : Finset (Str × Str)
  pubkey : Str → Str

def FollowGraph.Follows (g : FollowGraph) (u v : Str) : Prop := (u,v) ∈ g.follows

def FollowGraph.targets (g : FollowGraph) : Finset Str := g.follows.image Prod.snd

def edgesOf (results : List FrontierResult) : List (Str × Str) := results.flatMap fun r => r.follows.map fun edge => (r.uid,edge.uid)

-- What an answer for the frontier has to hold, in any order of results and edges.
structure Complete (g : FollowGraph) (frontier : List Str) (results : List FrontierResult) : Prop where
  distinct : (edgesOf results).Nodup
  edges : ∀ u v, (u,v) ∈ edgesOf results ↔ u ∈ frontier ∧ g.Follows u v
  named : ∀ r ∈ results, r.pubkey = g.pubkey r.uid ∧ ∀ edge ∈ r.follows, edge.pubkey = g.pubkey edge.uid

def Expands {ε : Type} (g : FollowGraph) (expand : FrontierExpander ε) : Prop :=
  ∀ frontier, frontier ≠ [] → frontier.Nodup → ∃ results, expand frontier = .ok results ∧ Complete g frontier results

end DeepFry.SpamExplorer
