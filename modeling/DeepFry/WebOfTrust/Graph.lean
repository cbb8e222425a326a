import DeepFry.Lib.Bytes
import DeepFry.Lib.Digraph
import Mathlib.Data.List.AList
import Mathlib.Data.List.Sort

namespace DeepFry.WebOfTrust
abbrev Str := Bytes
abbrev Uid := Nat

-- The predicates of one uid; a deleted uid has none.
structure Node where
  pubkey : Option Str
  profile : Bool
  kind3CreatedAt : Option Int
  lastDbUpdate : Option Int
  lastAttempt : Option Int
  nextAttempt : Option Int
  missCount : Option Int
  followerCount : Option Int
  uncrawled : Option Int
  follows : List Uid
deriving DecidableEq

def Node.empty : Node := ⟨none,false,none,none,none,none,none,none,none,[]⟩

-- uids: every uid that was ever assigned, in increasing order. Edges end at assigned uids, deleted ones included.
structure Graph where
  uids : List Uid
  ordered : uids.Pairwise (· < ·)
  positive : ∀ u ∈ uids, 0 < u
  node : Uid → Node
  beyond : ∀ u, u ∉ uids → node u = .empty
  closed : ∀ u v, v ∈ (node u).follows → v ∈ uids

-- The uid a blank node gets: any that was never assigned.
structure Lease where
  pick : List Uid → Uid
  fresh : ∀ uids, pick uids ∉ uids
  positive : ∀ uids, 0 < pick uids

namespace Graph

def empty : Graph := ⟨[],.nil,fun _ member => absurd member List.not_mem_nil,fun _ => .empty,fun _ _ => rfl,fun _ _ edge => absurd edge List.not_mem_nil⟩

-- eq(pubkey, ..), in uid order.
def eqPubkey (g : Graph) (pubkey : Str) : List Uid := g.uids.filter fun u => (g.node u).pubkey = some pubkey

-- The follows edges between the uids; ~follows is counted over them.
def edge (g : Graph) (u v : Uid) : Bool := v ∈ (g.node u).follows

def indegree (g : Graph) (u : Uid) : Nat := Digraph.indegree g.uids g.edge u

-- A mutation of one node; only assigned uids are ever named in an edge.
def modify (g : Graph) (u : Uid) (set : Node → Node) : Graph where
  uids := g.uids
  ordered := g.ordered
  positive := g.positive
  node v :=
    if v = u ∧ u ∈ g.uids then { set (g.node u) with follows := (set (g.node u)).follows.filter (· ∈ g.uids) }
    else g.node v
  beyond v unknown := by
    split
    · rename_i here
      exact absurd (here.1 ▸ here.2) unknown
    · exact g.beyond v unknown
  closed v w member := by
    split at member
    · exact of_decide_eq_true (List.mem_filter.mp member).2
    · exact g.closed v w member

theorem pairwise_orderedInsert {u : Uid} {uids : List Uid} (ordered : uids.Pairwise (· < ·)) (fresh : u ∉ uids) :
    (uids.orderedInsert (· ≤ ·) u).Pairwise (· < ·) := by
  have weak := List.Pairwise.orderedInsert u uids (ordered.imp Nat.le_of_lt)
  have distinct : (uids.orderedInsert (· ≤ ·) u).Nodup :=
    (List.perm_orderedInsert (· ≤ ·) u uids).nodup_iff.mpr (List.nodup_cons.mpr ⟨fresh,ordered.imp Nat.ne_of_lt⟩)
  exact (weak.and distinct).imp fun both => Nat.lt_of_le_of_ne both.1 both.2

-- A mutation that names a blank node without edges.
def alloc (g : Graph) (lease : Lease) (n : Node) : Graph where
  uids := g.uids.orderedInsert (· ≤ ·) (lease.pick g.uids)
  ordered := pairwise_orderedInsert g.ordered (lease.fresh g.uids)
  positive u member := by
    rcases (List.mem_orderedInsert _).mp member with rfl | old
    · exact lease.positive g.uids
    · exact g.positive u old
  node v := if v = lease.pick g.uids then { n with follows := [] } else g.node v
  beyond v unknown := by
    rw [List.mem_orderedInsert,not_or] at unknown
    rw [if_neg unknown.1]
    exact g.beyond v unknown.2
  closed v w member := by
    rw [List.mem_orderedInsert]
    split at member
    · cases member
    · exact .inr (g.closed v w member)

end Graph

theorem le_largest {u : Uid} {uids : List Uid} (member : u ∈ uids) : u ≤ uids.foldr max 0 := by
  induction uids with
  | nil => cases member
  | cons first rest ih =>
    rcases List.mem_cons.mp member with rfl | later
    · exact le_max_left _ _
    · exact (ih later).trans (le_max_right _ _)

-- Uids handed out in increasing order.
def nextUid : Lease where
  pick uids := uids.foldr max 0 + 1
  fresh _ member := absurd (le_largest member) (Nat.not_succ_le_self _)
  positive _ := Nat.succ_pos _

def HEX : Str := Bytes.text "0123456789abcdef"

-- ^[0-9a-f]{64}$
def isValidHexPubkey (pubkey : Str) : Bool := pubkey.length = 64 && pubkey.all (· ∈ HEX)

-- strings.ToLower; a letter outside ASCII never becomes a hexadecimal digit.
def toLower (pubkey : Str) : Str := pubkey.map fun b => if 65 ≤ b ∧ b ≤ 90 then b + 32 else b

inductive Code where
  | Unavailable
  | DeadlineExceeded
  | ResourceExhausted
  | Aborted
  | other
deriving DecidableEq

-- code: none where the error carries no gRPC status.
structure StoreError where
  code : Option Code
  message : Str
deriving DecidableEq

def isTransientError (e : StoreError) : Bool := e.code = some .Unavailable || e.code = some .DeadlineExceeded

namespace Graph
variable {g : Graph} {u v : Uid} {set : Node → Node} {lease : Lease} {n : Node} {pubkey : Str}

theorem distinct (g : Graph) : g.uids.Nodup := g.ordered.imp Nat.ne_of_lt

@[simp] theorem modify_uids : (g.modify u set).uids = g.uids := rfl

theorem node_modify : (g.modify u set).node v = if v = u ∧ u ∈ g.uids then
    { set (g.node u) with follows := (set (g.node u)).follows.filter (· ∈ g.uids) } else g.node v := rfl

theorem node_modify_self (known : u ∈ g.uids) (inside : ∀ v ∈ (set (g.node u)).follows, v ∈ g.uids) :
    (g.modify u set).node u = set (g.node u) := by
  have whole : (set (g.node u)).follows.filter (· ∈ g.uids) = (set (g.node u)).follows :=
    List.filter_eq_self.mpr fun v member => decide_eq_true (inside v member)
  refine (if_pos ⟨rfl,known⟩).trans ?_
  rw [whole]

-- A mutation of values leaves the edges alone.
theorem node_modify_values (known : u ∈ g.uids) (values : (set (g.node u)).follows = (g.node u).follows) :
    (g.modify u set).node u = set (g.node u) :=
  node_modify_self known fun v member => g.closed u v (by rw [← values]; exact member)

theorem node_modify_other (other : v ≠ u) : (g.modify u set).node v = g.node v := if_neg fun here => other here.1

@[simp] theorem mem_alloc : v ∈ (g.alloc lease n).uids ↔ v = lease.pick g.uids ∨ v ∈ g.uids := List.mem_orderedInsert _

theorem node_alloc : (g.alloc lease n).node v =
    if v = lease.pick g.uids then { n with follows := [] } else g.node v := rfl

theorem node_alloc_old (known : v ∈ g.uids) : (g.alloc lease n).node v = g.node v :=
  if_neg fun same => lease.fresh g.uids (by rw [← same]; exact known)

theorem mem_eqPubkey : u ∈ g.eqPubkey pubkey ↔ u ∈ g.uids ∧ (g.node u).pubkey = some pubkey := by
  rw [eqPubkey,List.mem_filter,decide_eq_true_eq]

-- Only a uid that was assigned has predicates.
theorem mem_of_pubkey (named : (g.node u).pubkey = some pubkey) : u ∈ g.uids := by
  by_contra unknown
  rw [g.beyond u unknown] at named
  cases named

theorem edge_iff : g.edge u v = true ↔ v ∈ (g.node u).follows := decide_eq_true_iff

theorem mem_of_edge (present : g.edge u v = true) : u ∈ g.uids := by
  by_contra unknown
  rw [edge_iff,g.beyond u unknown] at present
  cases present

theorem target_mem (present : g.edge u v = true) : v ∈ g.uids := g.closed u v (edge_iff.mp present)

theorem indegree_pos (present : g.edge u v = true) : 0 < g.indegree v := Digraph.indegree_pos (mem_of_edge present) present

theorem indegree_beyond (unknown : v ∉ g.uids) : g.indegree v = 0 :=
  Digraph.indegree_zero fun u _ => by
    by_contra present
    exact unknown (target_mem (Bool.not_eq_false _ ▸ present))

theorem indegree_congr {other : Graph} (same : g.uids = other.uids)
    (edges : ∀ u ∈ g.uids, (g.node u).follows = (other.node u).follows) (v : Uid) : g.indegree v = other.indegree v := by
  unfold indegree
  rw [← same]
  apply Digraph.indegree_congr
  intro u known
  rw [edge,edge,edges u known]

-- One source changes its edges, and nodes without edges come in.
theorem indegree_replace {other : Graph} (grown : ∀ w ∈ g.uids, w ∈ other.uids) (known : u ∈ g.uids)
    (edges : ∀ w ∈ g.uids, w ≠ u → (other.node w).follows = (g.node w).follows)
    (isolated : ∀ w ∈ other.uids, w ∉ g.uids → (other.node w).follows = []) (v : Uid) :
    other.indegree v + (if g.edge u v then 1 else 0) = g.indegree v + if other.edge u v then 1 else 0 := by
  have new : ∀ w ∈ other.uids, w ∉ g.uids → other.edge w v = false := by
    intro w member unknown
    rw [edge,isolated w member unknown]
    rfl
  rw [indegree,indegree,Digraph.indegree_grown g.distinct other.distinct grown new]
  apply Digraph.indegree_replace g.distinct known
  intro w present others
  rw [edge,edge,edges w present others]
end Graph

end DeepFry.WebOfTrust
