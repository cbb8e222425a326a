import Mathlib.Data.List.Perm.Basic
import Mathlib.Tactic

namespace DeepFry.Digraph

-- Library layer: degrees in a directed graph over a list of vertices, and how they move when one vertex changes its edges.

variable {α : Type*}

def indegree (vertices : List α) (edge : α → α → Bool) (target : α) : Nat := vertices.countP (edge · target)

variable {vertices : List α} {edge later : α → α → Bool} {source target : α}

theorem indegree_congr (same : ∀ v ∈ vertices, edge v target = later v target) :
    indegree vertices edge target = indegree vertices later target := by
  apply List.countP_congr
  intro v member
  rw [same v member]

theorem indegree_perm {others : List α} (same : vertices.Perm others) (edge : α → α → Bool) (target : α) :
    indegree vertices edge target = indegree others edge target := same.countP_eq _

theorem indegree_cons (source : α) (vertices : List α) (edge : α → α → Bool) (target : α) :
    indegree (source :: vertices) edge target = indegree vertices edge target + if edge source target then 1 else 0 :=
  List.countP_cons

-- New vertices without edges point at nothing.
theorem indegree_grown [DecidableEq α] {others : List α} (distinct : vertices.Nodup) (distinct' : others.Nodup)
    (grown : ∀ v ∈ vertices, v ∈ others) (isolated : ∀ v ∈ others, v ∉ vertices → edge v target = false) :
    indegree others edge target = indegree vertices edge target := by
  have same : (others.filter (· ∈ vertices)).Perm vertices := by
    rw [List.perm_ext_iff_of_nodup (distinct'.filter _) distinct]
    intro v
    rw [List.mem_filter,decide_eq_true_eq]
    exact ⟨And.right,fun old => ⟨grown v old,old⟩⟩
  rw [← indegree_perm same,indegree,indegree,List.countP_filter]
  apply List.countP_congr
  intro v member
  by_cases old : v ∈ vertices
  · simp [old]
  · simp [old,isolated v member old]

-- When one source changes its edges, the degree of a node moves by its own edge from that source.
theorem indegree_replace [DecidableEq α] (distinct : vertices.Nodup) (known : source ∈ vertices)
    (others : ∀ v ∈ vertices, v ≠ source → edge v target = later v target) :
    indegree vertices later target + (if edge source target then 1 else 0) =
      indegree vertices edge target + if later source target then 1 else 0 := by
  have rest : indegree (vertices.erase source) edge target = indegree (vertices.erase source) later target := by
    apply indegree_congr
    intro v member
    obtain ⟨other,present⟩ := (distinct.mem_erase_iff).mp member
    exact others v present other
  rw [indegree_perm (List.perm_cons_erase known) later,indegree_cons,
    indegree_perm (List.perm_cons_erase known) edge,indegree_cons,rest]
  omega

theorem indegree_pos (known : source ∈ vertices) (present : edge source target = true) : 0 < indegree vertices edge target :=
  List.countP_pos_iff.mpr ⟨source,known,present⟩

theorem indegree_zero (unreached : ∀ v ∈ vertices, edge v target = false) : indegree vertices edge target = 0 :=
  List.countP_eq_zero.mpr fun v member => by rw [unreached v member]; exact Bool.false_ne_true

end DeepFry.Digraph
