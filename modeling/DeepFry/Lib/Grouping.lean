import DeepFry.Lib.Numbering

namespace DeepFry.Grouping
open Numbering

-- Library layer: a map from a key to the items of that key, in the order they came.
variable {κ α : Type} [DecidableEq κ]

def add (k : κ) (x : α) : List (κ × List α) → List (κ × List α)
  | [] => [(k,[x])]
  | (j,xs) :: rest => if j = k then (j,xs ++ [x]) :: rest else (j,xs) :: add k x rest

def groups (key : α → κ) (items : List α) : List (κ × List α) :=
  (sightings [] (items.map key)).map fun k => (k,items.filter fun x => key x = k)

theorem add_map (seen : List κ) (distinct : seen.Nodup) (held : κ → List α) (k : κ) (x : α) (absent : k ∉ seen → held k = []) :
    add k x (seen.map fun j => (j,held j)) = (sight seen k).map fun j => (j,if j = k then held j ++ [x] else held j) := by
  induction seen with
  | nil =>
    have none := absent List.not_mem_nil
    simp [add,sight,none]
  | cons j seen ih =>
    rw [List.nodup_cons] at distinct
    rw [List.map_cons,add]
    by_cases same : j = k
    · subst same
      have rest : seen.map (fun i => (i,held i)) = seen.map fun i => (i,if i = j then held i ++ [x] else held i) := by
        apply List.map_congr_left
        intro i member
        have apart : i ≠ j := fun equal => distinct.1 (by rw [← equal]; exact member)
        rw [if_neg apart]
      simp only [sight,List.mem_cons_self,if_true,List.map_cons,rest]
    · have missing : k ∉ seen → held k = [] := fun unknown => absent fun member => (List.mem_cons.mp member).elim (fun equal => same equal.symm) unknown
      have grown : sight (j :: seen) k = j :: sight seen k := by
        unfold sight
        by_cases member : k ∈ seen
        · rw [if_pos member,if_pos (List.mem_cons_of_mem j member)]
        · rw [if_neg member,if_neg fun either => (List.mem_cons.mp either).elim (fun equal => same equal.symm) member]
          rfl
      rw [if_neg same,ih distinct.2 missing,grown,List.map_cons,if_neg same]

-- One item more.
theorem add_groups (key : α → κ) (items : List α) (x : α) : add (key x) x (groups key items) = groups key (items ++ [x]) := by
  unfold groups
  rw [add_map _ (nodup_sightings List.nodup_nil _)]
  · rw [List.map_append,sightings_append]
    apply List.map_congr_left
    intro k _
    rw [List.filter_append]
    by_cases same : k = key x
    · rw [if_pos same,same]
      simp
    · have apart : key x ≠ k := fun equal => same equal.symm
      rw [if_neg same]
      simp [apart]
  · intro unknown
    apply List.filter_eq_nil_iff.mpr
    intro y member same
    apply unknown
    rw [mem_sightings]
    exact .inr (List.mem_map.mpr ⟨y,member,of_decide_eq_true same⟩)

theorem foldl_add (key : α → κ) (done items : List α) :
    items.foldl (fun found x => add (key x) x found) (groups key done) = groups key (done ++ items) := by
  induction items generalizing done with
  | nil => simp
  | cons x items ih =>
    rw [List.foldl_cons,add_groups,ih,List.append_assoc]
    rfl

theorem mem_groups {key : α → κ} {items : List α} {entry : κ × List α} :
    entry ∈ groups key items ↔ entry.1 ∈ items.map key ∧ entry.2 = items.filter fun x => key x = entry.1 := by
  obtain ⟨k,xs⟩ := entry
  unfold groups
  rw [List.mem_map]
  constructor
  · intro listed
    obtain ⟨j,member,same⟩ := listed
    cases same
    exact ⟨(mem_sightings.mp member).resolve_left (by simp),rfl⟩
  · intro both
    exact ⟨k,mem_sightings.mpr (.inr both.1),congrArg (Prod.mk k) both.2.symm⟩

theorem groups_distinct (key : α → κ) (items : List α) : (groups key items).Pairwise fun a b => a.1 ≠ b.1 := by
  unfold groups
  rw [List.pairwise_map]
  exact nodup_sightings List.nodup_nil _

end DeepFry.Grouping
