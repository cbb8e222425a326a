import Mathlib.Algebra.BigOperators.Group.Finset.Basic
import Mathlib.Algebra.BigOperators.Group.List.Basic
import Mathlib.Algebra.Module.Rat
import Mathlib.Data.List.Nodup
import Mathlib.Data.Rat.Defs
import Mathlib.Tactic

namespace DeepFry.Tally

-- Library layer: maps of sums. A map is its entries, one a key, and is iterated in any order.
variable {κ M : Type} [DecidableEq κ] [AddCommGroup M] [Module ℚ M]

def add (key : κ) (w : ℚ) : List (κ × ℚ) → List (κ × ℚ)
  | [] => [(key,w)]
  | (k,x) :: rest => if k = key then (k,x + w) :: rest else (k,x) :: add key w rest

-- A key that is not there reads as zero.
def lookup (key : κ) : List (κ × ℚ) → ℚ
  | [] => 0
  | (k,x) :: rest => if k = key then x else lookup key rest

structure Order (α : Type) where
  order : List α → List α
  complete : ∀ entries, (order entries).Perm entries

def total (sums : List (κ × ℚ)) (F : κ → M) : M := (sums.map fun entry => entry.2 • F entry.1).sum

omit [DecidableEq κ] in
theorem total_perm {left right : List (κ × ℚ)} (same : left.Perm right) (F : κ → M) : total left F = total right F :=
  (same.map _).sum_eq

theorem total_add (key : κ) (w : ℚ) (sums : List (κ × ℚ)) (F : κ → M) :
    total (add key w sums) F = total sums F + w • F key := by
  induction sums with
  | nil => simp [add,total]
  | cons entry rest ih =>
    obtain ⟨k,x⟩ := entry
    rw [add]
    split
    · rename_i same
      subst same
      simp only [total,List.map_cons,List.sum_cons,add_smul]
      abel
    · unfold total at ih ⊢
      rw [List.map_cons,List.sum_cons,List.map_cons,List.sum_cons,ih,add_assoc]

theorem lookup_add (key other : κ) (w : ℚ) (sums : List (κ × ℚ)) :
    lookup other (add key w sums) = lookup other sums + if key = other then w else 0 := by
  induction sums with
  | nil => simp [add,lookup]
  | cons entry rest ih =>
    obtain ⟨k,x⟩ := entry
    rw [add]
    by_cases same : k = key
    · rw [if_pos same]
      subst same
      by_cases found : k = other <;> simp [lookup,found]
    · rw [if_neg same]
      by_cases found : k = other
      · have apart : key ≠ other := fun equal => same (found.trans equal.symm)
        simp [lookup,found,apart]
      · simp [lookup,found,ih]

theorem mem_add {key : κ} {w : ℚ} {sums : List (κ × ℚ)} {entry : κ × ℚ} (member : entry ∈ add key w sums) :
    entry.1 = key ∨ ∃ old ∈ sums, entry.1 = old.1 := by
  induction sums with
  | nil =>
    rw [add,List.mem_singleton] at member
    exact .inl (congrArg Prod.fst member)
  | cons first rest ih =>
    obtain ⟨k,x⟩ := first
    rw [add] at member
    split at member
    · rename_i same
      cases member with
      | head => exact .inl same
      | tail _ later => exact .inr ⟨entry,List.mem_cons_of_mem _ later,rfl⟩
    · cases member with
      | head => exact .inr ⟨(k,x),List.mem_cons_self,rfl⟩
      | tail _ later =>
        obtain fresh | ⟨old,there,same⟩ := ih later
        · exact .inl fresh
        · exact .inr ⟨old,List.mem_cons_of_mem _ there,same⟩

theorem keys_add {key : κ} {w : ℚ} {sums : List (κ × ℚ)} (keyed : (sums.map Prod.fst).Nodup) :
    ((add key w sums).map Prod.fst).Nodup := by
  induction sums with
  | nil => simp [add]
  | cons first rest ih =>
    obtain ⟨k,x⟩ := first
    rw [List.map_cons,List.nodup_cons] at keyed
    rw [add]
    split
    · rw [List.map_cons,List.nodup_cons]
      exact keyed
    · rename_i other
      rw [List.map_cons,List.nodup_cons]
      refine ⟨?_,ih keyed.2⟩
      intro again
      obtain ⟨entry,member,same⟩ := List.mem_map.mp again
      obtain fresh | ⟨old,there,equal⟩ := mem_add member
      · exact other (same.symm.trans fresh)
      · exact keyed.1 (List.mem_map.mpr ⟨old,there,equal.symm.trans same⟩)

theorem lookup_mem {sums : List (κ × ℚ)} (keyed : (sums.map Prod.fst).Nodup) {entry : κ × ℚ} (member : entry ∈ sums) :
    lookup entry.1 sums = entry.2 := by
  induction sums with
  | nil => cases member
  | cons first rest ih =>
    obtain ⟨k,x⟩ := first
    rw [List.map_cons,List.nodup_cons] at keyed
    cases member with
    | head => simp [lookup]
    | tail _ later =>
      have apart : k ≠ entry.1 := by
        intro same
        exact keyed.1 (List.mem_map.mpr ⟨entry,later,same.symm⟩)
      rw [lookup,if_neg apart,ih keyed.2 later]

-- A list of targets with weights, read target by target.
omit [DecidableEq κ] in
theorem total_fiber [Fintype κ] [DecidableEq κ] (sums : List (κ × ℚ)) (F : κ → M) :
    total sums F = ∑ key, total sums (fun other => if other = key then (1 : ℚ) else 0) • F key := by
  induction sums with
  | nil => simp [total]
  | cons entry rest ih =>
    unfold total at ih ⊢
    simp only [List.map_cons,List.sum_cons,add_smul,Finset.sum_add_distrib]
    rw [← ih]
    congr 1
    simp [ite_smul]

end DeepFry.Tally
