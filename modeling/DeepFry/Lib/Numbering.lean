import Mathlib.Data.List.Nodup
import Mathlib.Tactic

namespace DeepFry.Numbering

-- Library layer: dense numbers in the order of first sighting, and counters under such numbers.
variable {α ι : Type} [BEq α] [LawfulBEq α]

def sight (seen : List α) (x : α) : List α := if x ∈ seen then seen else seen ++ [x]

def sightings (seen xs : List α) : List α := xs.foldl sight seen

-- The number of x in a map from what was seen to its number, and the map with x in it.
def assign (number : Nat → ι) (entries : List (α × ι)) (x : α) : ι × List (α × ι) :=
  match entries.lookup x with
  | some i => (i,entries)
  | none => (number entries.length,entries ++ [(x,number entries.length)])

def numbered (number : Nat → ι) (seen : List α) : List (α × ι) := seen.zipIdx.map fun entry => (entry.1,number entry.2)

section Sighting
variable {seen xs : List α} {x : α}

theorem prefix_sight (seen : List α) (x : α) : seen <+: sight seen x := by
  unfold sight
  split
  · exact List.prefix_rfl
  · exact List.prefix_append seen [x]

theorem mem_sight : x ∈ sight seen x := by
  unfold sight
  split
  · assumption
  · simp

theorem sightings_nil (seen : List α) : sightings seen [] = seen := rfl

theorem sightings_cons (seen : List α) (x : α) (xs : List α) : sightings seen (x :: xs) = sightings (sight seen x) xs := rfl

theorem sightings_append (seen xs ys : List α) : sightings seen (xs ++ ys) = sightings (sightings seen xs) ys :=
  List.foldl_append

theorem prefix_sightings (seen xs : List α) : seen <+: sightings seen xs := by
  induction xs generalizing seen with
  | nil => exact List.prefix_rfl
  | cons x xs ih => exact (prefix_sight seen x).trans (ih _)

theorem mem_sightings {y : α} : y ∈ sightings seen xs ↔ y ∈ seen ∨ y ∈ xs := by
  induction xs generalizing seen with
  | nil => simp [sightings]
  | cons x xs ih =>
    rw [sightings_cons,ih,List.mem_cons,sight]
    split
    · rename_i known
      constructor
      · intro either
        tauto
      · intro either
        rcases either with old | same | later
        · exact .inl old
        · exact .inl (by rw [same]; exact known)
        · exact .inr later
    · rw [List.mem_append,List.mem_singleton,or_assoc]

theorem nodup_sightings (distinct : seen.Nodup) (xs : List α) : (sightings seen xs).Nodup := by
  induction xs generalizing seen with
  | nil => exact distinct
  | cons x xs ih =>
    rw [sightings_cons]
    apply ih
    unfold sight
    split
    · exact distinct
    · rename_i fresh
      rw [List.nodup_append]
      refine ⟨distinct,List.nodup_singleton x,?_⟩
      intro a old b same
      rw [List.mem_singleton.mp same]
      intro equal
      exact fresh (by rw [← equal]; exact old)

-- Numbers go by the first place in what was read.
theorem sightings_ordered (xs : List α) : (sightings [] xs).Pairwise fun a b => xs.idxOf a < xs.idxOf b := by
  induction xs using List.reverseRecOn with
  | nil => exact .nil
  | append_singleton xs x ih =>
    have kept : (sightings [] xs).Pairwise fun a b => (xs ++ [x]).idxOf a < (xs ++ [x]).idxOf b := by
      refine List.Pairwise.imp_of_mem ?_ ih
      intro a b first second earlier
      have there {c : α} (member : c ∈ sightings [] xs) : c ∈ xs := (mem_sightings.mp member).resolve_left (by simp)
      rwa [List.idxOf_append_of_mem (there first),List.idxOf_append_of_mem (there second)]
    rw [sightings_append,sightings_cons,sightings_nil]
    unfold sight
    split
    · exact kept
    · rename_i fresh
      rw [List.pairwise_append]
      refine ⟨kept,List.pairwise_singleton _ x,?_⟩
      intro a old b same
      have there : a ∈ xs := (mem_sightings.mp old).resolve_left (by simp)
      have absent : x ∉ xs := fun member => fresh (mem_sightings.mpr (.inr member))
      rw [List.mem_singleton.mp same,List.idxOf_append_of_mem there,List.idxOf_append_of_notMem absent]
      exact Nat.lt_of_lt_of_le (List.idxOf_lt_length_of_mem there) (Nat.le_add_right _ _)

theorem sightings_map {β : Type} [BEq β] [LawfulBEq β] {f : α → β} (injective : Function.Injective f) (seen xs : List α) :
    sightings (seen.map f) (xs.map f) = (sightings seen xs).map f := by
  induction xs generalizing seen with
  | nil => rfl
  | cons x xs ih =>
    have step : sight (seen.map f) (f x) = (sight seen x).map f := by
      unfold sight
      by_cases member : x ∈ seen
      · rw [if_pos member,if_pos ((List.mem_map_of_injective injective).mpr member)]
      · rw [if_neg member,if_neg fun there => member ((List.mem_map_of_injective injective).mp there)]
        simp
    rw [List.map_cons,sightings_cons,sightings_cons,step,ih]

theorem idxOf_map {β : Type} [BEq β] [LawfulBEq β] {f : α → β} (injective : Function.Injective f) (xs : List α) (x : α) :
    (xs.map f).idxOf (f x) = xs.idxOf x := by
  induction xs with
  | nil => rfl
  | cons y xs ih =>
    rw [List.map_cons]
    by_cases same : y = x
    · subst same
      rw [List.idxOf_cons_self,List.idxOf_cons_self]
    · rw [List.idxOf_cons_ne _ (injective.ne same),List.idxOf_cons_ne _ same,ih]
end Sighting

section Assign
variable {seen : List α} {x : α} (number : Nat → ι)

theorem lookup_zipIdx (seen : List α) (x : α) (start : Nat) :
    ((seen.zipIdx start).map fun entry => (entry.1,number entry.2)).lookup x =
      if x ∈ seen then some (number (start + seen.idxOf x)) else none := by
  induction seen generalizing start with
  | nil => rfl
  | cons y seen ih =>
    rw [List.zipIdx_cons,List.map_cons,List.lookup_cons]
    by_cases same : x = y
    · subst same
      simp
    · have apart : (x == y) = false := by simpa using same
      rw [apart,ih]
      by_cases member : x ∈ seen
      · rw [if_pos member,if_pos (List.mem_cons_of_mem y member),List.idxOf_cons_ne seen fun equal => same equal.symm]
        simp only [Option.some.injEq]
        exact congrArg number (by omega)
      · rw [if_neg member,if_neg (by simp [same,member])]

omit [BEq α] [LawfulBEq α] in
theorem length_numbered (seen : List α) : (numbered number seen).length = seen.length := by simp [numbered]

-- The map of the first sightings stays one.
theorem assign_numbered (seen : List α) (x : α) :
    assign number (numbered number seen) x = (number ((sight seen x).idxOf x),numbered number (sight seen x)) := by
  have found := lookup_zipIdx number seen x 0
  rw [Nat.zero_add] at found
  unfold assign sight
  rw [show (numbered number seen).lookup x = _ from found,length_numbered]
  by_cases member : x ∈ seen
  · simp only [if_pos member]
  · simp only [if_neg member]
    rw [List.idxOf_append_of_notMem member,List.idxOf_cons_self,Nat.add_zero]
    simp [numbered,List.zipIdx_append]
end Assign

section Counters

def bump (counts : List UInt32) (i : Nat) : List UInt32 := counts.modify i (· + 1)

theorem length_bumps (targets : List Nat) (counts : List UInt32) : (targets.foldl bump counts).length = counts.length := by
  induction targets generalizing counts with
  | nil => rfl
  | cons i targets ih =>
    rw [List.foldl_cons,ih]
    simp [bump]

theorem bumps_at (targets : List Nat) (counts : List UInt32) (i : Nat) :
    (targets.foldl bump counts)[i]? = (counts[i]?).map (· + UInt32.ofNat (targets.count i)) := by
  induction targets generalizing counts with
  | nil =>
    have zero : UInt32.ofNat 0 = 0 := rfl
    simp only [List.foldl_nil,List.count_nil,zero,UInt32.add_zero,Option.map_id']
  | cons j targets ih =>
    rw [List.foldl_cons,ih,bump,List.getElem?_modify,List.count_cons]
    by_cases same : j = i
    · subst same
      cases counts[j]? with
      | none => rfl
      | some value =>
        simp only [if_true,Option.map_eq_map,Option.map_some,beq_self_eq_true,UInt32.ofNat_add]
        have one : UInt32.ofNat 1 = 1 := rfl
        rw [one,UInt32.add_assoc,UInt32.add_comm 1]
    · have apart : (j == i) = false := by simpa using same
      simp [same]

-- Every target is counted under its own number.
theorem sum_counts (targets : List Nat) {n : Nat} (bounded : ∀ i ∈ targets, i < n) :
    ((List.range n).map fun i => targets.count i).sum = targets.length := by
  rw [← List.sum_toFinset _ List.nodup_range,List.toFinset_range]
  have whole := @Multiset.sum_count_eq_card ℕ _ (Finset.range n) targets fun i member => Finset.mem_range.mpr (bounded i (by simpa using member))
  simpa using whole
end Counters

end DeepFry.Numbering
