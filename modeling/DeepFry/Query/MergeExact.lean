import DeepFry.Query.Routing
import DeepFry.Query.MergeRun

namespace DeepFry.Query
open Lmdb Bytes
variable {name : IndexName}

-- The entries a merge is asked for, in index order.
def wantedTriples (index : Index name) (values : List Bytes) (since untilTs : Nat) (levIdFloor : Floor) : List Triple :=
  (index.entries.filter fun entry => decide (valuePart entry.1 ∈ values) && decide (since ≤ createdAtFromKey entry.1) &&
    decide (createdAtFromKey entry.1 ≤ untilTs) && floorKeeps levIdFloor (triple entry)).map triple

-- The first entries of a newest-first order of the wanted ones; entries of one position are in
-- no particular order.
def FirstOf (results wanted : List Triple) (emitLimit : Nat) : Prop :=
  ∃ ordered : List Triple, ordered.Perm wanted ∧ ordered.Pairwise (fun a b => b.sortKey ≤ a.sortKey) ∧
    results = ordered.take emitLimit

theorem triple_injective : Function.Injective triple := by
  rintro ⟨key,levId⟩ ⟨key',levId'⟩ same
  simp only [triple,Prod.mk.injEq] at same
  rw [same.2.1,same.2.2]

theorem index_nodup (index : Index name) : index.entries.Nodup := by
  refine index.rising.imp ?_
  rintro a b (less | ⟨_,less⟩) same
  · rw [same] at less
    exact lt_irrefl _ less
  · rw [same] at less
    exact lt_irrefl _ less

variable {values : List Bytes} {since untilTs : Nat} {levIdFloor : Floor}

theorem wanted_nodup (index : Index name) : (wantedTriples index values since untilTs levIdFloor).Nodup :=
  ((index_nodup index).filter _).map triple_injective

theorem mem_wanted {index : Index name} {x : Triple} : x ∈ wantedTriples index values since untilTs levIdFloor ↔
    ∃ entry ∈ index.entries, ∃ value ∈ values, Wanted name since levIdFloor value entry ∧
      createdAtFromKey entry.1 ≤ untilTs ∧ x = triple entry := by
  simp only [wantedTriples,List.mem_map,List.mem_filter,Bool.and_eq_true,decide_eq_true_eq]
  constructor
  · rintro ⟨entry,⟨stored,⟨⟨known,recent⟩,early⟩,kept⟩,rfl⟩
    exact ⟨entry,stored,_,known,⟨index.storable stored,rfl,kept,recent⟩,early,rfl⟩
  · rintro ⟨entry,stored,value,known,wanted,early,rfl⟩
    exact ⟨entry,⟨stored,⟨⟨by rwa [wanted.own],wanted.recent⟩,early⟩,wanted.kept⟩,rfl⟩

-- Over an index that does not change, a sound, falling and complete result is the exact one.
theorem Merged.firstOf {world : World} {index : Index name} (fixed : ∀ t, (world t).env.index name = index)
    {tick emitLimit after : Nat} {results : List Triple}
    (merged : Merged name since untilTs levIdFloor world tick values emitLimit results after) :
    FirstOf results (wantedTriples index values since untilTs levIdFloor) emitLimit := by
  have inside : ∀ x ∈ results, x ∈ wantedTriples index values since untilTs levIdFloor := by
    intro x member
    obtain ⟨t,_,entry,stored,value,known,rest⟩ := merged.sound x member
    rw [fixed t] at stored
    exact mem_wanted.mpr ⟨entry,stored,value,known,rest⟩
  have distinct : results.Nodup := by
    refine merged.falling.imp ?_
    rintro a b ⟨_,apart⟩ same
    rw [same] at apart
    exact apart rfl rfl
  have missing : ∀ x ∈ wantedTriples index values since untilTs levIdFloor, x ∉ results →
      results.length = emitLimit ∧ ∀ y ∈ results, x.sortKey ≤ y.sortKey := by
    intro x wanted absent
    obtain ⟨entry,stored,value,known,owed,early,rfl⟩ := mem_wanted.mp wanted
    exact (merged.complete value known entry owed early fun t _ _ => by rwa [fixed t]).resolve_left absent
  let others := (wantedTriples index values since untilTs levIdFloor).filter fun x => decide (x ∉ results)
  let tail := others.insertionSort fun a b => b.sortKey ≤ a.sortKey
  have tail_member : ∀ x, x ∈ tail ↔ x ∈ wantedTriples index values since untilTs levIdFloor ∧ x ∉ results := by
    intro x
    rw [List.mem_insertionSort,List.mem_filter,decide_eq_true_eq]
  have tail_nodup : tail.Nodup :=
    (List.perm_insertionSort _ _).nodup_iff.mpr ((wanted_nodup index).filter _)
  have sorted : tail.Pairwise fun a b => b.sortKey ≤ a.sortKey := List.pairwise_insertionSort _ _
  refine ⟨results ++ tail,?_,?_,?_⟩
  · refine (List.perm_ext_iff_of_nodup ?_ (wanted_nodup index)).mpr ?_
    · exact distinct.append tail_nodup fun x left right => ((tail_member x).mp right).2 left
    · intro x
      rw [List.mem_append,tail_member]
      by_cases here : x ∈ results
      · simp [here,inside x here]
      · simp [here]
  · refine List.pairwise_append.mpr ⟨merged.falling.imp And.left,sorted,?_⟩
    intro x here y later
    obtain ⟨wanted,absent⟩ := (tail_member y).mp later
    exact (missing y wanted absent).2 x here
  · cases rest : tail with
    | nil => rw [List.append_nil,List.take_of_length_le merged.bounded]
    | cons first others =>
      obtain ⟨wanted,absent⟩ := (tail_member first).mp (by rw [rest]; simp)
      rw [← (missing first wanted absent).1,List.take_left']
      rfl

end DeepFry.Query
