import Mathlib.Data.Finset.Card
import Mathlib.Tactic

namespace DeepFry.Recency

-- Library layer: keys in the order of their last use, the uses newest first.
variable {K : Type*} [DecidableEq K]

-- The other keys used after the last use of a key.
def since (key : K) : List K → Finset K
  | [] => ∅
  | used :: uses => if used = key then ∅ else insert used (since key uses)

def Recent (order uses : List K) : Prop := order.Pairwise fun newer older => newer ∈ since older uses

variable {key used : K} {order uses : List K}

theorem since_other (apart : used ≠ key) (uses : List K) : since key (used :: uses) = insert used (since key uses) := if_neg apart

theorem since_grow (apart : used ≠ key) (uses : List K) : since key uses ⊆ since key (used :: uses) := by
  rw [since_other apart]
  exact Finset.subset_insert used _

theorem Recent.sublist {part : List K} (recent : Recent order uses) (inside : part.Sublist order) : Recent part uses :=
  List.Pairwise.sublist inside recent

-- A use brings its key to the front, whether the key was in the order or not.
theorem Recent.touch (recent : Recent order uses) (absent : key ∉ order) : Recent (key :: order) (key :: uses) := by
  apply List.pairwise_cons.mpr
  constructor
  · intro other member
    have apart : key ≠ other := fun same => absent (same ▸ member)
    rw [since_other apart]
    exact Finset.mem_insert_self key _
  · apply List.Pairwise.imp_of_mem _ recent
    intro newer older _ member after
    have apart : key ≠ older := fun same => absent (same ▸ member)
    exact since_grow apart uses after

-- Whoever is pushed out by a new key is behind every other key of the order.
theorem Recent.evicted {front : List K} {old : K} (recent : Recent (front ++ [old]) uses) (distinct : (front ++ [old]).Nodup)
    (absent : key ∉ front ++ [old]) : front.length + 1 ≤ (since old (key :: uses)).card := by
  have apart : key ≠ old := by
    intro same
    rw [same] at absent
    exact absent (List.mem_append_right front (List.mem_singleton_self old))
  have fresh : key ∉ front := fun member => absent (List.mem_append_left _ member)
  have once : front.Nodup := distinct.sublist (List.sublist_append_left front _)
  have behind : ∀ newer ∈ front, newer ∈ since old uses := by
    intro newer member
    exact (List.pairwise_append.mp recent).2.2 newer member old (List.mem_singleton_self old)
  have inside : insert key front.toFinset ⊆ since old (key :: uses) := by
    rw [since_other apart]
    apply Finset.insert_subset_insert
    intro newer member
    exact behind newer (List.mem_toFinset.mp member)
  have size := Finset.card_le_card inside
  rw [Finset.card_insert_of_notMem (fun member => fresh (List.mem_toFinset.mp member)),List.toFinset_card_of_nodup once] at size
  exact size

end DeepFry.Recency
