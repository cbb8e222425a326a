import Mathlib.Data.List.Destutter
import Mathlib.Order.Defs.LinearOrder
import Mathlib.Tactic

namespace DeepFry.Destutter
variable {α : Type*} [DecidableEq α]

-- Dropping immediate repeats, as the source does after each of its sorts.
theorem mem_destutter' {head x : α} {keys : List α} :
    x ∈ keys.destutter' (· ≠ ·) head ↔ x = head ∨ x ∈ keys := by
  induction keys generalizing head with
  | nil => simp
  | cons next rest ih =>
    rw [List.destutter'_cons]
    split
    · rw [List.mem_cons,ih,List.mem_cons]
    · rename_i same
      have equal : head = next := not_not.mp same
      rw [ih,List.mem_cons,equal]
      simp

theorem mem_destutter {x : α} {keys : List α} : x ∈ keys.destutter (· ≠ ·) ↔ x ∈ keys := by
  cases keys with
  | nil => simp
  | cons head rest => rw [List.destutter_cons',mem_destutter',List.mem_cons]

-- Dropping the repeats of a sorted list leaves distinct keys.
theorem sorted_destutter {α : Type*} [LinearOrder α] [DecidableEq α] {keys : List α} (sorted : keys.Pairwise (· ≤ ·)) :
    (keys.destutter (· ≠ ·)).Nodup := by
  have rising : (keys.destutter (· ≠ ·)).IsChain (· < ·) := by
    have weak := (sorted.sublist (List.destutter_sublist (· ≠ ·) keys)).isChain
    have apart := List.isChain_destutter (· ≠ ·) keys
    rw [List.isChain_iff_getElem] at weak apart ⊢
    intro i bound
    exact lt_of_le_of_ne (weak i bound) (apart i bound)
  exact rising.pairwise.imp fun less => ne_of_lt less

end DeepFry.Destutter
