import Mathlib.Order.BourbakiWitt
import Mathlib.Order.CompletePartialOrder
import Mathlib.Order.FixedPoints
import Mathlib.Data.Set.Finite.Lattice
import Mathlib.Tactic

namespace DeepFry.Closure

-- Library layer: the least set that holds some seeds and whatever a monotone rule derives from it, and the rounds that reach it.
variable {α : Type*}

def accrete (seeds : Set α) (derive : Set α →o Set α) : Set α →o Set α where
  toFun s := seeds ∪ derive s
  monotone' := fun _ _ less => Set.union_subset_union_right seeds (derive.monotone less)

def closure (seeds : Set α) (derive : Set α →o Set α) : Set α := OrderHom.lfp (accrete seeds derive)

section Closure
variable {seeds s : Set α} {derive : Set α →o Set α}

theorem closure_seeds (seeds : Set α) (derive : Set α →o Set α) : seeds ⊆ closure seeds derive := by
  have fixed := OrderHom.map_lfp (accrete seeds derive)
  intro a member
  unfold closure
  rw [← fixed]
  exact .inl member

theorem closure_derive (seeds : Set α) (derive : Set α →o Set α) : derive (closure seeds derive) ⊆ closure seeds derive := by
  have fixed := OrderHom.map_lfp (accrete seeds derive)
  intro a member
  unfold closure
  rw [← fixed]
  exact .inr member

theorem closure_le (holds : seeds ⊆ s) (closed : derive s ⊆ s) : closure seeds derive ⊆ s :=
  OrderHom.lfp_le (accrete seeds derive) (Set.union_subset holds closed)

theorem closure_least (seeds : Set α) (derive : Set α →o Set α) :
    IsLeast {s | seeds ⊆ s ∧ derive s ⊆ s} (closure seeds derive) :=
  ⟨⟨closure_seeds seeds derive,closure_derive seeds derive⟩,fun _ upper => closure_le upper.1 upper.2⟩

theorem closure_mono {more : Set α} {stronger : Set α →o Set α} (grown : seeds ⊆ more) (weaker : derive ≤ stronger) :
    closure seeds derive ⊆ closure more stronger :=
  closure_le (grown.trans (closure_seeds more stronger)) ((weaker _).trans (closure_derive more stronger))

-- A state of the rounds: it holds the seeds and only derived elements.
structure Between (seeds : Set α) (derive : Set α →o Set α) (s : Set α) : Prop where
  held : seeds ⊆ s
  derived : s ⊆ closure seeds derive

theorem Between.refl : Between seeds derive seeds := ⟨subset_rfl,closure_seeds seeds derive⟩

theorem Between.round (between : Between seeds derive s) : Between seeds derive (s ∪ derive s) :=
  ⟨between.held.trans Set.subset_union_left,
    Set.union_subset between.derived ((derive.monotone between.derived).trans (closure_derive seeds derive))⟩

-- A round that adds nothing has reached the closure.
theorem Between.settled (between : Between seeds derive s) (nothing : derive s ⊆ s) : s = closure seeds derive :=
  between.derived.antisymm (closure_le between.held nothing)

end Closure

end DeepFry.Closure
