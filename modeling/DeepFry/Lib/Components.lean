import Mathlib.Combinatorics.SimpleGraph.Connectivity.Connected
import Mathlib.Data.Set.Card
import Mathlib.Tactic

namespace DeepFry.Components
open SimpleGraph

-- Library layer: the connected components of a finite graph that hold two vertices or more.
variable {V W : Type*} {G : SimpleGraph V} {H : SimpleGraph W}

def crowded (G : SimpleGraph V) : Set G.ConnectedComponent := {c | 2 ≤ c.supp.ncard}

-- The vertices with a neighbour.
def touched (G : SimpleGraph V) : Set V := {v | ∃ w, G.Adj v w}

@[simp] theorem mem_crowded {c : G.ConnectedComponent} : c ∈ crowded G ↔ 2 ≤ c.supp.ncard := Iff.rfl

theorem supp_mk (v : V) : (G.connectedComponentMk v).supp = {w | G.Reachable w v} := by
  ext w
  rw [ConnectedComponent.mem_supp_iff,ConnectedComponent.eq]
  rfl

-- Vertices under other names have the same components.
theorem crowded_iso (e : G ≃g H) : (crowded G).ncard = (crowded H).ncard := by
  have sizes : ∀ c, c.supp.ncard = (e.connectedComponentEquiv c).supp.ncard := fun c =>
    Set.ncard_congr' (ConnectedComponent.isoEquivSupp e c)
  apply Set.ncard_congr fun c _ => e.connectedComponentEquiv c
  · intro c many
    rw [mem_crowded,← sizes]
    exact many
  · exact fun c d _ _ equal => e.connectedComponentEquiv.injective equal
  · intro d many
    refine ⟨e.connectedComponentEquiv.symm d,?_,Equiv.apply_symm_apply _ d⟩
    rw [mem_crowded,sizes,Equiv.apply_symm_apply]
    exact many

theorem touched_iso (e : G ≃g H) : (touched G).ncard = (touched H).ncard := by
  apply Set.ncard_congr fun v _ => e v
  · intro v some
    obtain ⟨w,edge⟩ := some
    exact ⟨e w,e.map_adj_iff.mpr edge⟩
  · exact fun v w _ _ equal => e.injective equal
  · intro v some
    obtain ⟨w,edge⟩ := some
    refine ⟨e.symm v,⟨e.symm w,?_⟩,e.apply_symm_apply v⟩
    rwa [← e.map_adj_iff,e.apply_symm_apply,e.apply_symm_apply]

-- Whatever names the components counts them by the names that are used twice.
theorem crowded_names {κ : Type*} (name : V → κ) (same : ∀ v w, name v = name w ↔ G.Reachable v w) :
    (crowded G).ncard = {k | 2 ≤ {v | name v = k}.ncard}.ncard := by
  let named : G.ConnectedComponent → κ := Quot.lift name fun v w reach => (same v w).mpr reach
  have injective : Function.Injective named := by
    intro c d equal
    induction c using ConnectedComponent.ind with | _ v
    induction d using ConnectedComponent.ind with | _ w
    exact ConnectedComponent.sound ((same v w).mp equal)
  have members : ∀ v, {w | name w = name v} = (G.connectedComponentMk v).supp := by
    intro v
    rw [supp_mk]
    ext w
    exact same w v
  have image : {k | 2 ≤ {v | name v = k}.ncard} = named '' crowded G := by
    ext k
    constructor
    · intro many
      obtain ⟨v,here⟩ : {v | name v = k}.Nonempty := by
        apply Set.nonempty_of_ncard_ne_zero
        have twice : 2 ≤ {v | name v = k}.ncard := many
        omega
      obtain rfl : name v = k := here
      refine ⟨G.connectedComponentMk v,?_,rfl⟩
      rw [mem_crowded,← members]
      exact many
    · intro found
      obtain ⟨c,many,rfl⟩ := found
      induction c using ConnectedComponent.ind with | _ v
      change 2 ≤ {w | name w = name v}.ncard
      rw [members]
      exact many
  rw [image,Set.ncard_image_of_injective _ injective]

variable [Finite V]

-- A vertex stands in one of them exactly when it has a neighbour.
theorem crowded_mk (v : V) : G.connectedComponentMk v ∈ crowded G ↔ v ∈ touched G := by
  constructor
  · intro many
    obtain ⟨w,inside,other⟩ := Set.exists_ne_of_one_lt_ncard many v
    rw [supp_mk] at inside
    obtain ⟨walk⟩ := inside.symm
    cases walk with
    | nil => exact absurd rfl other
    | cons edge _ => exact ⟨_,edge⟩
  · intro some
    obtain ⟨w,edge⟩ := some
    apply (Set.one_lt_ncard_iff (Set.toFinite _)).mpr
    refine ⟨v,w,ConnectedComponent.connectedComponentMk_mem,?_,edge.ne⟩
    rw [supp_mk]
    exact edge.symm.reachable

-- Each of them has two vertices of its own.
theorem crowded_double : 2 * (crowded G).ncard ≤ (touched G).ncard := by
  classical
  have := Fintype.ofFinite V
  have pieces : ∀ c ∈ (crowded G).toFinset, 2 ≤ ((touched G).toFinset.filter fun v => G.connectedComponentMk v = c).card := by
    intro c member
    rw [Set.mem_toFinset] at member
    have many := mem_crowded.mp member
    rw [Set.ncard_eq_toFinset_card'] at many
    apply many.trans (Finset.card_le_card _)
    intro v inside
    have here : G.connectedComponentMk v = c := by simpa using inside
    rw [Finset.mem_filter,Set.mem_toFinset]
    exact ⟨(crowded_mk v).mp (here ▸ member),here⟩
  have sorted : ∀ v ∈ (touched G).toFinset, G.connectedComponentMk v ∈ (crowded G).toFinset := by
    intro v member
    rw [Set.mem_toFinset] at member ⊢
    exact (crowded_mk v).mpr member
  have least := Finset.card_nsmul_le_sum (crowded G).toFinset _ 2 pieces
  rw [← Finset.card_eq_sum_card_fiberwise sorted,smul_eq_mul,mul_comm] at least
  rwa [Set.ncard_eq_toFinset_card',Set.ncard_eq_toFinset_card']

end DeepFry.Components
