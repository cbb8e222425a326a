import Mathlib.Algebra.BigOperators.Group.Finset.Basic
import Mathlib.Algebra.Order.BigOperators.Group.Multiset
import Mathlib.Data.Fintype.BigOperators
import Mathlib.Tactic

namespace DeepFry

-- Library layer: work in batches of one key each, held in lanes and taken out one by one. Every piece is in one
-- place, and the pieces of a key come out in order.
structure Lanes (P α : Type) where
  todo : List (List α)
  held : P → List α
  out : List α

namespace Lanes

theorem sum_update {P M N : Type} [Fintype P] [DecidableEq P] [AddCommMonoid N] (f : M → N) (w : P → M) (p : P) (x : M) :
    ∑ q, f (Function.update w p x q) + f (w p) = ∑ q, f (w q) + f x := by
  rw [Fintype.sum_eq_add_sum_compl p,Fintype.sum_eq_add_sum_compl p fun q => f (w q),Function.update_self]
  have others : ∑ q ∈ {p}ᶜ, f (Function.update w p x q) = ∑ q ∈ ({p}ᶜ : Finset P), f (w q) := by
    apply Finset.sum_congr rfl
    intro q member
    rw [Finset.mem_compl,Finset.mem_singleton] at member
    rw [Function.update_of_ne member]
  rw [others]
  abel

variable {P α κ : Type} [DecidableEq P] {key : α → κ} {le : α → α → Prop} {l : Lanes P α}

def take (l : Lanes P α) (p : P) (sorted : List α) (rest : List (List α)) : Lanes P α :=
  {l with todo := rest,held := Function.update l.held p sorted}

def hand (l : Lanes P α) (p q : P) : Lanes P α :=
  {l with held := Function.update (Function.update l.held p []) q (l.held p)}

def drop (l : Lanes P α) (p : P) (a : α) (rest : List α) : Lanes P α :=
  {l with held := Function.update l.held p rest,out := l.out ++ [a]}

def everything [Fintype P] (l : Lanes P α) : Multiset α :=
  (l.out : Multiset α) + ∑ p, (l.held p : Multiset α) + (l.todo.flatten : Multiset α)

theorem take_everything [Fintype P] {p : P} {batch sorted : List α} {rest : List (List α)}
    (next : l.todo = batch :: rest) (free : l.held p = []) (same : sorted.Perm batch) :
    (l.take p sorted rest).everything = l.everything := by
  have moved := sum_update (fun events : List α => (events : Multiset α)) l.held p sorted
  rw [free,Multiset.coe_nil,add_zero] at moved
  unfold everything take
  rw [next,List.flatten_cons,← Multiset.coe_add,moved,Multiset.coe_eq_coe.mpr same]
  abel

theorem hand_everything [Fintype P] {p q : P} (apart : q ≠ p) (free : l.held q = []) :
    (l.hand p q).everything = l.everything := by
  have left := sum_update (fun events : List α => (events : Multiset α)) l.held p []
  have right := sum_update (fun events : List α => (events : Multiset α)) (Function.update l.held p []) q (l.held p)
  rw [Function.update_of_ne apart,free] at right
  rw [Multiset.coe_nil,add_zero] at left right
  unfold everything hand
  dsimp only
  rw [right,left]

theorem drop_everything [Fintype P] {p : P} {a : α} {rest : List α} (first : l.held p = a :: rest) :
    (l.drop p a rest).everything = l.everything := by
  have moved := sum_update (fun events : List α => (events : Multiset α)) l.held p rest
  rw [first,← Multiset.cons_coe,← Multiset.singleton_add] at moved
  have same : ∑ q, (l.held q : Multiset α) = ∑ q, (Function.update l.held p rest q : Multiset α) + {a} := by
    apply add_right_cancel (b := (rest : Multiset α))
    rw [← moved]
    abel
  unfold everything drop
  dsimp only
  rw [same,← Multiset.coe_add,Multiset.coe_singleton]
  abel

-- One lane for a key, in order; the batches to come share no key with what was handed out.
structure Ordered (key : α → κ) (le : α → α → Prop) (l : Lanes P α) : Prop where
  lanes : ∀ p, (l.held p).Pairwise le
  apart : ∀ p q, p ≠ q → ∀ a ∈ l.held p, ∀ b ∈ l.held q, key a ≠ key b
  batches : l.todo.Pairwise fun x y => ∀ a ∈ x, ∀ b ∈ y, key a ≠ key b
  unheld : ∀ batch ∈ l.todo, ∀ a ∈ batch, ∀ p, ∀ b ∈ l.held p, key a ≠ key b
  unseen : ∀ batch ∈ l.todo, ∀ a ∈ batch, ∀ b ∈ l.out, key a ≠ key b
  behind : ∀ a ∈ l.out, ∀ p, ∀ b ∈ l.held p, key a = key b → le a b
  order : l.out.Pairwise fun a b => key a = key b → le a b

omit [DecidableEq P] in
theorem fresh_ordered {todo : List (List α)} (batches : todo.Pairwise fun x y => ∀ a ∈ x, ∀ b ∈ y, key a ≠ key b) :
    Ordered key le (⟨todo,fun _ => [],[]⟩ : Lanes P α) := by
  refine ⟨fun _ => .nil,?_,batches,?_,?_,?_,.nil⟩
  · intro p q _ a none
    cases none
  · intro batch _ a _ p b none
    cases none
  · intro batch _ a _ b none
    cases none
  · intro a none
    cases none

theorem take_ordered (ordered : Ordered key le l) {p : P} {batch sorted : List α} {rest : List (List α)}
    (next : l.todo = batch :: rest) (same : sorted.Perm batch) (sort : sorted.Pairwise le) :
    Ordered key le (l.take p sorted rest) := by
  have batches := ordered.batches
  have unheld := ordered.unheld
  have unseen := ordered.unseen
  rw [next] at batches unheld unseen
  have first : ∀ a ∈ sorted, ∀ q, ∀ b ∈ l.held q, key a ≠ key b := by
    intro a member
    exact unheld batch List.mem_cons_self a (same.mem_iff.mp member)
  refine ⟨?_,?_,batches.of_cons,?_,?_,?_,ordered.order⟩
  · intro q
    by_cases here : q = p
    · subst here
      simpa [take] using sort
    · simpa [take,here] using ordered.lanes q
  · intro q r other a left b right
    simp only [take] at left right
    by_cases here : q = p
    · subst here
      rw [Function.update_self] at left
      rw [Function.update_of_ne (Ne.symm other)] at right
      exact first a left r b right
    · rw [Function.update_of_ne here] at left
      by_cases there : r = p
      · subst there
        rw [Function.update_self] at right
        exact fun equal => first b right q a left equal.symm
      · rw [Function.update_of_ne there] at right
        exact ordered.apart q r other a left b right
  · intro later member a inside q b right
    simp only [take] at right
    by_cases here : q = p
    · subst here
      rw [Function.update_self] at right
      exact fun equal => (List.rel_of_pairwise_cons batches member) b (same.mem_iff.mp right) a inside equal.symm
    · rw [Function.update_of_ne here] at right
      exact unheld later (List.mem_cons_of_mem _ member) a inside q b right
  · intro later member
    exact unseen later (List.mem_cons_of_mem _ member)
  · intro a gone q b right equal
    simp only [take] at right
    by_cases here : q = p
    · subst here
      rw [Function.update_self] at right
      exact absurd equal.symm (unseen batch List.mem_cons_self b (same.mem_iff.mp right) a gone)
    · rw [Function.update_of_ne here] at right
      exact ordered.behind a gone q b right equal

-- Where a lane's pieces were before a batch changed lanes.
theorem hand_from {p q r : P} {a : α} (there : a ∈ (l.hand p q).held r) :
    (r = q ∧ a ∈ l.held p) ∨ (r ≠ q ∧ r ≠ p ∧ a ∈ l.held r) := by
  simp only [hand] at there
  by_cases here : r = q
  · subst here
    rw [Function.update_self] at there
    exact .inl ⟨rfl,there⟩
  · rw [Function.update_of_ne here] at there
    by_cases emptied : r = p
    · subst emptied
      rw [Function.update_self] at there
      cases there
    · rw [Function.update_of_ne emptied] at there
      exact .inr ⟨here,emptied,there⟩

theorem hand_ordered (ordered : Ordered key le l) (p q : P) : Ordered key le (l.hand p q) := by
  refine ⟨?_,?_,ordered.batches,?_,ordered.unseen,?_,ordered.order⟩
  · intro r
    simp only [hand]
    by_cases here : r = q
    · subst here
      rw [Function.update_self]
      exact ordered.lanes p
    · rw [Function.update_of_ne here]
      by_cases emptied : r = p
      · subst emptied
        rw [Function.update_self]
        exact .nil
      · rw [Function.update_of_ne emptied]
        exact ordered.lanes r
  · intro r s other a left b right
    obtain ⟨here,first⟩ | ⟨notLeft,offLeft,first⟩ := hand_from left
    · obtain ⟨there,_⟩ | ⟨_,offRight,second⟩ := hand_from right
      · exact absurd (here.trans there.symm) other
      · exact ordered.apart p s (Ne.symm offRight) a first b second
    · obtain ⟨_,second⟩ | ⟨_,_,second⟩ := hand_from right
      · exact ordered.apart r p offLeft a first b second
      · exact ordered.apart r s other a first b second
  · intro batch member a inside r b right
    obtain ⟨_,right⟩ | ⟨_,_,right⟩ := hand_from right
    · exact ordered.unheld batch member a inside p b right
    · exact ordered.unheld batch member a inside r b right
  · intro a gone r b right
    obtain ⟨_,right⟩ | ⟨_,_,right⟩ := hand_from right
    · exact ordered.behind a gone p b right
    · exact ordered.behind a gone r b right

theorem drop_from {p r : P} {a b : α} {rest : List α} (first : l.held p = a :: rest) (there : b ∈ (l.drop p a rest).held r) :
    b ∈ l.held r := by
  simp only [drop] at there
  by_cases here : r = p
  · subst here
    rw [Function.update_self] at there
    rw [first]
    exact List.mem_cons_of_mem a there
  · rwa [Function.update_of_ne here] at there

theorem drop_ordered (ordered : Ordered key le l) {p : P} {a : α} {rest : List α} (first : l.held p = a :: rest) :
    Ordered key le (l.drop p a rest) := by
  have own : a ∈ l.held p := by
    rw [first]
    exact List.mem_cons_self
  have sorted := ordered.lanes p
  rw [first] at sorted
  refine ⟨?_,?_,ordered.batches,?_,?_,?_,?_⟩
  · intro r
    simp only [drop]
    by_cases here : r = p
    · subst here
      rw [Function.update_self]
      exact sorted.of_cons
    · rw [Function.update_of_ne here]
      exact ordered.lanes r
  · intro r s other b left c right
    exact ordered.apart r s other b (drop_from first left) c (drop_from first right)
  · intro batch member b inside r c right
    exact ordered.unheld batch member b inside r c (drop_from first right)
  · intro batch member b inside c gone
    obtain gone | gone := List.mem_append.mp gone
    · exact ordered.unseen batch member b inside c gone
    · rw [List.mem_singleton.mp gone]
      exact ordered.unheld batch member b inside p a own
  · intro b gone r c right equal
    obtain gone | gone := List.mem_append.mp gone
    · exact ordered.behind b gone r c (drop_from first right) equal
    · rw [List.mem_singleton.mp gone] at equal ⊢
      by_cases here : r = p
      · subst here
        simp only [drop] at right
        rw [Function.update_self] at right
        exact List.rel_of_pairwise_cons sorted right
      · exact absurd equal (ordered.apart p r (Ne.symm here) a own c (drop_from first right))
  · refine List.pairwise_append.mpr ⟨ordered.order,List.pairwise_singleton _ _,?_⟩
    intro b gone c last equal
    rw [List.mem_singleton.mp last] at equal ⊢
    exact ordered.behind b gone p a own equal

end Lanes

end DeepFry
