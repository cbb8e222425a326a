import Mathlib.Data.Fintype.Card
import Mathlib.Logic.Relation
import Mathlib.Tactic

namespace DeepFry.UnionFind

-- Library layer: a disjoint-set forest whose find halves the paths it walks and whose union attaches root to root.
variable {n : Nat}

-- So many parents above a node stands its root.
inductive Climb (parent : Fin n → Fin n) : Nat → Fin n → Fin n → Prop where
  | root {r : Fin n} : parent r = r → Climb parent 0 r r
  | up {k : Nat} {x r : Fin n} : parent x ≠ x → Climb parent k (parent x) r → Climb parent (k + 1) x r

theorem Climb.unique {parent : Fin n → Fin n} {k l : Nat} {x r s : Fin n} (first : Climb parent k x r) (second : Climb parent l x s) :
    k = l ∧ r = s := by
  induction first generalizing l with
  | root fixed =>
    cases second with
    | root => exact ⟨rfl,rfl⟩
    | up moves => exact absurd fixed moves
  | up moves _ ih =>
    cases second with
    | root fixed => exact absurd fixed moves
    | up _ rest =>
      obtain ⟨steps,same⟩ := ih rest
      exact ⟨congrArg (· + 1) steps,same⟩

theorem Climb.fixed {parent : Fin n → Fin n} {k : Nat} {x r : Fin n} (climb : Climb parent k x r) : parent r = r := by
  induction climb with
  | root fixed => exact fixed
  | up _ _ ih => exact ih

-- Every height up to that of a node is met on its way.
theorem Climb.heights {parent : Fin n → Fin n} {k : Nat} {x r : Fin n} (climb : Climb parent k x r) (j : Nat) (low : j ≤ k) :
    ∃ y, Climb parent j y r := by
  induction climb with
  | @root r fixed =>
    obtain rfl : j = 0 := by omega
    exact ⟨r,.root fixed⟩
  | @up k x r moves rest ih =>
    by_cases top : j = k + 1
    · subst top
      exact ⟨x,.up moves rest⟩
    · exact ih (by omega)

theorem Climb.short {parent : Fin n → Fin n} {k : Nat} {x r : Fin n} (climb : Climb parent k x r) : k < n := by
  choose node stands using fun j : Fin (k + 1) => climb.heights j (Nat.lt_succ_iff.mp j.isLt)
  have injective : Function.Injective node := by
    intro i j same
    apply Fin.ext
    exact ((same ▸ stands i : Climb parent i (node j) r).unique (stands j)).1
  have counted := Fintype.card_le_of_injective node injective
  simp only [Fintype.card_fin] at counted
  exact counted

structure Forest (n : Nat) where
  parent : Fin n → Fin n
  rooted : ∀ x, ∃ k r, Climb parent k x r

def apart (n : Nat) : Forest n := ⟨id,fun x => ⟨0,x,.root rfl⟩⟩

-- What stands lower than a node does not pass it.
theorem Climb.update {parent : Fin n → Fin n} {x : Fin n} {h : Nat} {top : Fin n} (here : Climb parent h x top) (y : Fin n) {k : Nat} {z r : Fin n}
    (climb : Climb parent k z r) (low : k < h) : Climb (Function.update parent x y) k z r := by
  induction climb with
  | @root r fixed =>
    have other : r ≠ x := by
      intro same
      subst same
      have height := (here.unique (.root fixed)).1
      omega
    exact .root (by rw [Function.update_of_ne other,fixed])
  | @up k z r moves rest ih =>
    have other : z ≠ x := by
      intro same
      subst same
      have height := (here.unique (.up moves rest)).1
      omega
    apply Climb.up
    · rwa [Function.update_of_ne other]
    · rw [Function.update_of_ne other]
      exact ih (by omega)

-- A node that is attached to one that stands lower below the same root keeps that root, and so does every other node.
theorem Climb.lowered {parent : Fin n → Fin n} {x a top : Fin n} {h i : Nat} (here : Climb parent h x top) (beneath : Climb parent i a top)
    (low : i < h) {k : Nat} {z r : Fin n} (climb : Climb parent k z r) : ∃ j ≤ k, Climb (Function.update parent x a) j z r := by
  induction climb with
  | @root r fixed =>
    have other : r ≠ x := by
      intro same
      subst same
      have height := (here.unique (.root fixed)).1
      omega
    exact ⟨0,le_rfl,.root (by rw [Function.update_of_ne other,fixed])⟩
  | @up k z r moves rest ih =>
    by_cases same : z = x
    · subst same
      obtain ⟨rfl,rfl⟩ := here.unique (.up moves rest)
      refine ⟨i + 1,by omega,.up ?_ ?_⟩
      · rw [Function.update_self]
        intro loop
        subst loop
        have height := (here.unique beneath).1
        omega
      · rw [Function.update_self]
        exact here.update a beneath low
    · obtain ⟨j,few,kept⟩ := ih
      refine ⟨j + 1,by omega,.up ?_ ?_⟩
      · rwa [Function.update_of_ne same]
      · rwa [Function.update_of_ne same]

theorem Climb.grandparent {parent : Fin n → Fin n} {k : Nat} {x r : Fin n} (here : Climb parent (k + 1) x r) :
    ∃ i ≤ k, Climb parent i (parent (parent x)) r := by
  cases here with
  | up _ rest =>
    cases rest with
    | root fixed =>
      rw [fixed]
      exact ⟨0,le_rfl,.root fixed⟩
    | @up k _ _ _ rest => exact ⟨k,by omega,rest⟩

-- The loop of find.
def climb : Nat → (Fin n → Fin n) → Fin n → Fin n × (Fin n → Fin n)
  | 0,parent,x => (x,parent)
  | fuel+1,parent,x =>
    if parent x = x then (x,parent)
    else
      let halved := Function.update parent x (parent (parent x))
      climb fuel halved (halved x)

-- With as much fuel as the node has parents the loop stops at its root, and moves no node to another root.
theorem climb_spec {fuel k : Nat} {parent : Fin n → Fin n} {x r : Fin n} (here : Climb parent k x r) (enough : k ≤ fuel) :
    (climb fuel parent x).1 = r ∧ ∀ l z s, Climb parent l z s → ∃ j ≤ l, Climb (climb fuel parent x).2 j z s := by
  induction fuel generalizing k parent x with
  | zero =>
    obtain rfl : k = 0 := by omega
    cases here with
    | root => exact ⟨rfl,fun l z s there => ⟨l,le_rfl,there⟩⟩
  | succ fuel ih =>
    rw [climb]
    by_cases top : parent x = x
    · rw [if_pos top]
      exact ⟨((Climb.root top).unique here).2,fun l z s there => ⟨l,le_rfl,there⟩⟩
    · rw [if_neg top]
      cases k with
      | zero =>
        cases here with
        | root fixed => exact absurd fixed top
      | succ k =>
        obtain ⟨i,low,beneath⟩ := here.grandparent
        obtain ⟨j,few,moved⟩ := here.lowered beneath (by omega) here
        cases moved with
        | root => exact absurd here.fixed top
        | up _ rest =>
          obtain ⟨found,kept⟩ := ih rest (by omega)
          refine ⟨found,?_⟩
          intro l z s there
          obtain ⟨j,fewer,halved⟩ := here.lowered beneath (by omega) there
          obtain ⟨i,least,last⟩ := kept j z s halved
          exact ⟨i,least.trans fewer,last⟩

theorem climb_rooted (f : Forest n) (x : Fin n) : ∀ z, ∃ k r, Climb (climb n f.parent x).2 k z r := by
  intro z
  obtain ⟨k,r,here⟩ := f.rooted x
  obtain ⟨l,s,there⟩ := f.rooted z
  obtain ⟨j,_,last⟩ := (climb_spec here here.short.le).2 l z s there
  exact ⟨j,s,last⟩

-- The parent of a root is another root from then on.
theorem Climb.attach {parent : Fin n → Fin n} {a b : Fin n} (topA : parent a = a) (topB : parent b = b) (other : a ≠ b) {k : Nat} {z r : Fin n}
    (here : Climb parent k z r) : ∃ j, Climb (Function.update parent a b) j z (if r = a then b else r) := by
  have apart : b ≠ a := fun same => other same.symm
  have foot : Climb (Function.update parent a b) 0 b b := .root (by rw [Function.update_of_ne apart,topB])
  induction here with
  | @root r fixed =>
    by_cases same : r = a
    · subst same
      rw [if_pos rfl]
      refine ⟨1,.up ?_ ?_⟩
      · rwa [Function.update_self]
      · rwa [Function.update_self]
    · rw [if_neg same]
      exact ⟨0,.root (by rw [Function.update_of_ne same,fixed])⟩
  | @up k z r moves rest ih =>
    obtain ⟨j,higher⟩ := ih
    have inner : z ≠ a := fun same => moves (same ▸ topA)
    refine ⟨j + 1,.up ?_ ?_⟩
    · rwa [Function.update_of_ne inner]
    · rwa [Function.update_of_ne inner]

def Forest.find (f : Forest n) (x : Fin n) : Fin n × Forest n := ((climb n f.parent x).1,⟨(climb n f.parent x).2,climb_rooted f x⟩)

def Forest.root (f : Forest n) (x : Fin n) : Fin n := (f.find x).1

theorem Forest.root_eq {f : Forest n} {k : Nat} {x r : Fin n} (here : Climb f.parent k x r) : f.root x = r := (climb_spec here here.short.le).1

theorem Forest.root_climb (f : Forest n) (x : Fin n) : ∃ k, Climb f.parent k x (f.root x) := by
  obtain ⟨k,r,here⟩ := f.rooted x
  rw [root_eq here]
  exact ⟨k,here⟩

theorem Forest.root_fixed (f : Forest n) (x : Fin n) : f.parent (f.root x) = f.root x := by
  obtain ⟨_,here⟩ := f.root_climb x
  exact here.fixed

@[simp] theorem apart_root (x : Fin n) : (apart n).root x = x := Forest.root_eq (.root rfl)

@[simp] theorem Forest.find_fst (f : Forest n) (x : Fin n) : (f.find x).1 = f.root x := rfl

-- A search changes the forest and none of its roots.
@[simp] theorem Forest.find_root (f : Forest n) (x z : Fin n) : (f.find x).2.root z = f.root z := by
  obtain ⟨k,here⟩ := f.root_climb x
  obtain ⟨l,there⟩ := f.root_climb z
  obtain ⟨_,_,last⟩ := (climb_spec here here.short.le).2 l z _ there
  exact root_eq last

def Forest.attach (f : Forest n) (a b : Fin n) (topA : f.parent a = a) (topB : f.parent b = b) (other : a ≠ b) : Forest n where
  parent := Function.update f.parent a b
  rooted := by
    intro z
    obtain ⟨k,r,here⟩ := f.rooted z
    obtain ⟨j,higher⟩ := here.attach topA topB other
    exact ⟨j,_,higher⟩

theorem Forest.root_attach (f : Forest n) {a b : Fin n} (topA : f.parent a = a) (topB : f.parent b = b) (other : a ≠ b) (z : Fin n) :
    (f.attach a b topA topB other).root z = if f.root z = a then b else f.root z := by
  obtain ⟨_,here⟩ := f.root_climb z
  obtain ⟨_,higher⟩ := here.attach topA topB other
  exact root_eq higher

theorem Forest.find_fixed (f : Forest n) (x z : Fin n) : (f.find x).2.parent (f.root z) = f.root z := by
  have fixed := (f.find x).2.root_fixed z
  rwa [f.find_root] at fixed

def Forest.union (f : Forest n) (a b : Fin n) : Forest n :=
  let first := f.find a
  let second := first.2.find b
  if other : first.1 ≠ second.1 then
    second.2.attach first.1 second.1 (by
      have fixed := first.2.find_fixed b a
      rwa [f.find_root] at fixed) (first.2.find_fixed b b) other
  else second.2

-- The nodes of one root hang below another, and no others move.
theorem Forest.union_root (f : Forest n) (a b z : Fin n) : (f.union a b).root z = if f.root z = f.root a then f.root b else f.root z := by
  unfold union
  by_cases other : f.root a ≠ f.root b
  · have apart : (f.find a).1 ≠ ((f.find a).2.find b).1 := by simpa using other
    rw [dif_pos apart]
    simp only [root_attach,find_fst,find_root]
  · have same : ¬ (f.find a).1 ≠ ((f.find a).2.find b).1 := by simpa using other
    rw [dif_neg same]
    simp only [find_root]
    split
    · next equal => rw [equal,not_not.mp other]
    · rfl

-- A find of two loops: the first climbs to the root, the second hangs every node of the path below it. Out of fuel a loop has no answer.
def rise : Nat → (Fin n → Fin n) → Fin n → Option (Fin n)
  | 0,_,_ => none
  | fuel+1,parent,r => if parent r = r then some r else rise fuel parent (parent r)

def compress : Nat → (Fin n → Fin n) → Fin n → Fin n → Option (Fin n → Fin n)
  | 0,_,_,_ => none
  | fuel+1,parent,r,c => if parent c = r then some parent else compress fuel (Function.update parent c r) r (parent c)

def seek (fuel : Nat) (parent : Fin n → Fin n) (x : Fin n) : Option (Fin n × (Fin n → Fin n)) := do
  let r ← rise fuel parent x
  let next ← compress fuel parent r x
  return (r,next)

def join (fuel : Nat) (parent : Fin n → Fin n) (a b : Fin n) : Option (Fin n → Fin n) := do
  let (left,first) ← seek fuel parent a
  let (right,second) ← seek fuel first b
  return if left = right then second else Function.update second left right

theorem rise_spec {fuel k : Nat} {parent : Fin n → Fin n} {x r : Fin n} (here : Climb parent k x r) (enough : k < fuel) :
    rise fuel parent x = some r := by
  induction here generalizing fuel with
  | root fixed =>
    cases fuel with
    | zero => omega
    | succ fuel => rw [rise,if_pos fixed]
  | up moves _ ih =>
    cases fuel with
    | zero => omega
    | succ fuel =>
      rw [rise,if_neg moves]
      exact ih (by omega)

-- The second loop ends, and moves no node to another root.
theorem compress_spec {fuel k : Nat} {parent : Fin n → Fin n} {x r : Fin n} (here : Climb parent k x r) (enough : k ≤ fuel) (some_fuel : 0 < fuel) :
    ∃ next, compress fuel parent r x = some next ∧ ∀ l z s, Climb parent l z s → ∃ j ≤ l, Climb next j z s := by
  induction fuel generalizing k parent x with
  | zero => omega
  | succ fuel ih =>
    rw [compress]
    by_cases direct : parent x = r
    · rw [if_pos direct]
      exact ⟨parent,rfl,fun l z s there => ⟨l,le_rfl,there⟩⟩
    · rw [if_neg direct]
      cases here with
      | root fixed => exact absurd fixed direct
      | @up k _ _ moves rest =>
        have top : Climb parent 0 r r := .root rest.fixed
        have path := Climb.up moves rest
        have further : 0 < k := by
          cases rest with
          | root => exact absurd rfl direct
          | up => exact Nat.succ_pos _
        obtain ⟨next,ended,kept⟩ := ih (path.update r rest (Nat.lt_succ_self k)) (by omega) (by omega)
        refine ⟨next,ended,?_⟩
        intro l z s there
        obtain ⟨j,fewer,pressed⟩ := path.lowered top (Nat.succ_pos k) there
        obtain ⟨i,least,last⟩ := kept j z s pressed
        exact ⟨i,least.trans fewer,last⟩

theorem seek_forest {fuel : Nat} (enough : n ≤ fuel) (f : Forest n) (x : Fin n) :
    ∃ g : Forest n, seek fuel f.parent x = some (f.root x,g.parent) ∧ ∀ z, g.root z = f.root z := by
  obtain ⟨k,here⟩ := f.root_climb x
  have short := here.short
  obtain ⟨next,ended,kept⟩ := compress_spec here (by omega : k ≤ fuel) (by omega)
  have rooted : ∀ z, ∃ k r, Climb next k z r := by
    intro z
    obtain ⟨l,there⟩ := f.root_climb z
    obtain ⟨j,_,last⟩ := kept l z _ there
    exact ⟨j,_,last⟩
  refine ⟨⟨next,rooted⟩,?_,?_⟩
  · rw [seek,rise_spec here (by omega)]
    simp [ended]
  · intro z
    obtain ⟨l,there⟩ := f.root_climb z
    obtain ⟨j,_,last⟩ := kept l z _ there
    exact Forest.root_eq last

-- With as much fuel as there are nodes both searches end, and the nodes of one root hang below another.
theorem join_forest {fuel : Nat} (enough : n ≤ fuel) (f : Forest n) (a b : Fin n) :
    ∃ g : Forest n, join fuel f.parent a b = some g.parent ∧ ∀ z, g.root z = if f.root z = f.root a then f.root b else f.root z := by
  obtain ⟨first,left,kept⟩ := seek_forest enough f a
  obtain ⟨second,right,again⟩ := seek_forest enough first b
  have roots : ∀ z, second.root z = f.root z := fun z => (again z).trans (kept z)
  have opened : join fuel f.parent a b =
      some (if f.root a = f.root b then second.parent else Function.update second.parent (f.root a) (f.root b)) := by
    rw [kept] at right
    simp [join,left,right]
  by_cases same : f.root a = f.root b
  · refine ⟨second,by rw [opened,if_pos same],?_⟩
    intro z
    rw [roots]
    split
    · next equal => rw [equal,same]
    · rfl
  · have topA := second.root_fixed a
    have topB := second.root_fixed b
    rw [roots] at topA topB
    refine ⟨second.attach (f.root a) (f.root b) topA topB same,by rw [opened,if_neg same]; rfl,?_⟩
    intro z
    rw [Forest.root_attach,roots]

-- Two nodes have one root exactly when a chain of the relation's pairs connects them.
def Spans (f : Forest n) (R : Fin n → Fin n → Prop) : Prop := ∀ x y, f.root x = f.root y ↔ Relation.EqvGen R x y

variable {f : Forest n} {R S : Fin n → Fin n → Prop}

theorem root_connected (held : ∀ x y, R x y → f.root x = f.root y) {x y : Fin n} (chain : Relation.EqvGen R x y) : f.root x = f.root y := by
  induction chain with
  | rel x y pair => exact held x y pair
  | refl => rfl
  | symm _ _ _ ih => exact ih.symm
  | trans _ _ _ _ _ left right => exact left.trans right

theorem chain_within (held : ∀ x y, R x y → Relation.EqvGen S x y) {x y : Fin n} (chain : Relation.EqvGen R x y) : Relation.EqvGen S x y := by
  induction chain with
  | rel x y pair => exact held x y pair
  | refl x => exact .refl x
  | symm _ _ _ ih => exact .symm _ _ ih
  | trans _ _ _ _ _ left right => exact .trans _ _ _ left right

theorem spans_apart : Spans (apart n) fun _ _ => False := by
  intro x y
  rw [apart_root,apart_root]
  constructor
  · intro same
    rw [same]
    exact .refl y
  · intro chain
    have same := root_connected (f := apart n) (fun _ _ => False.elim) chain
    simpa using same

theorem Spans.congr (spans : Spans f R) (there : ∀ x y, R x y → Relation.EqvGen S x y) (back : ∀ x y, S x y → Relation.EqvGen R x y) : Spans f S := by
  intro x y
  rw [spans x y]
  exact ⟨chain_within there,chain_within back⟩

theorem Spans.find (spans : Spans f R) (x : Fin n) : Spans (f.find x).2 R := by
  intro y z
  rw [f.find_root,f.find_root]
  exact spans y z

-- A pair that is connected already adds nothing.
theorem Spans.skip (spans : Spans f R) {a b : Fin n} (same : f.root a = f.root b) : Spans f fun x y => R x y ∨ x = a ∧ y = b := by
  apply spans.congr
  · exact fun x y pair => .rel x y (.inl pair)
  · intro x y either
    obtain pair | ⟨rfl,rfl⟩ := either
    · exact .rel x y pair
    · exact (spans x y).mp same

theorem Spans.merged {g : Forest n} (spans : Spans f R) {a b : Fin n}
    (moved : ∀ z, g.root z = if f.root z = f.root a then f.root b else f.root z) : Spans g fun x y => R x y ∨ x = a ∧ y = b := by
  have chained : ∀ x y, f.root x = f.root y → Relation.EqvGen (fun x y => R x y ∨ x = a ∧ y = b) x y := by
    intro x y same
    exact chain_within (fun x y pair => .rel x y (.inl pair)) ((spans x y).mp same)
  have edge : Relation.EqvGen (fun x y => R x y ∨ x = a ∧ y = b) a b := .rel a b (.inr ⟨rfl,rfl⟩)
  intro x y
  constructor
  · rw [moved,moved]
    intro same
    by_cases left : f.root x = f.root a
    · have joined := (chained x a left).trans _ _ _ edge
      by_cases right : f.root y = f.root a
      · exact chained x y (left.trans right.symm)
      · rw [if_pos left,if_neg right] at same
        exact joined.trans _ _ _ (chained b y same)
    · by_cases right : f.root y = f.root a
      · rw [if_neg left,if_pos right] at same
        exact (chained x b same).trans _ _ _ (((chained y a right).trans _ _ _ edge).symm _ _)
      · rw [if_neg left,if_neg right] at same
        exact chained x y same
  · apply root_connected
    intro x y either
    rw [moved,moved]
    obtain pair | ⟨rfl,rfl⟩ := either
    · rw [(spans x y).mpr (.rel x y pair)]
    · simp

theorem Spans.union (spans : Spans f R) (a b : Fin n) : Spans (f.union a b) fun x y => R x y ∨ x = a ∧ y = b :=
  spans.merged (f.union_root a b)

-- A loop whose every pass adds pairs of its own.
theorem Spans.foldl {β : Type} (items : List β) {pass : Forest n → β → Forest n} (edge : β → Fin n → Fin n → Prop)
    (adds : ∀ item ∈ items, ∀ f R, Spans f R → Spans (pass f item) fun x y => R x y ∨ edge item x y) (spans : Spans f R) :
    Spans (items.foldl pass f) fun x y => R x y ∨ ∃ item ∈ items, edge item x y := by
  induction items generalizing f R with
  | nil => simpa using spans
  | cons item items ih =>
    have first := adds item List.mem_cons_self f R spans
    have rest := ih (fun other member => adds other (List.mem_cons_of_mem item member)) first
    simpa only [List.foldl_cons,List.exists_mem_cons_iff,or_assoc] using rest

-- The same for a loop whose passes may fail to end.
theorem Spans.foldlM {β : Type} (items : List β) {pass : (Fin n → Fin n) → β → Option (Fin n → Fin n)} (edge : β → Fin n → Fin n → Prop)
    (adds : ∀ item ∈ items, ∀ f R, Spans f R → ∃ g, pass f.parent item = some g.parent ∧ Spans g fun x y => R x y ∨ edge item x y)
    (spans : Spans f R) :
    ∃ g, items.foldlM pass f.parent = some g.parent ∧ Spans g fun x y => R x y ∨ ∃ item ∈ items, edge item x y := by
  induction items generalizing f R with
  | nil => exact ⟨f,rfl,by simpa using spans⟩
  | cons item items ih =>
    obtain ⟨next,passed,first⟩ := adds item List.mem_cons_self f R spans
    obtain ⟨last,ended,rest⟩ := ih (fun other member => adds other (List.mem_cons_of_mem item member)) first
    refine ⟨last,by simp [passed,ended],?_⟩
    simpa only [List.exists_mem_cons_iff,or_assoc] using rest

-- The nodes that chains of the relation's pairs connect with one of them.
def Component (R : Fin n → Fin n → Prop) (nodes : Finset (Fin n)) : Prop := ∃ x, ∀ y, y ∈ nodes ↔ Relation.EqvGen R x y

theorem component_congr (there : ∀ x y, R x y → Relation.EqvGen S x y) (back : ∀ x y, S x y → Relation.EqvGen R x y) (nodes : Finset (Fin n)) :
    Component R nodes ↔ Component S nodes := by
  have same : ∀ x y, Relation.EqvGen R x y ↔ Relation.EqvGen S x y := fun x y => ⟨chain_within there,chain_within back⟩
  simp only [Component,same]

end DeepFry.UnionFind
