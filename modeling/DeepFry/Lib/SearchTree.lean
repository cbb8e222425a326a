import Mathlib.Order.Defs.LinearOrder
import Mathlib.Data.List.Basic
import Mathlib.Tactic

namespace DeepFry.SearchTree
variable {κ α ρ : Type}

-- Binary search inside one page. A side tells how the sought key compares with a key of the page;
-- the answer is a position and whether the key there is the sought one.
def search (side : κ → Ordering) (keys : List κ) : Nat → Nat → Nat → Nat × Bool
  | 0,low,_ => (low,false)
  | steps+1,low,high =>
    if low < high then
      let mid := (low + high - 1) / 2
      match keys[mid]?.map side with
      | some .gt => search side keys steps (mid + 1) high
      | some .lt => search side keys steps low mid
      | some .eq => (mid,true)
      | none => (low,false)
    else (low,false)

def searchPage (side : κ → Ordering) (keys : List κ) : Nat × Bool := search side keys keys.length 0 keys.length

def slot (found : Nat × Bool) : Nat := 2 * found.1 + found.2.toNat

section Search
variable {side side' : κ → Ordering} {keys : List κ} {steps low high : Nat}

-- Where a search between two positions ends.
structure Reached (side : κ → Ordering) (keys : List κ) (low high : Nat) (found : Nat × Bool) : Prop where
  lower : low ≤ found.1
  upper : found.1 ≤ high
  exact : found.2 = true → found.1 < high ∧ ∃ key, keys[found.1]? = some key ∧ side key = .eq
  before : found.2 = false → low < found.1 → ∃ key, keys[found.1 - 1]? = some key ∧ side key = .gt
  after : found.2 = false → found.1 < high → ∃ key, keys[found.1]? = some key ∧ side key = .lt

theorem Reached.none {found : Nat} : Reached side keys found found (found,false) := by
  refine ⟨le_refl _,le_refl _,nofun,?_,?_⟩ <;> intro _ impossible <;> exact absurd impossible (lt_irrefl _)

theorem search_reached (enough : high - low ≤ steps) (ordered : low ≤ high) (bound : high ≤ keys.length) :
    Reached side keys low high (search side keys steps low high) := by
  induction steps generalizing low high with
  | zero =>
    have same : low = high := by omega
    subst same
    exact .none
  | succ steps ih =>
    unfold search
    split
    · rename_i room
      have inside : (low + high - 1) / 2 < high := by omega
      have reached : low ≤ (low + high - 1) / 2 := by omega
      generalize (low + high - 1) / 2 = mid at *
      obtain ⟨key,here⟩ : ∃ key, keys[mid]? = some key := ⟨_,List.getElem?_eq_getElem (inside.trans_le bound)⟩
      simp only [here,Option.map_some]
      cases step : side key with
      | gt =>
        obtain ⟨lower,upper,exact,before,after⟩ := @ih (mid + 1) high (by omega) (by omega) bound
        refine ⟨by simp only; omega,upper,exact,fun missed _ => ?_,after⟩
        rcases lower.eq_or_lt with same | further
        · exact ⟨key,by simp only; rw [← same]; exact here,step⟩
        · exact before missed further
      | lt =>
        obtain ⟨lower,upper,exact,before,after⟩ := @ih low mid (by omega) reached (by omega)
        refine ⟨lower,by simp only; omega,fun hit => ⟨(exact hit).1.trans inside,(exact hit).2⟩,before,fun missed _ => ?_⟩
        rcases upper.eq_or_lt with same | shorter
        · exact ⟨key,by simp only; rw [same]; exact here,step⟩
        · exact after missed shorter
      | eq => exact ⟨reached,inside.le,fun _ => ⟨inside,key,here,step⟩,nofun,nofun⟩
    · have same : low = high := by omega
      subst same
      exact .none

theorem searchPage_reached (side : κ → Ordering) (keys : List κ) :
    Reached side keys 0 keys.length (searchPage side keys) :=
  search_reached (by omega) (Nat.zero_le _) (le_refl _)

-- One side is never to the left of the other: a greater key is being sought.
def Rising (side side' : κ → Ordering) : Prop :=
  ∀ key, (side key = .gt → side' key = .gt) ∧ (side' key = .lt → side key = .lt)

theorem Reached.slot_bound {found : Nat × Bool} (reached : Reached side keys low high found) :
    2 * low ≤ slot found ∧ slot found ≤ 2 * high := by
  obtain ⟨lower,upper,exact,_,_⟩ := reached
  unfold slot
  cases hit : found.2 with
  | false => simp; omega
  | true =>
    have inside := (exact hit).1
    simp; omega

-- Whatever the page holds in whatever order, a greater key ends no further to the left.
theorem search_rising (rising : Rising side side') (enough : high - low ≤ steps) (ordered : low ≤ high)
    (bound : high ≤ keys.length) :
    slot (search side keys steps low high) ≤ slot (search side' keys steps low high) := by
  induction steps generalizing low high with
  | zero => exact le_refl _
  | succ steps ih =>
    unfold search
    split
    · rename_i room
      have inside : (low + high - 1) / 2 < high := by omega
      have reached : low ≤ (low + high - 1) / 2 := by omega
      generalize (low + high - 1) / 2 = mid at *
      obtain ⟨key,here⟩ : ∃ key, keys[mid]? = some key := ⟨_,List.getElem?_eq_getElem (inside.trans_le bound)⟩
      simp only [here,Option.map_some]
      have left := fun side : κ → Ordering =>
        ((@search_reached _ side keys steps low mid) (by omega) reached (by omega)).slot_bound
      have right := fun side : κ → Ordering =>
        ((@search_reached _ side keys steps (mid + 1) high) (by omega) (by omega) bound).slot_bound
      have middle : slot (mid,true) = 2 * mid + 1 := rfl
      obtain ⟨up,down⟩ := rising key
      cases first : side key with
      | gt =>
        rw [up first]
        exact ih (by omega) (by omega) bound
      | lt =>
        cases second : side' key with
        | gt => exact (left side).2.trans ((right side').1.trans' (by omega))
        | lt => exact ih (by omega) reached (by omega)
        | eq => simp only [middle]; have := (left side).2; omega
      | eq =>
        cases second : side' key with
        | gt => simp only [middle]; have := (right side').1; omega
        | lt =>
          rw [down second] at first
          cases first
        | eq => exact le_refl _
    · exact le_refl _

end Search

-- A tree of a given height: a leaf page holds items, a branch page its first child and every
-- other child behind its separator.
def Tree (κ α : Type) : Nat → Type
  | 0 => List α
  | height+1 => Tree κ α height × List (κ × Tree κ α height)

def children {height : Nat} (page : Tree κ α (height + 1)) : List (Tree κ α height) := page.1 :: page.2.map Prod.snd

def separators {height : Nat} (page : Tree κ α (height + 1)) : List κ := page.2.map Prod.fst

theorem children_length {height : Nat} (page : Tree κ α (height + 1)) :
    (children page).length = (separators page).length + 1 := by simp [children,separators]

def items : (height : Nat) → Tree κ α height → List α
  | 0,page => page
  | height+1,page => (children page).flatMap (items height)

-- The items in the children before an index.
def itemsBefore {height : Nat} (page : Tree κ α (height + 1)) (idx : Nat) : List α :=
  ((children page).take idx).flatMap (items height)

-- The child a search in a branch page descends to: behind the separator it hits, or between the
-- two it ends at.
def childIndex (found : Nat × Bool) : Nat := if found.2 then found.1 + 1 else found.1

-- Where a descent ends, as the number of items before it.
def position (key : α → κ) (side : κ → Ordering) : (height : Nat) → Tree κ α height → Nat
  | 0,page => (searchPage side (page.map key)).1
  | height+1,page =>
    let idx := childIndex (searchPage side (separators page))
    match (children page)[idx]? with
    | some child => (itemsBefore page idx).length + position key side height child
    | none => (itemsBefore page idx).length

section Position
variable {key : α → κ} {side side' : κ → Ordering}

theorem items_split {height : Nat} {page : Tree κ α (height + 1)} {idx : Nat} {child : Tree κ α height}
    (here : (children page)[idx]? = some child) :
    items (height + 1) page = itemsBefore page idx ++ items height child ++
      ((children page).drop (idx + 1)).flatMap (items height) := by
  obtain ⟨bound,same⟩ := List.getElem?_eq_some_iff.mp here
  have split : children page = (children page).take idx ++ child :: (children page).drop (idx + 1) := by
    rw [← same,List.getElem_cons_drop,List.take_append_drop]
  rw [items,itemsBefore]
  conv_lhs => rw [split]
  simp

theorem itemsBefore_mono {height : Nat} (page : Tree κ α (height + 1)) {i j : Nat} (order : i ≤ j) :
    (itemsBefore page i).length ≤ (itemsBefore page j).length :=
  ((List.take_sublist_take_left order).flatMap _).length_le

theorem itemsBefore_succ {height : Nat} {page : Tree κ α (height + 1)} {idx : Nat} {child : Tree κ α height}
    (here : (children page)[idx]? = some child) :
    itemsBefore page (idx + 1) = itemsBefore page idx ++ items height child := by
  rw [itemsBefore,List.take_add_one,here]
  simp [itemsBefore]

theorem position_length (key : α → κ) (side : κ → Ordering) (height : Nat) (page : Tree κ α height) :
    position key side height page ≤ (items height page).length := by
  induction height with
  | zero => exact (searchPage_reached side (List.map key page)).upper.trans_eq (List.length_map key)
  | succ height ih =>
    unfold position
    cases here : (children page)[childIndex (searchPage side (separators page))]? with
    | some child =>
      have inside := ih child
      simp only [here,items_split here,List.length_append]
      omega
    | none =>
      have whole : (children page).length ≤ childIndex (searchPage side (separators page)) := List.getElem?_eq_none_iff.mp here
      simp only [here,itemsBefore,List.take_of_length_le whole,items]
      exact le_refl _

theorem childIndex_inside (side : κ → Ordering) {height : Nat} (page : Tree κ α (height + 1)) :
    ∃ child, (children page)[childIndex (searchPage side (separators page))]? = some child := by
  obtain ⟨_,upper,exact,_,_⟩ := searchPage_reached side (separators page)
  have bound : childIndex (searchPage side (separators page)) < (children page).length := by
    rw [children_length,childIndex]
    split
    · rename_i hit
      have := (exact hit).1
      omega
    · omega
  exact ⟨_,List.getElem?_eq_getElem bound⟩

theorem childIndex_rising (rising : Rising side side') (keys : List κ) :
    childIndex (searchPage side keys) ≤ childIndex (searchPage side' keys) := by
  have step := (@search_rising _ _ _ keys keys.length 0 keys.length) rising
    (by omega) (Nat.zero_le _) (le_refl _)
  change slot (searchPage side keys) ≤ slot (searchPage side' keys) at step
  unfold slot at step
  unfold childIndex
  cases first : (searchPage side keys).2 <;> cases second : (searchPage side' keys).2 <;>
    simp [first,second] at step ⊢ <;> omega

-- A greater key is never looked for further to the left, in a tree of any order.
theorem position_rising (rising : Rising side side') (height : Nat) (page : Tree κ α height) :
    position key side height page ≤ position key side' height page := by
  induction height with
  | zero =>
    have step := (@search_rising _ _ _ (List.map key page) ((List.map key page).length) 0 ((List.map key page).length)) rising (by omega) (Nat.zero_le _) (le_refl _)
    change slot (searchPage side (List.map key page)) ≤ slot (searchPage side' (List.map key page)) at step
    unfold slot at step
    have flag := Bool.toNat_le (searchPage side' (List.map key page)).2
    simp only [position]
    omega
  | succ height ih =>
    have order := childIndex_rising rising (separators page)
    obtain ⟨child,here⟩ := childIndex_inside side page
    obtain ⟨child',here'⟩ := childIndex_inside side' page
    simp only [position,here,here']
    rcases order.eq_or_lt with same | less
    · rw [same] at here ⊢
      rw [here] at here'
      rw [Option.some.inj here']
      have := ih child'
      omega
    · have inside := position_length key side height child
      have later := itemsBefore_mono page (Nat.succ_le_of_lt less)
      rw [Nat.succ_eq_add_one,itemsBefore_succ here,List.length_append] at later
      omega

end Position

section Order
variable [LinearOrder ρ]

-- The build order: leaf pages rise, and a separator is above everything to its left and not above
-- anything to its right.
def Ordered (key : α → κ) (rank : κ → ρ) : (height : Nat) → Tree κ α height → Prop
  | 0,page => List.Pairwise (fun a b => rank (key a) < rank (key b)) page
  | height+1,page => (∀ child ∈ children page, Ordered key rank height child) ∧
      ∀ idx separator, (separators page)[idx]? = some separator →
        (∀ x ∈ itemsBefore page (idx + 1), rank (key x) < rank separator) ∧
          ∀ x ∈ ((children page).drop (idx + 1)).flatMap (items height), rank separator ≤ rank (key x)

-- The keys a search in the tree can meet.
def nodes (key : α → κ) : (height : Nat) → Tree κ α height → List κ
  | 0,page => List.map key page
  | height+1,page => separators page ++ (children page).flatMap (nodes key height)

variable {key : α → κ} {rank : κ → ρ} {side : κ → Ordering} {target : ρ}

theorem mem_nodes {height : Nat} {page : Tree κ α height} {x : α} (member : x ∈ items height page) :
    key x ∈ nodes key height page := by
  induction height with
  | zero => exact List.mem_map_of_mem member
  | succ height ih =>
    obtain ⟨child,inside,here⟩ := List.mem_flatMap.mp member
    exact List.mem_append_right _ (List.mem_flatMap.mpr ⟨child,inside,ih here⟩)

theorem mem_itemsBefore {height : Nat} {page : Tree κ α (height + 1)} {x : α} {idx place : Nat} {child : Tree κ α height}
    (here : (children page)[place]? = some child) (member : x ∈ items height child) (less : place < idx) :
    x ∈ itemsBefore page idx := by
  refine List.mem_flatMap.mpr ⟨child,?_,member⟩
  exact List.mem_of_getElem? ((List.getElem?_take_of_lt less).trans here)

theorem items_sorted {height : Nat} {page : Tree κ α height} (ordered : Ordered key rank height page) :
    (items height page).Pairwise fun a b => rank (key a) < rank (key b) := by
  induction height with
  | zero => exact ordered
  | succ height ih =>
    obtain ⟨below,separated⟩ := ordered
    refine List.pairwise_flatMap.mpr ⟨fun child member => ih (below child member),?_⟩
    rw [List.pairwise_iff_getElem]
    intro i j first second less x left y right
    -- The separator before the later child lies between the two.
    have bound : j - 1 < (separators page).length := by
      rw [children_length] at second
      omega
    obtain ⟨low,high⟩ := separated (j - 1) _ (List.getElem?_eq_getElem bound)
    rw [show j - 1 + 1 = j by omega] at low high
    have before := low x (mem_itemsBefore (List.getElem?_eq_getElem first) left less)
    refine before.trans_le (high y (List.mem_flatMap.mpr ⟨_,?_,right⟩))
    have shifted : ((children page).drop j)[0]? = some (children page)[j] := by
      rw [List.getElem?_drop,Nat.add_zero]
      exact List.getElem?_eq_getElem second
    exact List.mem_of_getElem? shifted

-- A side that compares as the build order does.
def Sided (rank : κ → ρ) (target : ρ) (side : κ → Ordering) (keys : List κ) : Prop :=
  ∀ n ∈ keys, (side n = .gt ↔ rank n < target) ∧ (side n = .eq ↔ rank n = target)

theorem Sided.lt {keys : List κ} (sided : Sided rank target side keys) {n : κ} (member : n ∈ keys) (less : side n = .lt) :
    target < rank n := by
  obtain ⟨greater,equal⟩ := sided n member
  refine lt_of_le_of_ne (not_lt.mp fun under => ?_) fun same => ?_
  · rw [greater.mpr under] at less
    cases less
  · rw [equal.mpr same.symm] at less
    cases less

theorem take_lower {items : List α} (sorted : items.Pairwise fun a b => rank (key a) < rank (key b)) {idx : Nat} {x : α}
    (here : items[idx]? = some x) : ∀ y ∈ items.take (idx + 1), rank (key y) ≤ rank (key x) := by
  intro y member
  obtain ⟨bound,same⟩ := List.getElem?_eq_some_iff.mp here
  obtain ⟨place,inside,rfl⟩ := List.mem_take_iff_getElem.mp member
  rw [← same]
  rcases (show place ≤ idx by omega).eq_or_lt with rfl | less
  · exact le_refl _
  · exact (List.pairwise_iff_getElem.mp sorted place idx (by omega) bound less).le

theorem drop_upper {items : List α} (sorted : items.Pairwise fun a b => rank (key a) < rank (key b)) {idx : Nat} {x : α}
    (here : items[idx]? = some x) : ∀ y ∈ items.drop idx, rank (key x) ≤ rank (key y) := by
  intro y member
  obtain ⟨bound,same⟩ := List.getElem?_eq_some_iff.mp here
  obtain ⟨place,inside,rfl⟩ := List.mem_drop_iff_getElem.mp member
  rw [← same]
  rcases Nat.eq_zero_or_pos place with rfl | positive
  · simp
  · exact (List.pairwise_iff_getElem.mp sorted idx (idx + place) bound (by omega) (by omega)).le

-- A binary search in a rising leaf page ends right before the first item not below the target.
theorem page_splits {page : List α} (sorted : page.Pairwise fun a b => rank (key a) < rank (key b))
    (sided : Sided rank target side (page.map key)) :
    (∀ x ∈ page.take (searchPage side (page.map key)).1, rank (key x) < target) ∧
      ∀ x ∈ page.drop (searchPage side (page.map key)).1, target ≤ rank (key x) := by
  obtain ⟨_,upper,exact,before,after⟩ := searchPage_reached side (page.map key)
  rcases found : searchPage side (page.map key) with ⟨idx,hit⟩
  simp only [found] at upper exact before after
  have item : ∀ {place : Nat} {k : κ}, (page.map key)[place]? = some k → ∃ x, page[place]? = some x ∧ key x = k := by
    intro place k here
    rwa [List.getElem?_map,Option.map_eq_some_iff] at here
  have known : ∀ {place : Nat} {k : κ}, (page.map key)[place]? = some k → k ∈ page.map key := List.mem_of_getElem?
  constructor
  · intro x member
    cases idx with
    | zero => simp at member
    | succ idx =>
      cases hit with
      | true =>
        obtain ⟨_,k,there,equal⟩ := exact rfl
        obtain ⟨y,here,rfl⟩ := item there
        rw [← (sided _ (known there)).2.mp equal]
        obtain ⟨bound,same⟩ := List.getElem?_eq_some_iff.mp here
        obtain ⟨place,inside,rfl⟩ := List.mem_take_iff_getElem.mp member
        rw [← same]
        exact List.pairwise_iff_getElem.mp sorted place (idx + 1) (by omega) bound (by omega)
      | false =>
        obtain ⟨k,there,greater⟩ := before rfl (Nat.succ_pos idx)
        obtain ⟨y,here,rfl⟩ := item there
        exact (take_lower sorted here x member).trans_lt ((sided _ (known there)).1.mp greater)
  · intro x member
    cases hit with
    | true =>
      obtain ⟨_,k,there,equal⟩ := exact rfl
      obtain ⟨y,here,rfl⟩ := item there
      rw [← (sided _ (known there)).2.mp equal]
      exact drop_upper sorted here x member
    | false =>
      have room : idx < (page.map key).length := by
        have := List.length_pos_of_mem member
        simp only [List.length_drop,List.length_map] at this ⊢
        omega
      obtain ⟨k,there,less⟩ := after rfl room
      obtain ⟨y,here,rfl⟩ := item there
      exact (sided.lt (known there) less).le.trans (drop_upper sorted here x member)

-- Everything left of the child a search descends to is below the target, everything right of it
-- is not.
theorem child_splits {height : Nat} {page : Tree κ α (height + 1)} (ordered : Ordered key rank (height + 1) page)
    (sided : Sided rank target side (separators page)) :
    (∀ x ∈ itemsBefore page (childIndex (searchPage side (separators page))), rank (key x) < target) ∧
      ∀ x ∈ ((children page).drop (childIndex (searchPage side (separators page)) + 1)).flatMap (items height),
        target ≤ rank (key x) := by
  obtain ⟨_,upper,exact,before,after⟩ := searchPage_reached side (separators page)
  rcases found : searchPage side (separators page) with ⟨idx,hit⟩
  simp only [found] at upper exact before after
  cases hit with
  | true =>
    obtain ⟨_,separator,there,equal⟩ := exact rfl
    obtain ⟨low,high⟩ := ordered.2 idx separator there
    have same := (sided separator (List.mem_of_getElem? there)).2.mp equal
    rw [same] at low high
    refine ⟨low,fun x member => high x ?_⟩
    obtain ⟨child,inside,here⟩ := List.mem_flatMap.mp member
    refine List.mem_flatMap.mpr ⟨child,?_,here⟩
    exact (List.drop_subset_drop_left _ (Nat.le_succ (idx + 1))) inside
  | false =>
    constructor
    · intro x member
      cases idx with
      | zero => simp [childIndex,itemsBefore] at member
      | succ idx =>
        obtain ⟨separator,there,greater⟩ := before rfl (Nat.succ_pos idx)
        exact ((ordered.2 idx separator there).1 x member).trans ((sided separator (List.mem_of_getElem? there)).1.mp greater)
    · intro x member
      have room : idx < (separators page).length := by
        obtain ⟨child,inside,_⟩ := List.mem_flatMap.mp member
        have := List.length_pos_of_mem inside
        rw [List.length_drop,children_length] at this
        simp only [childIndex,Bool.false_eq_true,if_false] at this
        omega
      obtain ⟨separator,there,less⟩ := after rfl room
      exact (sided.lt (List.mem_of_getElem? there) less).le.trans ((ordered.2 idx separator there).2 x member)

-- In a tree built in the order it is searched in, the descent ends right before the first item
-- that is not below the target.
theorem position_splits {height : Nat} {page : Tree κ α height} (ordered : Ordered key rank height page)
    (sided : Sided rank target side (nodes key height page)) :
    (∀ x ∈ (items height page).take (position key side height page), rank (key x) < target) ∧
      ∀ x ∈ (items height page).drop (position key side height page), target ≤ rank (key x) := by
  induction height with
  | zero => exact page_splits ordered sided
  | succ height ih =>
    obtain ⟨left,right⟩ := child_splits ordered fun n member => sided n (List.mem_append_left _ member)
    obtain ⟨child,here⟩ := childIndex_inside side page
    have member := List.mem_of_getElem? here
    obtain ⟨low,high⟩ := ih (ordered.1 child member)
      fun n inside => sided n (List.mem_append_right _ (List.mem_flatMap.mpr ⟨child,member,inside⟩))
    have inside := position_length key side height child
    simp only [position,here]
    rw [items_split here,List.append_assoc,List.take_length_add_append,List.drop_length_add_append,
      List.take_append_of_le_length inside,List.drop_append_of_le_length inside]
    constructor
    · intro x listed
      exact (List.mem_append.mp listed).elim (left x) (low x)
    · intro x listed
      exact (List.mem_append.mp listed).elim (high x) (right x)

end Order
end DeepFry.SearchTree
