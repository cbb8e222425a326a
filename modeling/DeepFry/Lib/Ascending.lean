import Mathlib.Algebra.Order.Group.Abs
import Mathlib.Data.List.Sort
import Mathlib.Tactic

namespace DeepFry.Ascending

-- Library layer: what one pass over an ascending list computes about its entries.

section Filtered
variable {α : Type*} {R : α → α → Prop}

-- A test that an entry passes with everything before it keeps a prefix.
theorem takeWhile_filter {items : List α} (ordered : items.Pairwise R) {test : α → Bool}
    (downward : ∀ a b, R a b → test b = true → test a = true) : items.takeWhile test = items.filter test := by
  induction items with
  | nil => rfl
  | cons a items ih =>
    obtain ⟨first,rest⟩ := List.pairwise_cons.mp ordered
    by_cases passes : test a = true
    · rw [List.takeWhile_cons_of_pos passes,List.filter_cons_of_pos passes,ih rest]
    · have none : items.filter test = [] := by
        apply List.filter_eq_nil_iff.mpr
        intro b member held
        exact passes (downward a b (first b member) held)
      rw [List.takeWhile_cons_of_neg passes,List.filter_cons_of_neg passes,none]

end Filtered

section Runs

-- Each number below a bound with the times it occurs, without those that do not.
def tallyFrom (keys : List Nat) (k size : Nat) : List (Nat × Nat) := ((List.range' k size).map fun j => (j,keys.count j)).filter (0 < ·.2)

def shut (k count : Nat) : List (Nat × Nat) := if 0 < count then [(k,count)] else []

-- The groups closed so far, the open one and its size; a greater number closes it.
def advance (s : List (Nat × Nat) × Nat × Nat) (x : Nat) : List (Nat × Nat) × Nat × Nat :=
  if s.2.1 < x then (s.1 ++ shut s.2.1 s.2.2,x,1) else (s.1,s.2.1,s.2.2 + 1)

theorem tallyFrom_cons (keys : List Nat) (k size : Nat) : tallyFrom keys k (size + 1) = shut k (keys.count k) ++ tallyFrom keys (k + 1) size := by
  unfold tallyFrom shut
  rw [List.range'_succ,List.map_cons,List.filter_cons]
  by_cases some : 0 < keys.count k
  · simp [some]
  · simp [some]

theorem tallyFrom_append (keys : List Nat) (k size more : Nat) :
    tallyFrom keys k (size + more) = tallyFrom keys k size ++ tallyFrom keys (k + size) more := by
  unfold tallyFrom
  rw [← List.range'_append_1,List.map_append,List.filter_append]

theorem tallyFrom_last (keys : List Nat) (size : Nat) : tallyFrom keys 0 (size + 1) = tallyFrom keys 0 size ++ shut size (keys.count size) := by
  have nothing : tallyFrom keys (size + 1) 0 = [] := rfl
  rw [tallyFrom_append,Nat.zero_add,tallyFrom_cons,nothing,List.append_nil]

theorem tallyFrom_none {keys : List Nat} {k size : Nat} (absent : ∀ x ∈ keys, x < k) : tallyFrom keys k size = [] := by
  apply List.filter_eq_nil_iff.mpr
  intro entry member
  obtain ⟨j,listed,rfl⟩ := List.mem_map.mp member
  have here : j ∉ keys := by
    intro occurs
    have low := absent j occurs
    have high := (List.mem_range'_1.mp listed).1
    omega
  simp [List.count_eq_zero.mpr here]

theorem tallyFrom_snoc {keys : List Nat} {x k size : Nat} (beyond : k + size ≤ x) : tallyFrom (keys ++ [x]) k size = tallyFrom keys k size := by
  unfold tallyFrom
  congr 1
  apply List.map_congr_left
  intro j listed
  have apart : x ≠ j := by
    have high := (List.mem_range'_1.mp listed).2
    omega
  rw [List.count_append,List.count_singleton,beq_eq_false_iff_ne.mpr apart]
  rfl

-- What the pass holds after the numbers it has read.
def passed (keys : List Nat) (k : Nat) : List (Nat × Nat) × Nat × Nat := (tallyFrom keys 0 k,k,keys.count k)

theorem advance_passed {keys : List Nat} {k x : Nat} (bounded : ∀ y ∈ keys, y ≤ k) (next : k ≤ x) :
    advance (passed keys k) x = passed (keys ++ [x]) x := by
  unfold advance passed
  dsimp only
  by_cases grows : k < x
  · have closed : tallyFrom keys 0 x = tallyFrom keys 0 k ++ shut k (keys.count k) := by
      obtain ⟨d,rfl⟩ : ∃ d, x = k + (d + 1) := ⟨x - k - 1,by omega⟩
      have further : tallyFrom keys (k + 1) d = [] := tallyFrom_none fun y member => Nat.lt_succ_of_le (bounded y member)
      rw [tallyFrom_append,Nat.zero_add,tallyFrom_cons,further,List.append_nil]
    have absent : x ∉ keys := fun member => absurd (bounded x member) (by omega)
    rw [if_pos grows,tallyFrom_snoc (by omega),closed,List.count_append,List.count_eq_zero.mpr absent,List.count_singleton_self]
  · obtain rfl : x = k := by omega
    rw [if_neg grows,tallyFrom_snoc (by omega),List.count_append,List.count_singleton_self]

theorem foldl_passed (items : List Nat) {keys : List Nat} {k : Nat} (bounded : ∀ y ∈ keys, y ≤ k) (ordered : (k :: items).Pairwise (· ≤ ·)) :
    items.foldl advance (passed keys k) = passed (keys ++ items) ((k :: items).getLast (List.cons_ne_nil k items)) := by
  induction items generalizing keys k with
  | nil => rw [List.foldl_nil,List.append_nil,List.getLast_singleton]
  | cons x items ih =>
    obtain ⟨first,rest⟩ := List.pairwise_cons.mp ordered
    have here := first x List.mem_cons_self
    have grown : ∀ y ∈ keys ++ [x], y ≤ x := by
      intro y member
      obtain old | new := List.mem_append.mp member
      · exact (bounded y old).trans here
      · exact (List.mem_singleton.mp new).le
    rw [List.foldl_cons,advance_passed bounded here,ih grown rest,List.append_assoc,List.getLast_cons (List.cons_ne_nil x items)]
    rfl

theorem tallyFrom_rising (keys : List Nat) (k size : Nat) : (tallyFrom keys k size).Pairwise fun a b => a.1 < b.1 := by
  apply List.Pairwise.filter
  rw [List.pairwise_map]
  exact List.pairwise_lt_range'

theorem countP_next (keys : List Nat) (k : Nat) : keys.countP (· < k + 1) = keys.countP (· < k) + keys.count k := by
  induction keys with
  | nil => rfl
  | cons x keys ih =>
    rw [List.countP_cons,List.countP_cons,List.count_cons,ih]
    obtain less | same | more := lt_trichotomy x k
    · have apart : ¬ x = k := by omega
      have below : x < k + 1 := by omega
      simp [less,apart,below]
      omega
    · simp [same]
      omega
    · have apart : ¬ x = k := by omega
      have above : ¬ x < k + 1 := by omega
      have least : ¬ x < k := by omega
      simp [least,apart,above]

-- The counts of all numbers make up the list.
theorem tallyFrom_sum {keys : List Nat} {size : Nat} (bounded : ∀ x ∈ keys, x < size) : ((tallyFrom keys 0 size).map Prod.snd).sum = keys.length := by
  have counted : ∀ k, ((tallyFrom keys 0 k).map Prod.snd).sum = keys.countP (· < k) := by
    intro k
    induction k with
    | zero => simp [tallyFrom]
    | succ k ih =>
      have last : ((shut k (keys.count k)).map Prod.snd).sum = keys.count k := by
        unfold shut
        split
        · simp
        · next none => simpa using (Nat.eq_zero_of_not_pos none).symm
      rw [tallyFrom_last,countP_next,List.map_append,List.sum_append,ih,last]
  rw [counted,List.countP_eq_length]
  intro x member
  simpa using bounded x member

end Runs

section Differences

-- The distances between two entries, which may be equal ones.
def differences (m : Multiset ℤ) : Set ℤ := {g | ∃ a b rest, m = a ::ₘ b ::ₘ rest ∧ g = |a - b|}

theorem differences_cons (x : ℤ) (m : Multiset ℤ) : differences (x ::ₘ m) = differences m ∪ {g | ∃ y ∈ m, g = |x - y|} := by
  ext g
  constructor
  · intro found
    obtain ⟨a,b,rest,split,rfl⟩ := found
    obtain ⟨rfl,rfl⟩ | ⟨_,c,tail,other⟩ := Multiset.cons_eq_cons.mp split
    · exact .inr ⟨b,Multiset.mem_cons_self b rest,rfl⟩
    · obtain ⟨rfl,rfl⟩ | ⟨_,d,rfl,rfl⟩ := Multiset.cons_eq_cons.mp other
      · refine .inr ⟨a,?_,abs_sub_comm a b⟩
        rw [tail]
        exact Multiset.mem_cons_self a _
      · exact .inl ⟨a,b,d,tail,rfl⟩
  · intro either
    obtain ⟨a,b,rest,rfl,rfl⟩ | ⟨y,member,rfl⟩ := either
    · exact ⟨a,b,x ::ₘ rest,by rw [Multiset.cons_swap x a,Multiset.cons_swap x b],rfl⟩
    · obtain ⟨rest,rfl⟩ := Multiset.exists_cons_of_mem member
      exact ⟨x,y,rest,rfl,rfl⟩

theorem differences_zero : differences 0 = ∅ := by
  apply Set.eq_empty_of_forall_notMem
  intro g found
  obtain ⟨a,b,rest,split,_⟩ := found
  exact absurd split (Multiset.zero_ne_cons)

theorem differences_single (x : ℤ) : differences {x} = ∅ := by
  rw [← Multiset.cons_zero,differences_cons,differences_zero]
  simp

theorem isLeast_option (best : Option ℤ) (d : ℤ) : IsLeast {g | best = some g} d ↔ best = some d := by
  constructor
  · exact fun least => least.1
  · intro here
    refine ⟨here,?_⟩
    intro g other
    exact (Option.some.inj (here.symm.trans other)).le

-- Elements that others undercut do not matter for the least one.
theorem isLeast_covered {S T : Set ℤ} (inside : S ⊆ T) (covered : ∀ t ∈ T, ∃ s ∈ S, s ≤ t) (d : ℤ) : IsLeast S d ↔ IsLeast T d := by
  constructor
  · intro least
    refine ⟨inside least.1,?_⟩
    intro t member
    obtain ⟨s,here,under⟩ := covered t member
    exact (least.2 here).trans under
  · intro least
    obtain ⟨s,here,under⟩ := covered d least.1
    obtain rfl : d = s := le_antisymm (least.2 (inside here)) under
    exact ⟨here,fun s member => least.2 (inside member)⟩

end Differences

end DeepFry.Ascending
