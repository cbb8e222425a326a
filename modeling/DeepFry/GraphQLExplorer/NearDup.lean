import DeepFry.Lib.Grouping
import DeepFry.Lib.Rounding
import DeepFry.Lib.UnionFind
import Mathlib.Data.Fintype.Perm

namespace DeepFry.GraphQLExplorer.NearDup
open UnionFind

-- A string of the analyser is its UTF-16 code units.
abbrev Text := List UInt16

def blank : UInt16 := 32

-- NEAR_DUP.
def k : Nat := 3

def cutoff : ℚ := Rounding.fourFifths

-- The difference is a double, so the subtraction of the code rounds nothing.
def maxDisparity : ℚ := 1 - cutoff

example : maxDisparity = 900719925474099 / 2^52 ∧ 900719925474099 < 2^53 := by decide +kernel

-- A content that is no string is none.
structure Event (Id : Type) where
  id : Id
  content : Option Text
deriving DecidableEq

-- What \s matches and trim strips.
def space (c : UInt16) : Bool :=
  (9 ≤ c && c ≤ 13) || c = 32 || c = 0xA0 || c = 0x1680 || (0x2000 ≤ c && c ≤ 0x200A) || c = 0x2028 || c = 0x2029 || c = 0x202F || c = 0x205F ||
    c = 0x3000 || c = 0xFEFF

def collapse : Bool → Text → Text
  | _,[] => []
  | inside,c :: rest =>
    if space c then (if inside then collapse true rest else blank :: collapse true rest)
    else c :: collapse false rest

def trim (s : Text) : Text := ((s.dropWhile space).reverse.dropWhile space).reverse

-- The parameter is what the runtime makes of normalize('NFC') and toLowerCase().
def normalizeContent (fold : Text → Text) : Option Text → Text
  | none => []
  | some s => trim (collapse false (fold s))

def words (normalized : Text) : List Text := (normalized.splitOn blank).filter (· ≠ [])

def shingles (normalized : Text) (k : Nat) : Finset Text :=
  let parts := words normalized
  if parts.length < k then (if 0 < parts.length then {[blank].intercalate parts} else ∅)
  else ((List.range (parts.length + 1 - k)).map fun i => [blank].intercalate ((parts.drop i).take k)).toFinset

def jaccard (a b : Finset Text) : ℚ :=
  if a.card = 0 ∧ b.card = 0 then 1
  else
    let inter := (a.filter (· ∈ b)).card
    let union := a.card + b.card - inter
    if union = 0 then 0 else Rounding.quotient inter union

def disparity (a b : Finset Text) : ℚ := Rounding.quotient (max (a.card - b.card) (b.card - a.card)) (max a.card b.card)

inductive Kind where
  | exact_
  | near
deriving DecidableEq

structure Cluster (Id : Type) where
  kind : Kind
  memberIds : List Id
  count : Nat
deriving DecidableEq

structure NearDupResult (Id : Type) where
  analyzedCount : Nat
  clusters : List (Cluster Id)
  duplicateCount : Nat
deriving DecidableEq

variable {Id : Type} {n : Nat}

section Stages

variable (keys : Fin n → Text) (sets : Fin n → Finset Text)

def buckets : List (Text × List (Fin n)) := (List.finRange n).foldl (fun found i => Grouping.add (keys i) i found) []

def unionBucket (dsu : Forest n) : List (Fin n) → Forest n
  | [] => dsu
  | first :: rest => rest.foldl (fun dsu member => dsu.union first member) dsu

-- Stage 1.
def unionExact : Forest n := (buckets keys).foldl (fun dsu bucket => unionBucket dsu bucket.2) (apart n)

-- The body of stage 2's inner loop.
def compare (i : Fin n) (dsu : Forest n) (j : Fin n) : Forest n :=
  if (sets j).card = 0 then dsu
  else
    let left := dsu.find i
    let right := left.2.find j
    if left.1 = right.1 then right.2
    else if maxDisparity < disparity (sets i) (sets j) then right.2
    else if cutoff ≤ jaccard (sets i) (sets j) then right.2.union i j
    else right.2

def compareAll (dsu : Forest n) (i : Fin n) : Forest n :=
  if (sets i).card = 0 then dsu else ((List.finRange n).filter (i < ·)).foldl (compare sets i) dsu

-- Stage 2.
def unionNear (dsu : Forest n) : Forest n := (List.finRange n).foldl (compareAll sets) dsu

def collect (found : List (Fin n × List (Fin n)) × Forest n) (i : Fin n) : List (Fin n × List (Fin n)) × Forest n :=
  let root := found.2.find i
  (Grouping.add root.1 i found.1,root.2)

def groups (dsu : Forest n) : List (List (Fin n)) := ((List.finRange n).foldl collect ([],dsu)).1.map Prod.snd

variable (events : Fin n → Event Id)

def allSameKey : List (Fin n) → Bool
  | [] => true
  | first :: rest => (first :: rest).all fun m => keys m = keys first

def cluster (members : List (Fin n)) : Cluster Id :=
  ⟨if allSameKey keys members then .exact_ else .near,members.map fun m => (events m).id,members.length⟩

def push (done : List (Cluster Id) × Nat) (members : List (Fin n)) : List (Cluster Id) × Nat :=
  if members.length < 2 then done else (done.1 ++ [cluster keys events members],done.2 + members.length)

end Stages

variable (fold : Text → Text) (events : Fin n → Event Id)

def key (i : Fin n) : Text := normalizeContent fold (events i).content

def set (i : Fin n) : Finset Text := shingles (key fold events i) k

def forest : Forest n := unionNear (set fold events) (unionExact (key fold events))

def nearDup : NearDupResult Id :=
  if n < 2 then ⟨n,[],0⟩
  else
    let done := (groups (forest fold events)).foldl (push (key fold events) events) ([],0)
    ⟨n,done.1,done.2⟩

section Spanned

variable {keys : Fin n → Text} {sets : Fin n → Finset Text} {dsu : Forest n} {R : Fin n → Fin n → Prop}

theorem buckets_groups : buckets keys = Grouping.groups keys (List.finRange n) := Grouping.foldl_add keys [] (List.finRange n)

theorem unionBucket_spans (spans : Spans dsu R) (members : List (Fin n)) :
    Spans (unionBucket dsu members) fun x y => R x y ∨ members.head? = some x ∧ y ∈ members.tail := by
  cases members with
  | nil => simpa [unionBucket] using spans
  | cons first rest =>
    have added := Spans.foldl rest (fun member x y => x = first ∧ y = member)
      (fun member _ f R spans => spans.union first member) spans
    apply added.congr
    · intro x y either
      obtain held | ⟨member,listed,rfl,rfl⟩ := either
      · exact .rel x y (.inl held)
      · exact .rel x y (.inr ⟨rfl,listed⟩)
    · intro x y either
      obtain held | ⟨head,listed⟩ := either
      · exact .rel x y (.inl held)
      · cases head
        exact .rel first y (.inr ⟨y,listed,rfl,rfl⟩)

-- After the exact stage two events have one root exactly when they have one key.
theorem unionExact_spans : Spans (unionExact keys) fun x y => keys x = keys y := by
  have added := Spans.foldl (buckets keys) (fun bucket x y => bucket.2.head? = some x ∧ y ∈ bucket.2.tail)
    (fun bucket _ f R spans => unionBucket_spans spans bucket.2) spans_apart
  have same : ∀ bucket ∈ buckets keys, ∀ x, x ∈ bucket.2 ↔ keys x = bucket.1 := by
    intro bucket listed x
    rw [buckets_groups,Grouping.mem_groups] at listed
    rw [listed.2]
    simp
  apply added.congr
  · intro x y either
    obtain none | ⟨bucket,listed,head,tail⟩ := either
    · exact none.elim
    · have left := (same bucket listed x).mp (List.mem_of_mem_head? head)
      have right := (same bucket listed y).mp (List.mem_of_mem_tail tail)
      exact .rel x y (left.trans right.symm)
  · intro x y equal
    obtain ⟨bucket,listed,named⟩ : ∃ bucket ∈ buckets keys, bucket.1 = keys x := by
      rw [buckets_groups]
      exact ⟨(keys x,(List.finRange n).filter fun y => keys y = keys x),Grouping.mem_groups.mpr ⟨List.mem_map_of_mem (List.mem_finRange x),rfl⟩,rfl⟩
    cases members : bucket.2 with
    | nil =>
      have absent := (same bucket listed x).mpr named.symm
      rw [members] at absent
      simp at absent
    | cons first rest =>
      -- Each member is the first or was joined with it.
      have joined : ∀ z, keys z = keys x → Relation.EqvGen (fun x y => False ∨ ∃ bucket ∈ buckets keys, bucket.2.head? = some x ∧ y ∈ bucket.2.tail) first z := by
        intro z equal
        have member := (same bucket listed z).mpr (equal.trans named.symm)
        rw [members,List.mem_cons] at member
        obtain rfl | later := member
        · exact .refl z
        · exact .rel first z (.inr ⟨bucket,listed,by rw [members]; rfl,by rw [members]; exact later⟩)
      exact ((joined x rfl).symm _ _).trans _ _ _ (joined y equal.symm)

variable (sets) in
def Near (i j : Fin n) : Prop :=
  (sets i).card ≠ 0 ∧ (sets j).card ≠ 0 ∧ disparity (sets i) (sets j) ≤ maxDisparity ∧ cutoff ≤ jaccard (sets i) (sets j)

theorem compare_spans (spans : Spans dsu R) {i : Fin n} (filled : (sets i).card ≠ 0) (j : Fin n) :
    Spans (compare sets i dsu j) fun x y => R x y ∨ Near sets i j ∧ x = i ∧ y = j := by
  have searched := (spans.find i).find j
  by_cases near : Near sets i j
  · have either : Spans (compare sets i dsu j) fun x y => R x y ∨ x = i ∧ y = j := by
      rw [compare,if_neg near.2.1]
      by_cases same : (dsu.find i).1 = ((dsu.find i).2.find j).1
      · rw [if_pos same]
        apply searched.skip
        simpa using same
      · rw [if_neg same,if_neg (not_lt.mpr near.2.2.1),if_pos near.2.2.2]
        exact searched.union i j
    simpa only [near,true_and] using either
  · have unchanged : Spans (compare sets i dsu j) R := by
      rw [compare]
      by_cases empty : (sets j).card = 0
      · rwa [if_pos empty]
      · rw [if_neg empty]
        by_cases same : (dsu.find i).1 = ((dsu.find i).2.find j).1
        · rwa [if_pos same]
        · rw [if_neg same]
          by_cases small : maxDisparity < disparity (sets i) (sets j)
          · rwa [if_pos small]
          · rw [if_neg small,if_neg fun enough => near ⟨filled,empty,not_lt.mp small,enough⟩]
            exact searched
    simpa only [near,false_and,or_false] using unchanged

theorem compareAll_spans (spans : Spans dsu R) (i : Fin n) :
    Spans (compareAll sets dsu i) fun x y => R x y ∨ (i < y ∧ Near sets i y) ∧ x = i := by
  rw [compareAll]
  split
  · next empty =>
    have none : ∀ y, ¬ Near sets i y := fun y near => near.1 empty
    simpa only [none,and_false,false_and,or_false] using spans
  · next filled =>
    have added := Spans.foldl ((List.finRange n).filter (i < ·)) (fun j x y => Near sets i j ∧ x = i ∧ y = j)
      (fun j _ f R spans => compare_spans spans filled j) spans
    apply added.congr
    · intro x y either
      obtain held | ⟨j,listed,near,rfl,rfl⟩ := either
      · exact .rel x y (.inl held)
      · exact .rel x y (.inr ⟨⟨by simpa using listed,near⟩,rfl⟩)
    · intro x y either
      obtain held | ⟨⟨later,near⟩,rfl⟩ := either
      · exact .rel x y (.inl held)
      · exact .rel x y (.inr ⟨y,by simpa using later,near,rfl,rfl⟩)

theorem unionNear_spans (spans : Spans dsu R) : Spans (unionNear sets dsu) fun x y => R x y ∨ x < y ∧ Near sets x y := by
  have added := Spans.foldl (List.finRange n) (fun i x y => (i < y ∧ Near sets i y) ∧ x = i)
    (fun i _ f R spans => compareAll_spans spans i) spans
  apply added.congr
  · intro x y either
    obtain held | ⟨i,_,near,rfl⟩ := either
    · exact .rel x y (.inl held)
    · exact .rel x y (.inr near)
  · intro x y either
    obtain held | near := either
    · exact .rel x y (.inl held)
    · exact .rel x y (.inr ⟨x,List.mem_finRange x,near,rfl⟩)

end Spanned

theorem collect_groups (dsu : Forest n) (done items : List (Fin n)) (found : Forest n) (kept : ∀ x, found.root x = dsu.root x) :
    (items.foldl collect (Grouping.groups dsu.root done,found)).1 = Grouping.groups dsu.root (done ++ items) := by
  induction items generalizing done found with
  | nil => simp
  | cons x items ih =>
    have next : collect (Grouping.groups dsu.root done,found) x = (Grouping.groups dsu.root (done ++ [x]),(found.find x).2) := by
      simp only [collect,Forest.find_fst,kept,Grouping.add_groups]
    rw [List.foldl_cons,next,ih]
    · rw [List.append_assoc]
      rfl
    · intro y
      rw [Forest.find_root,kept]

theorem groups_roots (dsu : Forest n) : groups dsu = (Grouping.groups dsu.root (List.finRange n)).map Prod.snd := by
  have collected := collect_groups dsu [] (List.finRange n) dsu fun _ => rfl
  exact congrArg (List.map Prod.snd) collected

-- The events of one root.
def tree (dsu : Forest n) (x : Fin n) : List (Fin n) := (List.finRange n).filter fun y => dsu.root y = dsu.root x

theorem mem_tree {dsu : Forest n} {x y : Fin n} : y ∈ tree dsu x ↔ dsu.root y = dsu.root x := by simp [tree]

theorem mem_groups {dsu : Forest n} {members : List (Fin n)} : members ∈ groups dsu ↔ ∃ x, members = tree dsu x := by
  rw [groups_roots,List.mem_map]
  constructor
  · intro listed
    obtain ⟨⟨root,_⟩,listed,rfl⟩ := listed
    rw [Grouping.mem_groups,List.mem_map] at listed
    obtain ⟨⟨x,_,rfl⟩,filtered⟩ := listed
    exact ⟨x,filtered⟩
  · intro found
    obtain ⟨x,rfl⟩ := found
    exact ⟨(dsu.root x,tree dsu x),Grouping.mem_groups.mpr ⟨List.mem_map_of_mem (List.mem_finRange x),rfl⟩,rfl⟩

theorem groups_distinct (dsu : Forest n) : ((groups dsu).map List.toFinset).Nodup := by
  rw [groups_roots,List.map_map,List.Nodup,List.pairwise_map]
  apply (Grouping.groups_distinct dsu.root (List.finRange n)).imp_of_mem
  intro a b first second apart same
  rw [Grouping.mem_groups,List.mem_map] at first second
  obtain ⟨⟨x,_,root⟩,members⟩ := first
  have inside : x ∈ a.2.toFinset := by
    rw [members]
    simpa using root
  have other : x ∈ b.2.toFinset := (congrArg (x ∈ ·) same).mp inside
  rw [second.2] at other
  apply apart
  rw [← root]
  simpa using other

theorem pushes (keys : Fin n → Text) (events : Fin n → Event Id) (found : List (List (Fin n))) (done : List (Cluster Id) × Nat) :
    found.foldl (push keys events) done =
      (done.1 ++ (found.filter (2 ≤ ·.length)).map (cluster keys events),done.2 + ((found.filter (2 ≤ ·.length)).map List.length).sum) := by
  induction found generalizing done with
  | nil => simp
  | cons members found ih =>
    rw [List.foldl_cons,ih,push]
    by_cases few : members.length < 2
    · have dropped : ¬ 2 ≤ members.length := by omega
      simp [few,dropped]
    · have kept : 2 ≤ members.length := by omega
      simp [few,kept,Nat.add_assoc]

variable (fold : Text → Text) (events : Fin n → Event Id)

-- The events of each cluster, by their positions.
def clusterMembers : List (List (Fin n)) := (groups (forest fold events)).filter (2 ≤ ·.length)

theorem group_nodup {dsu : Forest n} {members : List (Fin n)} (listed : members ∈ groups dsu) : members.Nodup := by
  obtain ⟨x,rfl⟩ := mem_groups.mp listed
  exact (List.nodup_finRange n).filter _

theorem nearDup_clusters : (nearDup fold events).clusters = (clusterMembers fold events).map (cluster (key fold events) events) := by
  unfold nearDup clusterMembers
  split
  · next few =>
    have none : (groups (forest fold events)).filter (2 ≤ ·.length) = [] := by
      rw [List.filter_eq_nil_iff]
      intro members listed
      have counted := (group_nodup listed).length_le_card
      simp only [Fintype.card_fin] at counted
      simp only [decide_eq_true_eq,not_le]
      omega
    rw [none]
    rfl
  · simp only [pushes,List.nil_append]

theorem nearDup_count : (nearDup fold events).duplicateCount = ((nearDup fold events).clusters.map (·.count)).sum := by
  unfold nearDup
  split
  · rfl
  · simp only [pushes,List.nil_append,Nat.zero_add,List.map_map]
    rfl

-- The pairs of the claim's graph.
def Joins (i j : Fin n) : Prop :=
  key fold events i = key fold events j ∨
    ((set fold events i).card ≠ 0 ∧ (set fold events j).card ≠ 0) ∧ cutoff ≤ jaccard (set fold events i) (set fold events j)

-- What the shortcut passes over.
def Skips (i j : Fin n) : Prop := maxDisparity < disparity (set fold events i) (set fold events j)

-- The pairs that the loops unite, or find united.
def Kept (i j : Fin n) : Prop :=
  key fold events i = key fold events j ∨ ¬ Skips fold events i j ∧ Joins fold events i j

theorem jaccard_comm (a b : Finset Text) : jaccard a b = jaccard b a := by
  have inter : (a.filter (· ∈ b)).card = (b.filter (· ∈ a)).card := by
    rw [Finset.filter_mem_eq_inter,Finset.filter_mem_eq_inter,Finset.inter_comm]
  simp only [jaccard,inter,Nat.add_comm a.card,and_comm]

theorem disparity_comm (a b : Finset Text) : disparity a b = disparity b a := by
  unfold disparity
  rw [max_comm,max_comm a.card]

theorem disparity_self (a : Finset Text) : ¬ maxDisparity < disparity a a := by
  have zero : disparity a a = 0 := by simp [disparity,Rounding.quotient,Rounding.nearest]
  rw [zero]
  norm_num [maxDisparity,cutoff,Rounding.fourFifths]

theorem near_symm {sets : Fin n → Finset Text} {i j : Fin n} (near : Near sets i j) : Near sets j i := by
  obtain ⟨left,right,small,close⟩ := near
  exact ⟨right,left,by rwa [disparity_comm],by rwa [jaccard_comm]⟩

theorem kept_near {i j : Fin n} : Kept fold events i j ↔ key fold events i = key fold events j ∨ Near (set fold events) i j := by
  unfold Kept Joins Skips Near
  rw [not_lt]
  tauto

theorem forest_spans : Spans (forest fold events) (Kept fold events) := by
  apply (unionNear_spans unionExact_spans).congr
  · intro x y either
    obtain same | ⟨_,near⟩ := either
    · exact .rel x y (.inl same)
    · exact .rel x y ((kept_near fold events).mpr (.inr near))
  · intro x y kept
    obtain same | near := (kept_near fold events).mp kept
    · exact .rel x y (.inl same)
    · obtain less | equal | more := lt_trichotomy x y
      · exact .rel x y (.inr ⟨less,near⟩)
      · rw [equal]
        exact .refl y
      · exact .symm _ _ (.rel y x (.inr ⟨more,near_symm near⟩))

-- A cluster is a component of the pairs kept.
theorem clusterMembers_component (nodes : Finset (Fin n)) :
    (∃ members ∈ clusterMembers fold events, members.toFinset = nodes) ↔ Component (Kept fold events) nodes ∧ 2 ≤ nodes.card := by
  have joined : ∀ x y, y ∈ (tree (forest fold events) x).toFinset ↔ Relation.EqvGen (Kept fold events) x y := by
    intro x y
    rw [List.mem_toFinset,mem_tree,← forest_spans fold events x y,eq_comm]
  unfold clusterMembers Component
  constructor
  · intro found
    obtain ⟨members,listed,rfl⟩ := found
    rw [List.mem_filter,decide_eq_true_eq] at listed
    obtain ⟨x,named⟩ := mem_groups.mp listed.1
    constructor
    · refine ⟨x,?_⟩
      rw [named]
      exact joined x
    · rw [List.toFinset_card_of_nodup (group_nodup listed.1)]
      exact listed.2
  · intro both
    obtain ⟨⟨x,component⟩,big⟩ := both
    have same : (tree (forest fold events) x).toFinset = nodes := by
      ext y
      rw [joined,component]
    have listed : tree (forest fold events) x ∈ groups (forest fold events) := mem_groups.mpr ⟨x,rfl⟩
    rw [← same,List.toFinset_card_of_nodup (group_nodup listed)] at big
    exact ⟨_,List.mem_filter.mpr ⟨listed,by simpa using big⟩,same⟩

section Quotients

variable {a b : Finset Text}

theorem jaccard_close (filled : a.card ≠ 0) (left : a.card ≤ 2^52) (right : b.card ≤ 2^52) :
    cutoff ≤ jaccard a b ↔ 4 * (a ∪ b).card ≤ 5 * (a ∩ b).card := by
  have inter : (a.filter (· ∈ b)).card = (a ∩ b).card := by rw [Finset.filter_mem_eq_inter]
  have union : a.card + b.card - (a ∩ b).card = (a ∪ b).card := (Finset.card_union a b).symm
  have most := Finset.card_union_le a b
  have least : (a ∩ b).card ≤ (a ∪ b).card := Finset.card_le_card (Finset.inter_subset_union)
  have larger : a.card ≤ (a ∪ b).card := Finset.card_le_card Finset.subset_union_left
  have some : (a ∪ b).card ≠ 0 := by omega
  simp only [jaccard,inter,union,filled,some,false_and,if_false,cutoff]
  exact Rounding.fourFifths_le (by omega) (by omega) least

theorem disparity_wide (filled : a.card ≠ 0) (left : a.card ≤ 2^52) (right : b.card ≤ 2^52) :
    maxDisparity < disparity a b ↔ 5 * min a.card b.card ≤ 4 * max a.card b.card := by
  unfold maxDisparity disparity cutoff
  rw [Rounding.fifth_lt (by omega) (by omega)]
  omega

-- A pair that the test joins lies beyond the shortcut only on the cutoff, with one set inside the other.
theorem close_wide (left : a.card ≤ 2^52) (right : b.card ≤ 2^52) (size : a.card ≤ b.card) :
    ((a.card ≠ 0 ∧ b.card ≠ 0) ∧ cutoff ≤ jaccard a b) ∧ maxDisparity < disparity a b ↔ a.card ≠ 0 ∧ a ⊆ b ∧ 5 * a.card = 4 * b.card := by
  constructor
  · intro both
    obtain ⟨⟨⟨filled,_⟩,close⟩,wide⟩ := both
    rw [jaccard_close filled left right] at close
    rw [disparity_wide filled left right,min_eq_left size,max_eq_right size] at wide
    have smaller : (a ∩ b).card ≤ a.card := Finset.card_le_card Finset.inter_subset_left
    have larger : b.card ≤ (a ∪ b).card := Finset.card_le_card Finset.subset_union_right
    have whole : a.card ≤ (a ∩ b).card := by omega
    refine ⟨filled,?_,by omega⟩
    rw [← Finset.inter_eq_left]
    exact Finset.eq_of_subset_of_card_le Finset.inter_subset_left whole
  · intro inside
    obtain ⟨filled,subset,sizes⟩ := inside
    refine ⟨⟨⟨filled,by omega⟩,?_⟩,?_⟩
    · rw [jaccard_close filled left right,Finset.inter_eq_left.mpr subset,Finset.union_eq_right.mpr subset,sizes]
    · rw [disparity_wide filled left right,min_eq_left size,max_eq_right size,sizes]

end Quotients

theorem intercalate_length (parts : List Text) (some : parts ≠ []) : ([blank].intercalate parts).length + 1 = (parts.map (·.length + 1)).sum := by
  induction parts with
  | nil => exact absurd rfl some
  | cons part parts ih =>
    cases parts with
    | nil => simp
    | cons next parts =>
      have rest := ih (List.cons_ne_nil next parts)
      rw [List.intercalate_cons_cons,List.map_cons,List.sum_cons,← rest]
      simp only [List.length_append,List.length_singleton]
      omega

-- A word and the blank after it take two units at least.
theorem words_length (normalized : Text) : 2 * (words normalized).length ≤ normalized.length + 1 := by
  have whole := intercalate_length (normalized.splitOn blank) (List.splitOn_ne_nil blank normalized)
  rw [List.intercalate_splitOn] at whole
  rw [whole,words]
  generalize normalized.splitOn blank = parts
  induction parts with
  | nil => simp
  | cons part parts ih =>
    rw [List.filter_cons]
    split
    · next filled =>
      have long : part.length ≠ 0 := by simpa using filled
      simp only [List.length_cons,List.map_cons,List.sum_cons]
      omega
    · simp only [List.map_cons,List.sum_cons]
      omega

theorem shingles_card (normalized : Text) {k : Nat} (positive : 0 < k) : (shingles normalized k).card ≤ (words normalized).length := by
  rw [shingles]
  by_cases few : (words normalized).length < k
  · rw [if_pos few]
    by_cases some : 0 < (words normalized).length
    · rw [if_pos some,Finset.card_singleton]
      exact some
    · rw [if_neg some]
      exact Nat.zero_le _
  · rw [if_neg few]
    have most := List.toFinset_card_le ((List.range ((words normalized).length + 1 - k)).map fun i =>
      [blank].intercalate (((words normalized).drop i).take k))
    simp only [List.length_map,List.length_range] at most
    omega

-- The events of one cluster, whatever their order.
def listing (result : NearDupResult Id) : Multiset (Kind × Multiset Id × Nat) :=
  (result.clusters.map fun cluster => (cluster.kind,(cluster.memberIds : Multiset Id),cluster.count) : List (Kind × Multiset Id × Nat))

-- The clusters are the components of the plain test.
def Components : Prop :=
  ∀ nodes, (∃ members ∈ clusterMembers fold events, members.toFinset = nodes) ↔ Component (Joins fold events) nodes ∧ 2 ≤ nodes.card

-- One set of shingles inside the other, four parts of five.
def Inside (i j : Fin n) : Prop :=
  (set fold events i).card ≠ 0 ∧ set fold events i ⊆ set fold events j ∧ 5 * (set fold events i).card = 4 * (set fold events j).card

-- What holds of every window.
structure Listed : Prop where
  listed : (nearDup fold events).clusters = (clusterMembers fold events).map (cluster (key fold events) events)
  once : ((clusterMembers fold events).map List.toFinset).Nodup ∧ ∀ members ∈ clusterMembers fold events, members.Nodup
  kinds : ∀ members ∈ clusterMembers fold events,
    (cluster (key fold events) events members).kind = .exact_ ↔ ∀ i ∈ members, ∀ j ∈ members, key fold events i = key fold events j
  counted : (nearDup fold events).duplicateCount = ((nearDup fold events).clusters.map (·.count)).sum
  permuted : ∀ σ : Equiv.Perm (Fin n), listing (nearDup fold (events ∘ σ)) = listing (nearDup fold events)

-- What the panel promises of a window's clusters.
structure Clustered : Prop extends Listed fold events where
  components : Components fold events
  unskipped : ∀ i j, ¬ (Joins fold events i j ∧ Skips fold events i j)

theorem allSameKey_iff (keys : Fin n → Text) (members : List (Fin n)) :
    allSameKey keys members ↔ ∀ i ∈ members, ∀ j ∈ members, keys i = keys j := by
  cases members with
  | nil => simp [allSameKey]
  | cons first rest =>
    rw [allSameKey,List.all_eq_true]
    constructor
    · intro same i left j right
      have toFirst := of_decide_eq_true (same i left)
      exact toFirst.trans (of_decide_eq_true (same j right)).symm
    · intro same i member
      exact decide_eq_true (same i member first List.mem_cons_self)

theorem cluster_kind (keys : Fin n → Text) (events : Fin n → Event Id) (members : List (Fin n)) :
    (cluster keys events members).kind = .exact_ ↔ ∀ i ∈ members, ∀ j ∈ members, keys i = keys j := by
  rw [← allSameKey_iff]
  unfold cluster
  split
  · next same => simp [same]
  · next apart => simp [apart]

theorem clusterMembers_once : ((clusterMembers fold events).map List.toFinset).Nodup ∧ ∀ members ∈ clusterMembers fold events, members.Nodup := by
  constructor
  · exact (groups_distinct (forest fold events)).sublist (List.filter_sublist.map _)
  · exact fun members listed => group_nodup (List.mem_of_mem_filter listed)

-- A cluster of the listing from the positions of its events.
def render (keys : Fin n → Text) (events : Fin n → Event Id) (nodes : Finset (Fin n)) : Kind × Multiset Id × Nat :=
  (if ∀ i ∈ nodes, ∀ j ∈ nodes, keys i = keys j then .exact_ else .near,nodes.val.map fun i => (events i).id,nodes.card)

open Classical in
noncomputable def bigComponents (R : Fin n → Fin n → Prop) : Finset (Finset (Fin n)) := {nodes | Component R nodes ∧ 2 ≤ nodes.card}

theorem render_cluster (keys : Fin n → Text) {members : List (Fin n)} (distinct : members.Nodup) :
    render keys events members.toFinset =
      ((cluster keys events members).kind,((cluster keys events members).memberIds : Multiset Id),(cluster keys events members).count) := by
  have kind := cluster_kind keys events members
  have values : members.toFinset.val = (members : Multiset (Fin n)) := by rw [List.toFinset_val,distinct.dedup]
  unfold render
  rw [values,List.toFinset_card_of_nodup distinct,Multiset.map_coe]
  simp only [List.mem_toFinset,← kind]
  cases named : (cluster keys events members).kind with
  | exact_ => rfl
  | near => rfl

-- The listing is a function of the components alone.
theorem listing_components : listing (nearDup fold events) = (bigComponents (Kept fold events)).val.map (render (key fold events) events) := by
  have once := clusterMembers_once fold events
  have components : (((clusterMembers fold events).map List.toFinset : List (Finset (Fin n))) : Multiset (Finset (Fin n))) =
      (bigComponents (Kept fold events)).val := by
    apply (Multiset.Nodup.ext (Multiset.coe_nodup.mpr once.1) (bigComponents (Kept fold events)).nodup).mpr
    intro nodes
    rw [Multiset.mem_coe,List.mem_map,clusterMembers_component,Finset.mem_val,bigComponents]
    simp
  rw [← components,Multiset.map_coe,List.map_map,listing,nearDup_clusters,List.map_map]
  congr 1
  apply List.map_congr_left
  intro members listed
  exact (render_cluster events (key fold events) (once.2 members listed)).symm

theorem chain_reindex (σ : Equiv.Perm (Fin n)) (R : Fin n → Fin n → Prop) (x y : Fin n) :
    Relation.EqvGen (fun i j => R (σ i) (σ j)) x y ↔ Relation.EqvGen R (σ x) (σ y) := by
  constructor
  · intro chain
    induction chain with
    | rel x y pair => exact .rel _ _ pair
    | refl x => exact .refl _
    | symm _ _ _ ih => exact .symm _ _ ih
    | trans _ _ _ _ _ left right => exact .trans _ _ _ left right
  · have back : ∀ a b, Relation.EqvGen R a b → Relation.EqvGen (fun i j => R (σ i) (σ j)) (σ.symm a) (σ.symm b) := by
      intro a b chain
      induction chain with
      | rel a b pair => exact .rel _ _ (by simpa using pair)
      | refl a => exact .refl _
      | symm _ _ _ ih => exact .symm _ _ ih
      | trans _ _ _ _ _ left right => exact .trans _ _ _ left right
    intro chain
    simpa using back _ _ chain

theorem component_reindex (σ : Equiv.Perm (Fin n)) (R : Fin n → Fin n → Prop) (nodes : Finset (Fin n)) :
    Component (fun i j => R (σ i) (σ j)) nodes ↔ Component R (nodes.map σ.toEmbedding) := by
  unfold Component
  constructor
  · intro found
    obtain ⟨x,named⟩ := found
    refine ⟨σ x,?_⟩
    intro y
    rw [Finset.mem_map_equiv,named,chain_reindex,Equiv.apply_symm_apply]
  · intro found
    obtain ⟨x,named⟩ := found
    refine ⟨σ.symm x,?_⟩
    intro y
    have moved := named (σ y)
    rwa [Finset.mem_map_equiv,Equiv.symm_apply_apply,← σ.apply_symm_apply x,← chain_reindex σ R] at moved

theorem render_reindex (σ : Equiv.Perm (Fin n)) (keys : Fin n → Text) (nodes : Finset (Fin n)) :
    render (keys ∘ σ) (events ∘ σ) nodes = render keys events (nodes.map σ.toEmbedding) := by
  unfold render
  rw [Finset.map_val,Multiset.map_map,Finset.card_map]
  simp only [Finset.forall_mem_map]
  rfl

-- Another order of the events is another order of the listing.
theorem listing_permuted (σ : Equiv.Perm (Fin n)) : listing (nearDup fold (events ∘ σ)) = listing (nearDup fold events) := by
  have moved : bigComponents (Kept fold events) = (bigComponents (Kept fold (events ∘ σ))).map σ.finsetCongr.toEmbedding := by
    ext nodes
    rw [Finset.mem_map_equiv]
    simp only [bigComponents,Finset.mem_filter,Finset.mem_univ,true_and]
    have component := component_reindex σ (Kept fold events) (σ.finsetCongr.symm nodes)
    have whole : (σ.finsetCongr.symm nodes).map σ.toEmbedding = nodes := σ.finsetCongr.apply_symm_apply nodes
    have size : (σ.finsetCongr.symm nodes).card = nodes.card := by
      rw [← congrArg Finset.card whole,Finset.card_map]
    rw [whole] at component
    rw [size]
    exact and_congr_left fun _ => component.symm
  rw [listing_components,listing_components,moved,Finset.map_val,Multiset.map_map]
  apply Multiset.map_congr rfl
  intro nodes _
  exact render_reindex events σ (key fold events) nodes

theorem kept_joins {i j : Fin n} (kept : Kept fold events i j) : Joins fold events i j := by
  obtain same | both := kept
  · exact .inl same
  · exact both.2

theorem two_members {x y : Fin n} (apart : x ≠ y) {nodes : Finset (Fin n)} (first : x ∈ nodes) (second : y ∈ nodes) : 2 ≤ nodes.card := by
  have both : ({x,y} : Finset (Fin n)) ⊆ nodes := by
    intro z member
    simp only [Finset.mem_insert,Finset.mem_singleton] at member
    obtain rfl | rfl := member
    · exact first
    · exact second
  have pair := Finset.card_le_card both
  rwa [Finset.card_pair apart] at pair

open Classical in
-- The clusters are the components of the plain test exactly when each pair the shortcut passes over is connected without it.
theorem components_joins : Components fold events ↔
    ∀ i j, Joins fold events i j → Skips fold events i j → Relation.EqvGen (Kept fold events) i j := by
  simp only [Components,clusterMembers_component]
  constructor
  · intro same i j joins _
    by_cases equal : i = j
    · rw [equal]
      exact .refl j
    · let nodes : Finset (Fin n) := {y | Relation.EqvGen (Joins fold events) i y}
      have whole : ∀ y, y ∈ nodes ↔ Relation.EqvGen (Joins fold events) i y := by simp [nodes]
      have big := two_members equal ((whole i).mpr (.refl i)) ((whole j).mpr (.rel i j joins))
      obtain ⟨⟨x,kept⟩,_⟩ := (same nodes).mpr ⟨⟨i,whole⟩,big⟩
      have left := (kept i).mp ((whole i).mpr (.refl i))
      have right := (kept j).mp ((whole j).mpr (.rel i j joins))
      exact (left.symm _ _).trans _ _ _ right
  · intro bridged nodes
    have components : Component (Kept fold events) nodes ↔ Component (Joins fold events) nodes := by
      apply component_congr
      · exact fun x y kept => .rel x y (kept_joins fold events kept)
      · intro x y joins
        by_cases skipped : Skips fold events x y
        · exact bridged x y joins skipped
        · exact .rel x y (.inr ⟨skipped,joins⟩)
    rw [components]

theorem joins_skips (texts : ∀ i, (key fold events i).length < 2^53) (i j : Fin n) :
    Joins fold events i j ∧ Skips fold events i j ↔ Inside fold events i j ∨ Inside fold events j i := by
  have small : ∀ i, (set fold events i).card ≤ 2^52 := by
    intro i
    have few := shingles_card (key fold events i) (k := k) (by decide)
    have short := words_length (key fold events i)
    have long := texts i
    unfold set
    omega
  have filled : Joins fold events i j ∧ Skips fold events i j ↔
      (((set fold events i).card ≠ 0 ∧ (set fold events j).card ≠ 0) ∧ cutoff ≤ jaccard (set fold events i) (set fold events j)) ∧
        maxDisparity < disparity (set fold events i) (set fold events j) := by
    unfold Joins Skips
    constructor
    · intro both
      obtain ⟨same | close,wide⟩ := both
      · rw [set,set,same] at wide
        exact absurd wide (disparity_self _)
      · exact ⟨close,wide⟩
    · exact fun both => ⟨.inr both.1,both.2⟩
  rw [filled]
  unfold Inside
  obtain size | size := le_total (set fold events i).card (set fold events j).card
  · rw [close_wide (small i) (small j) size]
    constructor
    · exact .inl
    · intro either
      obtain inside | ⟨some,_,sizes⟩ := either
      · exact inside
      · omega
  · rw [jaccard_comm,disparity_comm,and_comm (a := (set fold events i).card ≠ 0),close_wide (small j) (small i) size]
    constructor
    · exact .inr
    · intro either
      obtain ⟨some,_,sizes⟩ | inside := either
      · omega
      · exact inside

theorem listed_always : Listed fold events where
  listed := nearDup_clusters fold events
  once := clusterMembers_once fold events
  kinds := fun members _ => cluster_kind (key fold events) events members
  counted := nearDup_count fold events
  permuted := listing_permuted fold events

-- Away from the cutoff the shortcut changes nothing.
theorem nearDup_exact : ((∀ i, (key fold events i).length < 2^53) → (Clustered fold events ↔ ∀ i j, ¬ Inside fold events i j)) ∧
    (Components fold events ↔ ∀ i j, Joins fold events i j → Skips fold events i j → Relation.EqvGen (Kept fold events) i j) ∧
    Listed fold events := by
  refine ⟨?_,components_joins fold events,listed_always fold events⟩
  intro texts
  constructor
  · intro clustered i j inside
    exact clustered.unskipped i j ((joins_skips fold events texts i j).mpr (.inl inside))
  · intro clear
    have unskipped : ∀ i j, ¬ (Joins fold events i j ∧ Skips fold events i j) := by
      intro i j both
      obtain inside | inside := (joins_skips fold events texts i j).mp both
      · exact clear i j inside
      · exact clear j i inside
    refine ⟨listed_always fold events,?_,unskipped⟩
    apply (components_joins fold events).mpr
    exact fun i j joins skips => absurd ⟨joins,skips⟩ (unskipped i j)

-- The two functions of the runtime on ASCII text.
def ascii (s : Text) : Text := s.map fun c => if 65 ≤ c ∧ c ≤ 90 then c + 32 else c

-- The posts 'a b c d e f' and 'a b c d e f g', of four and of five shingles.
def sixWords : Text := [97,32,98,32,99,32,100,32,101,32,102]

def pair : Fin 2 → Event Nat
  | 0 => ⟨0,some sixWords⟩
  | 1 => ⟨1,some (sixWords ++ [32,103])⟩

-- 'a b c d e f' and 'a b c d e f h g' share four shingles of six.
def apartPair : Fin 2 → Event Nat
  | 0 => ⟨0,some sixWords⟩
  | 1 => ⟨1,some (sixWords ++ [32,104,32,103])⟩

theorem nearDup_exact_pair : Clustered ascii apartPair := by
  apply ((nearDup_exact ascii apartPair).1 (by decide +kernel)).mpr
  unfold Inside
  decide +kernel

theorem nearDup_misses : (nearDup ascii pair).clusters = [] ∧ Joins ascii pair 0 1 ∧ Skips ascii pair 0 1 ∧ ¬ Components ascii pair := by
  have joins : Joins ascii pair 0 1 := by
    unfold Joins
    decide +kernel
  have skips : Skips ascii pair 0 1 := by
    unfold Skips
    decide +kernel
  have apart : (forest ascii pair).root 0 ≠ (forest ascii pair).root 1 := by decide +kernel
  refine ⟨by decide +kernel,joins,skips,?_⟩
  intro components
  have chain := (components_joins ascii pair).mp components 0 1 joins skips
  exact apart ((forest_spans ascii pair 0 1).mpr chain)

-- A capital letter makes no other post.
example : (nearDup ascii fun i : Fin 2 => (⟨i.val,some (if i = 0 then sixWords else 65 :: 32 :: sixWords.drop 2)⟩ : Event Nat)).clusters =
    [⟨.exact_,[0,1],2⟩] := by decide +kernel

end DeepFry.GraphQLExplorer.NearDup
