import DeepFry.Lib.Destutter
import DeepFry.Lib.SearchTree
import DeepFry.Lmdb.Index
import Mathlib.Data.List.Sort

namespace DeepFry.Lmdb
open Bytes

def HEX_EDGE : Nat := 8

inductive SelfCheckError where
  | MonotonicityViolation (index : Bytes) (pos : Nat) (prevHex curHex : Bytes)
  | SeekRoundTripMismatch (index soughtHex landedHex : Bytes)
  deriving DecidableEq, Repr

structure IndexCheckReport where
  sampled : Nat
  witnesses : Nat
  deriving DecidableEq, Repr

def hexTrunc (key : Bytes) : Bytes :=
  if key.length ≤ 2 * HEX_EDGE then hexEncode key
  else hexEncode (key.take HEX_EDGE) ++ text "…" ++ hexEncode (key.drop (key.length - HEX_EDGE)) ++
    text " (len=" ++ digits key.length ++ text ")"

-- The keys of the first entries; the cap is tested after each push.
def collectKeysBounded (cap : Nat) : List Bytes → List Entry → List Bytes
  | keys,[] => keys
  | keys,(key,_) :: rest =>
    let keys := keys ++ [key]
    if cap ≤ keys.length then keys else collectKeysBounded cap keys rest

-- Phase A from one position on: the first pair that the comparator calls Greater, or the
-- positions whose pair is out of memcmp order.
def phaseA (compare : Bytes → Bytes → Ordering) (index : Bytes) : Nat → Bytes → List Bytes → Except SelfCheckError (List Nat)
  | _,_,[] => .ok []
  | pos,prev,cur :: rest =>
    if compare prev cur = .gt then .error (.MonotonicityViolation index pos (hexTrunc prev) (hexTrunc cur))
    else do
      let later ← phaseA compare index (pos + 1) cur rest
      return if cur < prev then pos :: later else later

def witnessPositions (compare : Bytes → Bytes → Ordering) (index : Bytes) (keys : List Bytes) : Except SelfCheckError (List Nat) :=
  match keys with
  | [] => .ok []
  | first :: rest => phaseA compare index 1 first rest

def spread (len step : Nat) : Nat → Nat → List Nat
  | 0,_ => []
  | steps+1,i => if i < len then i :: spread len step steps (i + step) else []

-- Both members of every witness pair; without witnesses a bounded spread of the sample.
def seekTargets (witnesses : List Nat) (keys : List Bytes) : List Nat :=
  let targets := ((witnesses.flatMap fun pos => [pos - 1,pos]).insertionSort (· ≤ ·)).destutter (· ≠ ·)
  if targets.isEmpty && !keys.isEmpty then spread keys.length (max ((keys.length + 63) / 64) 1) keys.length 0
  else targets

-- Phase B: every sought key is the first key of its own range.
def phaseB (range : Bytes → List Entry) (index : Bytes) (keys : List Bytes) : List Nat → Except SelfCheckError Unit
  | [] => .ok ()
  | idx :: rest =>
    match keys[idx]? with
    | none => phaseB range index keys rest
    | some sought =>
      match (range sought).head? with
      | none => .error (.SeekRoundTripMismatch index (hexTrunc sought) (text "<empty range>"))
      | some (landed,_) =>
        if landed ≠ sought then .error (.SeekRoundTripMismatch index (hexTrunc sought) (hexTrunc landed))
        else phaseB range index keys rest

-- compare is the registered comparator's function, range the seek as LMDB performs it.
def checkIndex (compare : Bytes → Bytes → Ordering) (range : Bytes → List Entry) (index : Bytes) (keys : List Bytes) :
    Except SelfCheckError IndexCheckReport := do
  let witnesses ← witnessPositions compare index keys
  phaseB range index keys (seekTargets witnesses keys)
  return ⟨keys.length,witnesses.length⟩

-- A leaf node of the B-tree: a key and its duplicates.
structure LeafNode where
  key : Bytes
  values : List LevId
  deriving DecidableEq, Repr

def LeafNode.entries (node : LeafNode) : List Entry := node.values.map fun levId => (node.key,levId)

variable {ρ : Type} [LinearOrder ρ]

-- An index as LMDB holds it: a search tree over distinct keys, in the order it was built in.
structure BuiltIndex (rank : Bytes → ρ) where
  height : Nat
  root : SearchTree.Tree Bytes LeafNode height
  ordered : SearchTree.Ordered LeafNode.key rank height root
  filled : ∀ node ∈ SearchTree.items height root, node.values ≠ []

variable {rank : Bytes → ρ}

def BuiltIndex.nodes (tree : BuiltIndex rank) : List LeafNode := SearchTree.items tree.height tree.root

def BuiltIndex.iter (tree : BuiltIndex rank) : List Entry := tree.nodes.flatMap LeafNode.entries

-- MDB_SET_RANGE with the comparator LMDB uses, and the walk from there.
def BuiltIndex.range (tree : BuiltIndex rank) (lmdbCmp : Bytes → Bytes → Ordering) (sought : Bytes) : List Entry :=
  (tree.nodes.drop (SearchTree.position LeafNode.key (lmdbCmp sought) tree.height tree.root)).flatMap LeafNode.entries

def BuiltIndex.sample (tree : BuiltIndex rank) (cap : Nat) : List Bytes := collectKeysBounded cap [] tree.iter

-- A comparator that orders the keys of the tree as the build order does.
def BuiltIndex.AgreesWith (tree : BuiltIndex rank) (cmp : Bytes → Bytes → Ordering) : Prop :=
  ∀ a ∈ SearchTree.nodes LeafNode.key tree.height tree.root, ∀ b ∈ SearchTree.nodes LeafNode.key tree.height tree.root,
    Agrees (cmp a b) (rank a) (rank b)

section Phases
variable {compare : Bytes → Bytes → Ordering} {index : Bytes} {range : Bytes → List Entry} {keys : List Bytes}

-- The adjacent pair that ends at a position of a list.
def PairAt (keys : List Bytes) (pos : Nat) (prev cur : Bytes) : Prop :=
  keys[pos]? = some prev ∧ keys[pos + 1]? = some cur

theorem PairAt.cons {first second : Bytes} {rest : List Bytes} {pos : Nat} {prev cur : Bytes} :
    PairAt (first :: second :: rest) pos prev cur ↔
      pos = 0 ∧ prev = first ∧ cur = second ∨ ∃ before, pos = before + 1 ∧ PairAt (second :: rest) before prev cur := by
  cases pos with
  | zero => simp [PairAt,eq_comm]
  | succ pos => simp [PairAt]

theorem phaseA_ok {start : Nat} {first : Bytes} {rest : List Bytes}
    (rising : ∀ pos prev cur, PairAt (first :: rest) pos prev cur → compare prev cur ≠ .gt) :
    ∃ witnesses, phaseA compare index start first rest = .ok witnesses := by
  induction rest generalizing start first with
  | nil => exact ⟨[],rfl⟩
  | cons second rest ih =>
    obtain ⟨later,ran⟩ := @ih (start + 1) second
      fun pos prev cur pair => rising (pos + 1) prev cur (PairAt.cons.mpr (.inr ⟨pos,rfl,pair⟩))
    have fine := rising 0 first second (PairAt.cons.mpr (.inl ⟨rfl,rfl,rfl⟩))
    simp only [phaseA,if_neg fine,ran,bind,Except.bind]
    exact ⟨_,rfl⟩

-- The first pair that the comparator calls Greater is the one reported.
theorem phaseA_first {start : Nat} {first : Bytes} {rest : List Bytes} {pos : Nat} {prev cur : Bytes}
    (pair : PairAt (first :: rest) pos prev cur) (greater : compare prev cur = .gt)
    (earlier : ∀ before < pos, ∀ a b, PairAt (first :: rest) before a b → compare a b ≠ .gt) :
    phaseA compare index start first rest =
      .error (.MonotonicityViolation index (start + pos) (hexTrunc prev) (hexTrunc cur)) := by
  induction rest generalizing start first pos with
  | nil => simp [PairAt] at pair
  | cons second rest ih =>
    rcases PairAt.cons.mp pair with ⟨rfl,rfl,rfl⟩ | ⟨before,rfl,inner⟩
    · simp only [phaseA,if_pos greater,Nat.add_zero]
    · have fine := earlier 0 (Nat.succ_pos before) first second (PairAt.cons.mpr (.inl ⟨rfl,rfl,rfl⟩))
      have ran := @ih (start + 1) second before inner
        fun place less a b known => earlier (place + 1) (by omega) a b (PairAt.cons.mpr (.inr ⟨place,rfl,known⟩))
      simp only [phaseA,if_neg fine,ran,bind,Except.bind]
      rw [show start + (before + 1) = start + 1 + before by omega]

-- A sample without a violation hands over the position of every pair out of memcmp order.
theorem phaseA_witness {start : Nat} {first : Bytes} {rest : List Bytes} {witnesses : List Nat}
    (ran : phaseA compare index start first rest = .ok witnesses) {pos : Nat} {prev cur : Bytes}
    (pair : PairAt (first :: rest) pos prev cur) (swapped : cur < prev) : start + pos ∈ witnesses := by
  induction rest generalizing start first pos witnesses with
  | nil => simp [PairAt] at pair
  | cons second rest ih =>
    unfold phaseA at ran
    split at ran
    · cases ran
    · cases tail : phaseA compare index (start + 1) second rest with
      | error error =>
        rw [tail] at ran
        cases ran
      | ok later =>
        rw [tail] at ran
        have same : (if second < first then start :: later else later) = witnesses := Except.ok.inj ran
        rw [← same]
        rcases PairAt.cons.mp pair with ⟨rfl,rfl,rfl⟩ | ⟨before,rfl,inner⟩
        · simp [swapped]
        · have found := ih tail inner
          rw [show start + (before + 1) = start + 1 + before by omega]
          split
          · exact List.mem_cons_of_mem _ found
          · exact found

-- Where a seek lands.
def Lands (range : Bytes → List Entry) (sought : Bytes) : Prop := ∃ levId, (range sought).head? = some (sought,levId)

theorem phaseB_ok {targets : List Nat} (lands : ∀ idx ∈ targets, ∀ sought, keys[idx]? = some sought → Lands range sought) :
    phaseB range index keys targets = .ok () := by
  induction targets with
  | nil => rfl
  | cons idx rest ih =>
    have tail := ih fun other member => lands other (List.mem_cons_of_mem _ member)
    unfold phaseB
    cases here : keys[idx]? with
    | none => exact tail
    | some sought =>
      obtain ⟨levId,landed⟩ := lands idx (by simp) sought here
      simp [landed,tail]

theorem phaseB_lands {targets : List Nat} (ran : phaseB range index keys targets = .ok ()) :
    ∀ idx ∈ targets, ∀ sought, keys[idx]? = some sought → Lands range sought := by
  induction targets with
  | nil => simp
  | cons idx rest ih =>
    unfold phaseB at ran
    cases here : keys[idx]? with
    | none =>
      simp only [here] at ran
      intro other member sought known
      rcases List.mem_cons.mp member with rfl | later
      · rw [here] at known
        cases known
      · exact ih ran other later sought known
    | some sought =>
      simp only [here] at ran
      cases landed : (range sought).head? with
      | none =>
        simp only [landed] at ran
        cases ran
      | some entry =>
        simp only [landed] at ran
        split at ran
        · cases ran
        · rename_i same
          have own : entry = (sought,entry.2) := Prod.ext (not_not.mp same) rfl
          intro other member sought' known
          rcases List.mem_cons.mp member with rfl | later
          · rw [here,Option.some.injEq] at known
            rw [← known]
            exact ⟨entry.2,by rw [landed,← own]⟩
          · exact ih ran other later sought' known

theorem witness_targets {witnesses : List Nat} {pos : Nat} (member : pos ∈ witnesses) :
    pos - 1 ∈ seekTargets witnesses keys ∧ pos ∈ seekTargets witnesses keys := by
  let targets := ((witnesses.flatMap fun pos => [pos - 1,pos]).insertionSort (· ≤ ·)).destutter (· ≠ ·)
  have listed : ∀ x, x = pos - 1 ∨ x = pos → x ∈ targets := by
    intro x given
    rw [Destutter.mem_destutter,List.mem_insertionSort,List.mem_flatMap]
    exact ⟨pos,member,by simpa using given⟩
  have some_target : targets.isEmpty = false := by
    rw [List.isEmpty_eq_false_iff]
    exact List.ne_nil_of_mem (listed pos (.inr rfl))
  change pos - 1 ∈ (if targets.isEmpty && !keys.isEmpty then _ else targets) ∧
    pos ∈ (if targets.isEmpty && !keys.isEmpty then _ else targets)
  rw [some_target]
  exact ⟨listed _ (.inl rfl),listed _ (.inr rfl)⟩

end Phases

section Tree
variable {tree : BuiltIndex rank} {cap : Nat} {cmp : Bytes → Bytes → Ordering}

theorem collect_front (cap : Nat) (keys : List Bytes) (entries : List Entry) :
    ∃ rest, keys ++ entries.map Prod.fst = collectKeysBounded cap keys entries ++ rest := by
  induction entries generalizing keys with
  | nil => exact ⟨[],by simp [collectKeysBounded]⟩
  | cons entry rest ih =>
    simp only [collectKeysBounded]
    split
    · exact ⟨rest.map Prod.fst,by simp⟩
    · obtain ⟨tail,split⟩ := ih (keys ++ [entry.1])
      exact ⟨tail,by simpa using split⟩

theorem sample_sublist : (tree.sample cap).Sublist (tree.iter.map Prod.fst) := by
  obtain ⟨rest,split⟩ := collect_front cap [] tree.iter
  rw [List.nil_append] at split
  rw [split]
  exact List.sublist_append_left _ _

theorem nodes_sorted : tree.nodes.Pairwise fun a b => rank a.key < rank b.key := SearchTree.items_sorted tree.ordered

theorem iter_keys : tree.iter.map Prod.fst = tree.nodes.flatMap fun node => node.values.map fun _ => node.key := by
  simp [BuiltIndex.iter,List.map_flatMap,LeafNode.entries]

-- The sampled keys come in build order, the duplicates of one key side by side.
theorem sample_rising : (tree.sample cap).Pairwise fun a b => a = b ∨ rank a < rank b := by
  refine List.Pairwise.sublist sample_sublist ?_
  rw [iter_keys,List.pairwise_flatMap]
  constructor
  · intro node _
    rw [List.pairwise_map]
    exact List.pairwise_of_forall fun _ _ => .inl rfl
  · refine nodes_sorted.imp ?_
    intro a b less x left y right
    obtain ⟨_,_,rfl⟩ := List.mem_map.mp left
    obtain ⟨_,_,rfl⟩ := List.mem_map.mp right
    exact .inr less

theorem sample_node {key : Bytes} (sampled : key ∈ tree.sample cap) : ∃ node ∈ tree.nodes, node.key = key := by
  have listed := sample_sublist.subset sampled
  rw [iter_keys] at listed
  obtain ⟨node,member,inside⟩ := List.mem_flatMap.mp listed
  obtain ⟨_,_,same⟩ := List.mem_map.mp inside
  exact ⟨node,member,same⟩

theorem pair_rising {pos : Nat} {prev cur : Bytes} (pair : PairAt (tree.sample cap) pos prev cur) :
    prev = cur ∨ rank prev < rank cur := by
  obtain ⟨first,rfl⟩ := List.getElem?_eq_some_iff.mp pair.1
  obtain ⟨second,rfl⟩ := List.getElem?_eq_some_iff.mp pair.2
  exact List.pairwise_iff_getElem.mp sample_rising pos (pos + 1) first second (Nat.lt_succ_self pos)

-- A seek lands on the key of the node its descent ends at.
theorem lands_exact {sought : Bytes} : Lands (tree.range cmp) sought ↔
    ∃ node, tree.nodes[SearchTree.position LeafNode.key (cmp sought) tree.height tree.root]? = some node ∧ node.key = sought := by
  rw [Lands,BuiltIndex.range,← List.head?_drop]
  cases rest : tree.nodes.drop (SearchTree.position LeafNode.key (cmp sought) tree.height tree.root) with
  | nil => simp
  | cons node others =>
    have member : node ∈ tree.nodes := List.mem_of_mem_drop (by rw [rest]; simp)
    obtain ⟨levId,values,some_value⟩ := List.exists_cons_of_ne_nil (tree.filled node member)
    simp [LeafNode.entries,some_value]

-- A seek with a comparator of the build order finds every key of the index.
theorem agreeing_lands (agrees : tree.AgreesWith cmp) {node : LeafNode} (member : node ∈ tree.nodes) :
    Lands (tree.range cmp) node.key := by
  have known : node.key ∈ SearchTree.nodes LeafNode.key tree.height tree.root := SearchTree.mem_nodes member
  have sided : SearchTree.Sided rank (rank node.key) (cmp node.key) (SearchTree.nodes LeafNode.key tree.height tree.root) := by
    intro n here
    obtain ⟨less,equal⟩ := agrees node.key known n here
    refine ⟨⟨fun greater => ?_,fun under => ?_⟩,⟨fun same => (equal.mp same).symm,fun same => equal.mpr same.symm⟩⟩
    · refine lt_of_le_of_ne (not_lt.mp fun above => ?_) fun same => ?_
      · rw [less.mpr above] at greater
        cases greater
      · rw [equal.mpr same.symm] at greater
        cases greater
    · cases result : cmp node.key n with
      | lt => exact absurd (less.mp result) under.not_gt
      | eq => exact absurd (equal.mp result) under.ne'
      | gt => rfl
  obtain ⟨left,right⟩ := SearchTree.position_splits tree.ordered sided
  rw [lands_exact]
  generalize SearchTree.position LeafNode.key (cmp node.key) tree.height tree.root = landing at *
  obtain ⟨place,inside,rfl⟩ := List.getElem_of_mem member
  change ∀ x ∈ tree.nodes.take landing, _ at left
  change ∀ x ∈ tree.nodes.drop landing, _ at right
  have reached : landing ≤ place := by
    by_contra beyond
    exact lt_irrefl _ (left _ (List.mem_take_iff_getElem.mpr ⟨place,by omega,rfl⟩))
  rcases reached.eq_or_lt with rfl | before
  · exact ⟨_,List.getElem?_eq_getElem inside,rfl⟩
  · have first : landing < tree.nodes.length := before.trans inside
    have here := right tree.nodes[landing] (List.mem_drop_iff_getElem.mpr ⟨0,by simpa using first,by simp⟩)
    have under := List.pairwise_iff_getElem.mp nodes_sorted landing place first inside before
    exact absurd under here.not_gt

-- memcmp compares a greater key with every key of a page as the greater one.
theorem memcmp_rising {a b : Bytes} (less : a < b) : SearchTree.Rising (mdbCmpMemn a) (mdbCmpMemn b) := by
  intro key
  have left := Agrees.memn a key
  have right := Agrees.memn b key
  constructor
  · intro greater
    have below : key < a := by
      refine lt_of_le_of_ne (not_lt.mp fun under => ?_) fun same => ?_
      · rw [left.1.mpr under] at greater
        cases greater
      · rw [left.2.mpr same.symm] at greater
        cases greater
    cases result : mdbCmpMemn b key with
    | lt => exact absurd (right.1.mp result) (below.trans less).not_gt
    | eq => exact absurd (right.2.mp result) (below.trans less).ne'
    | gt => rfl
  · intro under
    exact left.1.mpr (less.trans (right.1.mp under))

-- Under memcmp the later member of a swapped pair is looked for no further to the right than
-- the earlier one, so the two cannot both be found.
theorem fallback_misses {prev cur : Bytes} (order : prev = cur ∨ rank prev < rank cur) (swapped : cur < prev) :
    ¬ (Lands (tree.range mdbCmpMemn) prev ∧ Lands (tree.range mdbCmpMemn) cur) := by
  rintro ⟨first,second⟩
  obtain ⟨low,there,rfl⟩ := lands_exact.mp first
  obtain ⟨high,here,rfl⟩ := lands_exact.mp second
  have climb := (@SearchTree.position_rising _ _ LeafNode.key) (memcmp_rising swapped) tree.height tree.root
  obtain ⟨lowBound,sameLow⟩ := List.getElem?_eq_some_iff.mp there
  obtain ⟨highBound,sameHigh⟩ := List.getElem?_eq_some_iff.mp here
  have less : rank low.key < rank high.key := by
    refine order.resolve_left fun same => ?_
    rw [same] at swapped
    exact lt_irrefl _ swapped
  rcases climb.eq_or_lt with equal | apart
  · simp only [equal] at sameHigh
    rw [sameLow] at sameHigh
    rw [sameHigh] at less
    exact lt_irrefl _ less
  · have under := List.pairwise_iff_getElem.mp nodes_sorted _ _ highBound lowBound apart
    rw [sameLow,sameHigh] at under
    exact absurd less under.not_gt

theorem witnessPositions_ok {compare : Bytes → Bytes → Ordering} {index : Bytes} {keys : List Bytes}
    (rising : ∀ pos prev cur, PairAt keys pos prev cur → compare prev cur ≠ .gt) :
    ∃ witnesses, witnessPositions compare index keys = .ok witnesses := by
  cases keys with
  | nil => exact ⟨[],rfl⟩
  | cons first rest => exact phaseA_ok rising

theorem agreeing_ok {compare lmdbCmp : Bytes → Bytes → Ordering} (agrees : tree.AgreesWith compare)
    (registered : tree.AgreesWith lmdbCmp) (index : Bytes) :
    ∃ report, checkIndex compare (tree.range lmdbCmp) index (tree.sample cap) = .ok report := by
  have known : ∀ {pos : Nat} {key : Bytes}, (tree.sample cap)[pos]? = some key → ∃ node ∈ tree.nodes, node.key = key :=
    fun here => sample_node (List.mem_of_getElem? here)
  have rising : ∀ pos prev cur, PairAt (tree.sample cap) pos prev cur → compare prev cur ≠ .gt := by
    intro pos prev cur pair greater
    have order := pair_rising pair
    obtain ⟨low,lowMember,rfl⟩ := known pair.1
    obtain ⟨high,highMember,rfl⟩ := known pair.2
    obtain ⟨less,equal⟩ := agrees _ (SearchTree.mem_nodes lowMember) _ (SearchTree.mem_nodes highMember)
    rcases order with same | under
    · rw [equal.mpr (congrArg rank same)] at greater
      cases greater
    · rw [less.mpr under] at greater
      cases greater
  obtain ⟨witnesses,ran⟩ := (@witnessPositions_ok _ index) rising
  have sought := (@phaseB_ok index (tree.range lmdbCmp) (tree.sample cap) (seekTargets witnesses (tree.sample cap))) (by
      intro idx _ key here
      obtain ⟨node,member,rfl⟩ := known here
      exact agreeing_lands registered member)
  exact ⟨⟨(tree.sample cap).length,witnesses.length⟩,by simp only [checkIndex,ran,sought,bind,Except.bind]; rfl⟩

theorem violation_reported {compare : Bytes → Bytes → Ordering} {range : Bytes → List Entry} {keys : List Bytes} (index : Bytes)
    (violated : ∃ pos prev cur, PairAt keys pos prev cur ∧ compare prev cur = .gt) :
    ∃ pos prev cur, PairAt keys pos prev cur ∧ compare prev cur = .gt ∧
      (∀ before < pos, ∀ a b, PairAt keys before a b → compare a b ≠ .gt) ∧
      checkIndex compare range index keys = .error (.MonotonicityViolation index (pos + 1) (hexTrunc prev) (hexTrunc cur)) := by
  classical
  obtain ⟨prev,cur,pair,greater⟩ := Nat.find_spec violated
  have earlier : ∀ before < Nat.find violated, ∀ a b, PairAt keys before a b → compare a b ≠ .gt :=
    fun before less a b known above => Nat.find_min violated less ⟨a,b,known,above⟩
  refine ⟨_,prev,cur,pair,greater,earlier,?_⟩
  cases keys with
  | nil => simp [PairAt] at pair
  | cons first rest =>
    simp only [checkIndex,witnessPositions,phaseA_first pair greater earlier,bind,Except.bind]
    rw [Nat.add_comm]

theorem fallback_reported {compare : Bytes → Bytes → Ordering} (index : Bytes) {pos : Nat} {prev cur : Bytes}
    (pair : PairAt (tree.sample cap) pos prev cur) (swapped : cur < prev) :
    ∃ error, checkIndex compare (tree.range mdbCmpMemn) index (tree.sample cap) = .error error := by
  cases sampled : tree.sample cap with
  | nil =>
    rw [sampled] at pair
    simp [PairAt] at pair
  | cons first rest =>
    rw [← sampled]
    cases ran : witnessPositions compare index (tree.sample cap) with
    | error error => exact ⟨error,by simp only [checkIndex,ran,bind,Except.bind]⟩
    | ok witnesses =>
      have found : 1 + pos ∈ witnesses := by
        rw [sampled] at ran pair
        exact phaseA_witness ran pair swapped
      obtain ⟨low,high⟩ := (@witness_targets (tree.sample cap)) found
      cases sought : phaseB (tree.range mdbCmpMemn) index (tree.sample cap) (seekTargets witnesses (tree.sample cap)) with
      | error error => exact ⟨error,by simp only [checkIndex,ran,sought,bind,Except.bind]⟩
      | ok done =>
        have lands := phaseB_lands sought
        refine absurd ⟨lands _ low prev ?_,lands _ high cur ?_⟩ (fallback_misses (pair_rising pair) swapped)
        · rw [Nat.add_sub_cancel_left]
          exact pair.1
        · rw [Nat.add_comm]
          exact pair.2

end Tree

-- The self-check passes under agreeing comparators, reports the first violation of the compare
-- function, and fails under a memcmp fallback once the sample holds a swapped pair.
theorem check_index_contract (tree : BuiltIndex rank) (compare : Bytes → Bytes → Ordering) (index : Bytes) (cap : Nat) :
    (∀ lmdbCmp, tree.AgreesWith compare → tree.AgreesWith lmdbCmp →
      ∃ report, checkIndex compare (tree.range lmdbCmp) index (tree.sample cap) = .ok report) ∧
    (∀ lmdbCmp, (∃ pos prev cur, PairAt (tree.sample cap) pos prev cur ∧ compare prev cur = .gt) →
      ∃ pos prev cur, PairAt (tree.sample cap) pos prev cur ∧ compare prev cur = .gt ∧
        (∀ before < pos, ∀ a b, PairAt (tree.sample cap) before a b → compare a b ≠ .gt) ∧
        checkIndex compare (tree.range lmdbCmp) index (tree.sample cap) =
          .error (.MonotonicityViolation index (pos + 1) (hexTrunc prev) (hexTrunc cur))) ∧
    ∀ pos prev cur, PairAt (tree.sample cap) pos prev cur → cur < prev →
      ¬ (Lands (tree.range mdbCmpMemn) prev ∧ Lands (tree.range mdbCmpMemn) cur) ∧
      ∃ error, checkIndex compare (tree.range mdbCmpMemn) index (tree.sample cap) = .error error :=
  ⟨fun _ agrees registered => agreeing_ok agrees registered index,fun _ violated => violation_reported index violated,
    fun _ _ _ pair swapped => ⟨fallback_misses (pair_rising pair) swapped,fallback_reported index pair swapped⟩⟩

-- Two integer keys, 255 and 256, each in a page of its own: in memcmp order the second comes first.
def integerIndex : BuiltIndex fromLe where
  height := 1
  root := ([⟨[255,0],[1]⟩],[([0,1],[⟨[0,1],[2]⟩])])
  ordered := by
    refine ⟨?_,?_⟩
    · intro child inside
      obtain rfl | rfl := List.mem_pair.mp inside
      · exact List.pairwise_singleton _ _
      · exact List.pairwise_singleton _ _
    · intro idx separator here
      cases idx with
      | zero =>
        cases here
        decide
      | succ idx => cases here
  filled := by decide

theorem integerIndex_agrees : integerIndex.AgreesWith cmpInteger := fun _ _ _ _ => Agrees.nat _ _

-- The check passes where LMDB compares the keys as integers, and fails where it falls back to memcmp.
theorem check_index_contract_integer :
    (∃ report, checkIndex cmpInteger (integerIndex.range cmpInteger) [] (integerIndex.sample 8) = .ok report) ∧
      ∃ error, checkIndex cmpInteger (integerIndex.range mdbCmpMemn) [] (integerIndex.sample 8) = .error error := by
  obtain ⟨passes,-,fallback⟩ := check_index_contract integerIndex cmpInteger [] 8
  have pair : PairAt (integerIndex.sample 8) 0 [255,0] [0,1] := ⟨by decide,by decide⟩
  exact ⟨passes cmpInteger integerIndex_agrees integerIndex_agrees,(fallback 0 [255,0] [0,1] pair (by decide)).2⟩

end DeepFry.Lmdb
