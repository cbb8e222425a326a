import DeepFry.Lib.Closure

namespace DeepFry.WebOfTrust.Trust

-- The trust closure of clusterscan. The trusted map is a set; a node is its uid.
variable {V : Type} [DecidableEq V]

-- What the client sees of Dgraph in one round: the order of the map's keys and the answer of the query.
structure Round (V : Type) where
  keysOf : Finset V → List V
  query : List V → Int → List V

def expandTrustedSet (query : List V → Int → List V) (trustedUIDs : List V) (k : Int) : List V :=
  if trustedUIDs = [] then [] else query trustedUIDs k

-- for _, uid := range newUIDs
def addNew (trusted : Finset V) : List V → Finset V × Nat
  | [] => (trusted,0)
  | uid :: rest =>
    if uid ∈ trusted then addNew trusted rest
    else ((addNew (insert uid trusted) rest).1,(addNew (insert uid trusted) rest).2 + 1)

-- for round := 1; ; round++
def propagate (rounds : Nat → Round V) (k : Int) : Nat → Nat → Finset V → Option (Finset V)
  | 0,_,_ => none
  | fuel + 1,round,trusted =>
    let next := addNew trusted (expandTrustedSet (rounds round).query ((rounds round).keysOf trusted) k)
    if next.2 = 0 then some next.1 else propagate rounds k fuel (round + 1) next.1

variable (follows : Finset (V × V))

def trustedFollowers (trusted : List V) (v : V) : Nat := (follows.filter fun edge => edge.2 = v ∧ edge.1 ∈ trusted).card

-- ExpandTrustedSet answers with exactly the untrusted nodes that enough trusted nodes follow.
structure Round.Exact (r : Round V) (k : Int) : Prop where
  keys : ∀ trusted v, v ∈ r.keysOf trusted ↔ v ∈ trusted
  answer : ∀ trusted v, v ∈ r.query trusted k ↔ v ∉ trusted ∧ k ≤ trustedFollowers follows trusted v

-- The abstract rule: a node is derived from a set when at least k of its members follow the node.
noncomputable def endorsed (k : Int) : Set V →o Set V where
  toFun s := {v | k ≤ ({u | u ∈ s ∧ (u,v) ∈ follows} : Set V).ncard}
  monotone' := by
    intro s t less v enough
    have finite : ({u | u ∈ t ∧ (u,v) ∈ follows} : Set V).Finite := by
      apply (follows.image Prod.fst).finite_toSet.subset
      intro u member
      exact Finset.mem_coe.mpr (Finset.mem_image.mpr ⟨_,member.2,rfl⟩)
    have part : ({u | u ∈ s ∧ (u,v) ∈ follows} : Set V) ⊆ {u | u ∈ t ∧ (u,v) ∈ follows} :=
      fun _ member => ⟨less member.1,member.2⟩
    exact enough.trans (Int.ofNat_le.mpr (Set.ncard_le_ncard part finite))

section Rounds
variable {follows} {k : Int} {r : Round V} {trusted : Finset V}

theorem addNew_members (trusted : Finset V) (newUIDs : List V) (v : V) :
    v ∈ (addNew trusted newUIDs).1 ↔ v ∈ trusted ∨ v ∈ newUIDs := by
  induction newUIDs generalizing trusted with
  | nil => simp [addNew]
  | cons uid rest ih =>
    rw [addNew]
    split
    · rename_i old
      rw [ih,List.mem_cons]
      constructor
      · intro found
        exact found.imp_right .inr
      · intro found
        obtain held | same | later := found
        · exact .inl held
        · exact .inl (same ▸ old)
        · exact .inr later
    · dsimp only
      rw [ih,Finset.mem_insert,List.mem_cons,or_assoc]
      exact or_left_comm

-- The counter is the number of nodes that were new.
theorem addNew_added (trusted : Finset V) (newUIDs : List V) :
    (addNew trusted newUIDs).1.card = trusted.card + (addNew trusted newUIDs).2 := by
  induction newUIDs generalizing trusted with
  | nil => rfl
  | cons uid rest ih =>
    rw [addNew]
    split
    · exact ih trusted
    · rename_i fresh
      dsimp only
      rw [ih,Finset.card_insert_of_notMem fresh]
      omega

theorem trustedFollowers_ncard {keys : List V} (same : ∀ v, v ∈ keys ↔ v ∈ trusted) (v : V) :
    trustedFollowers follows keys v = ({u | u ∈ (trusted : Set V) ∧ (u,v) ∈ follows} : Set V).ncard := by
  have sources : ({u | u ∈ (trusted : Set V) ∧ (u,v) ∈ follows} : Set V) =
      ((follows.filter fun edge => edge.2 = v ∧ edge.1 ∈ keys).image Prod.fst : Finset V) := by
    ext u
    simp [same,and_comm]
  rw [sources,Set.ncard_coe_finset,trustedFollowers,Finset.card_image_of_injOn]
  intro one first other second equal
  have first := (Finset.mem_filter.mp first).2.1
  have second := (Finset.mem_filter.mp second).2.1
  exact Prod.ext equal (first.trans second.symm)

-- Nobody is trusted and k is positive: no node is derived, and ExpandTrustedSet does not ask.
theorem endorsed_empty (positive : 1 ≤ k) : endorsed follows k ∅ = ∅ := by
  ext v
  have nobody : ({u | u ∈ (∅ : Set V) ∧ (u,v) ∈ follows} : Set V) = ∅ := by simp
  change k ≤ (({u | u ∈ (∅ : Set V) ∧ (u,v) ∈ follows} : Set V).ncard : Int) ↔ v ∈ (∅ : Set V)
  rw [nobody,Set.ncard_empty]
  simp
  omega

theorem expand_members (exact : r.Exact follows k) (positive : 1 ≤ k) (v : V) :
    v ∈ expandTrustedSet r.query (r.keysOf trusted) k ↔ v ∉ trusted ∧ v ∈ endorsed follows k trusted := by
  have keys := exact.keys trusted
  unfold expandTrustedSet
  split
  · rename_i nobody
    have empty : trusted = ∅ := by
      apply Finset.eq_empty_of_forall_notMem
      intro u member
      have listed := (keys u).mpr member
      rw [nobody] at listed
      exact List.not_mem_nil listed
    rw [empty,Finset.coe_empty,endorsed_empty positive]
    simp
  · rw [exact.answer,keys,trustedFollowers_ncard keys]
    rfl

-- One round makes of the set what the rule makes of it.
theorem round_set (exact : r.Exact follows k) (positive : 1 ≤ k) :
    ((addNew trusted (expandTrustedSet r.query (r.keysOf trusted) k)).1 : Set V) =
      (trusted : Set V) ∪ endorsed follows k trusted := by
  ext v
  rw [Finset.mem_coe,addNew_members,expand_members exact positive,Set.mem_union,Finset.mem_coe]
  constructor
  · intro found
    exact found.imp_right And.right
  · intro found
    by_cases old : v ∈ trusted
    · exact .inl old
    · exact found.imp_right fun derived => ⟨old,derived⟩

variable {seeds : Set V} {rounds : Nat → Round V}

theorem propagate_closure (exact : ∀ round, (rounds round).Exact follows k) (positive : 1 ≤ k) {fuel round : Nat}
    {result : Finset V} (between : Closure.Between seeds (endorsed follows k) trusted)
    (returned : propagate rounds k fuel round trusted = some result) :
    (result : Set V) = Closure.closure seeds (endorsed follows k) := by
  induction fuel generalizing round trusted with
  | zero => cases returned
  | succ fuel ih =>
    have next := @round_set _ _ _ _ _ trusted (exact round) positive
    have grown := between.round
    rw [← next] at grown
    rw [propagate] at returned
    split at returned
    · rename_i nothing
      cases returned
      have card := addNew_added trusted (expandTrustedSet (rounds round).query ((rounds round).keysOf trusted) k)
      rw [nothing,add_zero] at card
      have whole : trusted ⊆ (addNew trusted (expandTrustedSet (rounds round).query ((rounds round).keysOf trusted) k)).1 := by
        intro v member
        exact (addNew_members trusted _ v).mpr (.inl member)
      have same := Finset.eq_of_subset_of_card_le whole card.le
      rw [← same]
      apply between.settled
      rw [← same] at next
      exact Set.union_eq_left.mp next.symm
    · exact ih grown returned

-- The nodes that can ever be trusted: those trusted now, and those that somebody follows.
def reach (follows : Finset (V × V)) (trusted : Finset V) : Finset V := trusted ∪ follows.image Prod.snd

theorem endorsed_reach (positive : 1 ≤ k) (s : Set V) {v : V} (derived : v ∈ endorsed follows k s) :
    v ∈ follows.image Prod.snd := by
  have enough : k ≤ (({u | u ∈ s ∧ (u,v) ∈ follows} : Set V).ncard : Int) := derived
  have some_follower : ({u | u ∈ s ∧ (u,v) ∈ follows} : Set V).Nonempty := by
    apply Set.nonempty_of_ncard_ne_zero
    omega
  obtain ⟨u,_,edge⟩ := some_follower
  exact Finset.mem_image.mpr ⟨_,edge,rfl⟩

theorem propagate_total (exact : ∀ round, (rounds round).Exact follows k) (positive : 1 ≤ k) {fuel : Nat} (round : Nat)
    (enough : (reach follows trusted).card < fuel + trusted.card) : ∃ result, propagate rounds k fuel round trusted = some result := by
  induction fuel generalizing round trusted with
  | zero =>
    have inside : trusted.card ≤ (reach follows trusted).card := Finset.card_le_card Finset.subset_union_left
    omega
  | succ fuel ih =>
    have next := @round_set _ _ _ _ _ trusted (exact round) positive
    have card := addNew_added trusted (expandTrustedSet (rounds round).query ((rounds round).keysOf trusted) k)
    rw [propagate]
    split
    · exact ⟨_,rfl⟩
    · apply ih
      have same : reach follows (addNew trusted (expandTrustedSet (rounds round).query ((rounds round).keysOf trusted) k)).1 ⊆
          reach follows trusted := by
        intro v member
        obtain now | later := Finset.mem_union.mp member
        · have now := Finset.mem_coe.mpr now
          rw [next] at now
          obtain old | derived := now
          · exact Finset.mem_union_left _ old
          · exact Finset.mem_union_right _ (endorsed_reach positive _ derived)
        · exact Finset.mem_union_right _ later
      have bound := Finset.card_le_card same
      omega

theorem propagate_ends (exact : ∀ round, (rounds round).Exact follows k) (positive : 1 ≤ k) (trusted : Finset V) :
    ∃ fuel result, propagate rounds k fuel 1 trusted = some result :=
  ⟨_,propagate_total exact positive 1 (show (reach follows trusted).card < ((reach follows trusted).card + 1) + trusted.card by omega)⟩

theorem endorsed_antitone {fewer : Int} (less : fewer ≤ k) : endorsed follows k ≤ endorsed follows fewer := by
  intro s v enough
  exact le_trans less enough

-- Every node that at least k members follow is a member.
def Closed (follows : Finset (V × V)) (k : Int) (s : Set V) : Prop :=
  ∀ v, k ≤ (({u | u ∈ s ∧ (u,v) ∈ follows} : Set V).ncard : Int) → v ∈ s

theorem trust_closure (follows : Finset (V × V)) (seeds : Finset V) (k : Int) (positive : 1 ≤ k)
    (rounds : Nat → Round V) (exact : ∀ round, (rounds round).Exact follows k) :
    ∃ trusted, (∃ fuel, propagate rounds k fuel 1 seeds = some trusted) ∧
      IsLeast {s | (seeds : Set V) ⊆ s ∧ Closed follows k s} (trusted : Set V) ∧
      (∀ others : Nat → Round V, (∀ round, (others round).Exact follows k) → ∀ fuel result,
        propagate others k fuel 1 seeds = some result → result = trusted) ∧
      (∀ (fewer : Int) (others : Nat → Round V) (more : Finset V), 1 ≤ fewer → fewer ≤ k → seeds ⊆ more →
        (∀ round, (others round).Exact follows fewer) → ∀ fuel result,
          propagate others fewer fuel 1 more = some result → trusted ⊆ result) := by
  obtain ⟨_,trusted,returned⟩ := propagate_ends exact positive seeds
  have reached := propagate_closure exact positive Closure.Between.refl returned
  refine ⟨trusted,⟨_,returned⟩,?_,?_,?_⟩
  · rw [reached]
    exact Closure.closure_least (seeds : Set V) (endorsed follows k)
  · intro others answers fuel result run
    have again := propagate_closure answers positive Closure.Between.refl run
    exact Finset.coe_injective (again.trans reached.symm)
  · intro fewer others more some_fewer less grown answers fuel result run
    have larger := propagate_closure answers some_fewer Closure.Between.refl run
    apply Finset.coe_subset.mp
    rw [reached,larger]
    exact Closure.closure_mono (Finset.coe_subset.mpr grown) (endorsed_antitone less)

end Rounds

-- Dgraph over a graph of numbers, answering in increasing order.
def numbered (follows : Finset (Nat × Nat)) : Round Nat where
  keysOf trusted := trusted.sort
  query trusted k := ((follows.image Prod.snd).filter fun v => v ∉ trusted ∧ k ≤ trustedFollowers follows trusted v).sort

theorem numbered_exact (follows : Finset (Nat × Nat)) {k : Int} (positive : 1 ≤ k) : (numbered follows).Exact follows k := by
  refine ⟨?_,?_⟩
  · intro trusted v
    exact Finset.mem_sort _
  · intro trusted v
    simp only [numbered,Finset.mem_sort,Finset.mem_filter]
    constructor
    · exact And.right
    · intro enough
      refine ⟨?_,enough⟩
      have some_edge : 0 < trustedFollowers follows trusted v := by omega
      obtain ⟨edge,member⟩ := Finset.card_pos.mp some_edge
      obtain ⟨present,same,_⟩ := Finset.mem_filter.mp member
      exact Finset.mem_image.mpr ⟨edge,present,same⟩

-- 1 and 2 are seeds and both follow 3; 1 and 3 follow 4; only 4 follows 0.
def fiveNodes : Finset (Nat × Nat) := {(1,3),(2,3),(3,4),(1,4),(4,0),(4,3)}

theorem trust_closure_five : ∃ trusted, (∃ fuel, propagate (fun _ => numbered fiveNodes) 2 fuel 1 {1,2} = some trusted) ∧
    IsLeast {s | (({1,2} : Finset Nat) : Set Nat) ⊆ s ∧ Closed fiveNodes 2 s} (trusted : Set Nat) := by
  obtain ⟨trusted,returned,least,_⟩ := trust_closure fiveNodes {1,2} 2 (by decide) (fun _ => numbered fiveNodes)
    (fun _ => numbered_exact fiveNodes (by decide))
  exact ⟨trusted,returned,least⟩

end DeepFry.WebOfTrust.Trust
