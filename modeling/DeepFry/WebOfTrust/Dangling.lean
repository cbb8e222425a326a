import DeepFry.Lib.Machine
import DeepFry.WebOfTrust.FollowGraph
import DeepFry.WebOfTrust.Mutators

namespace DeepFry.WebOfTrust

structure Sound (g : Graph) : Prop where
  unique : Unique g
  keyed : ∀ u v, g.edge u v = true → (g.node v).pubkey.isSome = true

-- No pubkey changes and no edge comes in.
structure Trimmed (g next : Graph) : Prop where
  pubkey : ∀ u, (next.node u).pubkey = (g.node u).pubkey
  edge : ∀ u v, next.edge u v = true → g.edge u v = true

section Trimmed
variable {g middle next : Graph} {set : Node → Node} {u v : Uid}

theorem Trimmed.refl (g : Graph) : Trimmed g g := ⟨fun _ => rfl,fun _ _ => id⟩

theorem Trimmed.trans (left : Trimmed g middle) (right : Trimmed middle next) : Trimmed g next where
  pubkey u := (right.pubkey u).trans (left.pubkey u)
  edge u v present := left.edge u v (right.edge u v present)

theorem Trimmed.sound (trimmed : Trimmed g next) (sound : Sound g) : Sound next where
  unique u v pk left right := by
    rw [trimmed.pubkey] at left right
    exact sound.unique u v pk left right
  keyed u v present := by
    rw [trimmed.pubkey]
    exact sound.keyed u v (trimmed.edge u v present)

theorem trimmed_modify (pubkey : (set (g.node u)).pubkey = (g.node u).pubkey)
    (shrinks : ∀ v ∈ (set (g.node u)).follows, v ∈ (g.node u).follows) : Trimmed g (g.modify u set) := by
  constructor
  · intro v
    rw [Graph.node_modify]
    split
    · rename_i here
      rw [here.1]
      exact pubkey
    · rfl
  · intro w v present
    rw [Graph.edge_iff,Graph.node_modify] at present
    rw [Graph.edge_iff]
    split at present
    · rename_i here
      rw [here.1]
      exact shrinks v (List.mem_of_mem_filter present)
    · exact present

theorem trimmed_values (pubkey : ∀ n : Node, (set n).pubkey = n.pubkey) (values : ∀ n : Node, (set n).follows = n.follows) :
    Trimmed g (g.modify u set) := by
  apply trimmed_modify (pubkey _)
  intro v member
  rw [← values]
  exact member

theorem trimmed_fold {α : Type} {write : Graph → α → Graph} (items : List α) (one : ∀ g item, Trimmed g (write g item)) (g : Graph) :
    Trimmed g (items.foldl write g) := by
  induction items generalizing g with
  | nil => exact .refl g
  | cons item rest ih => exact (one g item).trans (ih _)

theorem trimmed_stampAll (ts : Int) (hits : List Str) (params : BackoffParams) (uids : List Uid) (g : Graph) :
    Trimmed g (stampAll ts hits params uids g) := by
  apply trimmed_fold
  intro g u
  exact trimmed_values (fun _ => stampNode_pubkey) fun _ => stampNode_follows

theorem trimmed_recount (page : List Uid) (g : Graph) : Trimmed g (recount page g) := by
  apply trimmed_fold
  intro g line
  exact trimmed_values (fun _ => rfl) fun _ => rfl

theorem trimmed_schedule (cadence : Int) (page : List Uid) (g : Graph) : Trimmed g (schedule cadence page g) := by
  apply trimmed_fold
  intro g u
  exact trimmed_values (fun _ => rfl) fun _ => rfl

theorem trimmed_backfillNextAttempt (cadence : Int) (read : Nat → Option StoreError) (outcome : Nat → Outcome) (fuel i total : Nat)
    (g : Graph) : Trimmed g (backfillNextAttempt cadence read outcome fuel i total g).2 := by
  induction fuel generalizing i total g with
  | zero => exact .refl g
  | succ fuel ih =>
    unfold backfillNextAttempt
    cases read i with
    | some e => exact .refl g
    | none =>
      dsimp only
      split
      · exact .refl g
      · cases outcome i with
        | done => exact (trimmed_schedule _ _ _).trans (ih _ _ _)
        | failed e => exact .refl g
        | lost e => exact trimmed_schedule _ _ _

theorem trimmed_backfillFollowerCount (pageSize : Nat) (outcome : Nat → Outcome) (fuel i total : Nat) (cursor : Uid) (g : Graph) :
    Trimmed g (backfillFollowerCountPaged pageSize outcome fuel i total cursor g).2 := by
  induction fuel generalizing i total cursor g with
  | zero => exact .refl g
  | succ fuel ih =>
    unfold backfillFollowerCountPaged
    dsimp only
    cases outcome i with
    | failed e => exact .refl g
    | lost e => exact trimmed_recount _ _
    | done =>
      dsimp only
      split
      · exact trimmed_recount _ _
      · exact (trimmed_recount _ _).trans (ih _ _ _ _)

theorem trimmed_touch (read : Option StoreError) (now : Int) (outcome : Outcome) (pubkey : Str) (g : Graph) :
    Trimmed g (touchLastDBUpdate read now outcome pubkey g).2 := by
  unfold touchLastDBUpdate
  split
  · exact .refl g
  · cases read with
    | some e => exact .refl g
    | none =>
      dsimp only
      cases (g.eqPubkey pubkey).head? with
      | none => exact .refl g
      | some u =>
        dsimp only
        split
        · exact .refl g
        · dsimp only
          split
          · exact trimmed_values (fun _ => rfl) fun _ => rfl
          · exact .refl g
end Trimmed

-- No edge from outside the set ends in it.
def unfollowed (g : Graph) (uids : List Uid) : Bool := g.uids.all fun u => decide (u ∈ uids) || uids.all fun v => !g.edge u v

-- Every node the batch purges has by then no follower but itself.
def spared (o : Oracle) : Nat → List Str → Graph → Bool
  | _,[],_ => true
  | i,pk :: rest,g =>
    (isValidHexPubkey pk || (purge o i pk g).all fun u => unfollowed g [u]) &&
      spared o (i+1) rest (if isValidHexPubkey pk then g else recoverOrPurge o i pk g)

-- What a call deletes is followed from nowhere else.
def Mutator.spares (g : Graph) : Mutator → Bool
  | .deleteNodes outcome uids => !outcome.committed || unfollowed g uids
  | .markAttempted o pubkeys _ _ _ => spared o 0 pubkeys g
  | _ => true

section Deletion
variable {g : Graph} {u v : Uid} {uids : List Uid} {o : Oracle} {i : Nat} {pk : Str}

theorem unfollowed_iff : unfollowed g uids = true ↔ ∀ u v, g.edge u v = true → v ∈ uids → u ∈ uids := by
  unfold unfollowed
  rw [List.all_eq_true]
  constructor
  · intro alone u v present member
    have either := alone u (Graph.mem_of_edge present)
    rw [Bool.or_eq_true,decide_eq_true_eq,List.all_eq_true] at either
    rcases either with inside | none
    · exact inside
    · have absent := none v member
      rw [present] at absent
      cases absent
  · intro alone u known
    rw [Bool.or_eq_true,decide_eq_true_eq,List.all_eq_true]
    by_cases inside : u ∈ uids
    · exact .inl inside
    · refine .inr fun v member => ?_
      cases present : g.edge u v with
      | false => rfl
      | true => exact absurd (alone u v present member) inside

theorem delete_all (g : Graph) (u : Uid) : g.delete u = [u].foldl Graph.delete g := rfl

theorem deleteAll_edge : (uids.foldl Graph.delete g).edge u v = true ↔ g.edge u v = true ∧ u ∉ uids := by
  rw [Graph.edge_iff,deleteAll_node]
  split
  · rename_i gone
    exact ⟨fun member => absurd member List.not_mem_nil,fun both => absurd gone both.2⟩
  · rename_i left
    rw [Graph.edge_iff]
    exact ⟨fun member => ⟨member,left⟩,And.left⟩

-- A deletion is safe exactly when nothing outside it points into it.
theorem sound_delete (sound : Sound g) : Sound (uids.foldl Graph.delete g) ↔ unfollowed g uids = true := by
  rw [unfollowed_iff]
  constructor
  · intro after u v present member
    by_contra left
    have keyed := after.keyed u v (deleteAll_edge.mpr ⟨present,left⟩)
    rw [deleteAll_node,if_pos member] at keyed
    cases keyed
  · intro alone
    have named : ∀ u pk, ((uids.foldl Graph.delete g).node u).pubkey = some pk → (g.node u).pubkey = some pk := by
      intro u pk named
      rw [deleteAll_node] at named
      split at named
      · cases named
      · exact named
    refine ⟨fun u v pk left right => sound.unique u v pk (named u pk left) (named v pk right),fun u v present => ?_⟩
    obtain ⟨before,left⟩ := deleteAll_edge.mp present
    have kept : v ∉ uids := fun member => left (alone u v before member)
    rw [deleteAll_node,if_neg kept]
    exact sound.keyed u v before

theorem sound_recovered (sound : Sound g) {lower : Str} (absent : ∀ u ∈ g.uids, (g.node u).pubkey ≠ some lower) :
    Sound (g.modify u fun n => { n with pubkey := some lower }) := by
  have values : ∀ v, ((g.modify u fun n => { n with pubkey := some lower }).node v).pubkey =
      if v = u ∧ u ∈ g.uids then some lower else (g.node v).pubkey := by
    intro v
    rw [Graph.node_modify]
    split
    · rfl
    · rfl
  refine ⟨fun v w name left right => ?_,fun w v present => ?_⟩
  · rw [values] at left right
    split at left
    · rename_i here
      cases left
      split at right
      · rename_i there
        rw [here.1,there.1]
      · exact absurd right (absent w (Graph.mem_of_pubkey right))
    · split at right
      · cases right
        exact absurd left (absent v (Graph.mem_of_pubkey left))
      · exact sound.unique v w name left right
  · rw [values]
    split
    · rfl
    · refine sound.keyed w v (Graph.edge_iff.mpr ?_)
      rw [Graph.edge_iff,Graph.node_modify] at present
      split at present
      · rename_i here
        rw [here.1]
        exact List.mem_of_mem_filter present
      · exact present

theorem sound_recoverAll (sound : Sound g) (pubkeys : List Str) (spares : spared o i pubkeys g = true) :
    Sound (recoverAll o i pubkeys g) := by
  induction pubkeys generalizing i g with
  | nil => exact sound
  | cons pk rest ih =>
    rw [spared,Bool.and_eq_true] at spares
    refine ih ?_ spares.2
    split
    · exact sound
    · rename_i invalid
      have repaired := recoverOrPurge_repaired o i pk g
      generalize recoverOrPurge o i pk g = next at repaired ⊢
      cases repaired with
      | kept => exact sound
      | purged u gone =>
        have alone := spares.1
        rw [Bool.not_eq_true] at invalid
        rw [invalid,gone] at alone
        rw [delete_all,sound_delete sound]
        exact alone
      | recovered u found valid absent => exact sound_recovered sound (resolvePubkey_absent absent)
end Deletion

section Mutators
variable {g : Graph}

theorem sound_markAttempted (sound : Sound g) {o : Oracle} {pubkeys hits : List Str} {ts : Int} {params : BackoffParams}
    (spares : spared o 0 pubkeys g = true) : Sound (markAttempted o pubkeys ts hits params g).2 := by
  have recovered := sound_recoverAll sound pubkeys spares
  have attempted := markAttempted_attempted o pubkeys ts hits params g
  generalize markAttempted o pubkeys ts hits params g = outcome at attempted ⊢
  cases attempted with
  | refused e _ => exact recovered
  | lost e _ => exact (trimmed_stampAll _ _ _ _ _).sound recovered
  | done => exact (trimmed_stampAll _ _ _ _ _).sound recovered

theorem trimmed_unfollow {signer : Str} {createdAt now : Int} {followees : List Uid} (signers : List Uid)
    (named : ∀ u ∈ signers, (g.node u).pubkey = some signer) :
    Trimmed g (signers.foldl (fun g u => g.modify u fun n => { n with
      pubkey := some signer, profile := true, kind3CreatedAt := some createdAt, lastDbUpdate := some now
      follows := n.follows.filter (· ∉ followees) }) g) := by
  induction signers generalizing g with
  | nil => exact .refl g
  | cons first rest ih =>
    have one : Trimmed g (g.modify first fun n => { n with
        pubkey := some signer, profile := true, kind3CreatedAt := some createdAt, lastDbUpdate := some now
        follows := n.follows.filter (· ∉ followees) }) := by
      apply trimmed_modify
      · exact (named first List.mem_cons_self).symm
      · intro v member
        exact List.mem_of_mem_filter member
    refine one.trans (ih fun u later => ?_)
    rw [one.pubkey]
    exact named u (List.mem_cons_of_mem _ later)

theorem sound_removeFollower (sound : Sound g) (lease : Lease) (now : Int) (outcome : Outcome) (signer : Str) (createdAt : Int)
    (followee : Str) : Sound (removeFollower lease now outcome signer createdAt followee g).2 := by
  unfold removeFollower
  dsimp only
  split
  · exact sound
  · split
    · exact sound
    · split
      · exact sound
      · dsimp only
        split
        · split
          · rename_i unknown
            have absent := unknown_pubkey (isEmpty_head.mp unknown)
            refine ⟨unique_alloc sound.unique rfl absent,fun u v present => ?_⟩
            rw [edge_alloc] at present
            rw [Graph.node_alloc_old (Graph.target_mem present)]
            exact sound.keyed u v present
          · apply Trimmed.sound ?_ sound
            apply trimmed_unfollow
            intro u member
            exact (Graph.mem_eqPubkey.mp member).2
        · exact sound

theorem sound_removePubKey (sound : Sound g) (read : Option StoreError) (outcome : Outcome) (pubkey : Str) :
    Sound (removePubKeyIfNoFollowers read outcome pubkey g).2 := by
  unfold removePubKeyIfNoFollowers
  cases read with
  | some e => exact sound
  | none =>
    cases g.eqPubkey pubkey with
    | nil => exact sound
    | cons u rest =>
      dsimp only
      split
      · exact sound
      · rename_i lonely
        dsimp only
        split
        · rw [delete_all,sound_delete sound,unfollowed_iff]
          intro w v present member
          cases List.mem_singleton.mp member
          have followed := Graph.indegree_pos present
          refine absurd ?_ lonely
          rw [List.any_eq_true]
          exact ⟨u,List.mem_cons_self,decide_eq_true (Nat.ne_of_gt followed)⟩
        · exact sound

theorem sound_apply (sound : Sound g) (c : Call) : Sound (apply g c) := by
  rcases apply_replaced sound.unique c with ⟨_,base,s,prepared,replaced⟩ | ⟨_,same,_⟩
  · refine ⟨replaced.unique,replaced.keyed fun u v present => ?_⟩
    rw [prepared.edge] at present
    obtain ⟨pk,named⟩ := Option.isSome_iff_exists.mp (sound.keyed u v present)
    rw [prepared.grown.pubkey named]
    rfl
  · rw [same]
    exact sound

theorem sound_perform (sound : Sound g) {m : Mutator} (spares : m.spares g = true) : Sound (m.effect g) := by
  cases m with
  | addFollowers e fault lease now => exact sound_apply sound ⟨e,fault,lease,now⟩
  | removeFollower lease now outcome signer createdAt followee => exact sound_removeFollower sound _ _ _ _ _ _
  | removePubKeyIfNoFollowers read outcome pubkey => exact sound_removePubKey sound _ _ _
  | deleteNodes outcome uids =>
    change Sound (deleteNodes outcome uids g).2
    unfold deleteNodes
    split
    · exact sound
    · dsimp only
      split
      · rename_i committed
        rw [sound_delete sound]
        rw [Mutator.spares,committed] at spares
        exact spares
      · exact sound
  | touchLastDBUpdate read now outcome pubkey => exact (trimmed_touch _ _ _ _ _).sound sound
  | markAttempted o pubkeys ts hits params => exact sound_markAttempted sound spares
  | backfillNextAttempt cadence read outcome => exact (trimmed_backfillNextAttempt _ _ _ _ _ _ _).sound sound
  | backfillFollowerCount outcome => exact (trimmed_backfillFollowerCount _ _ _ _ _ _ _).sound sound

-- The event's signer has one node, whose edges go to the nodes of the valid followees and nowhere else.
structure Exact (g : Graph) (e : Kind3) (s : Uid) : Prop where
  named : ∀ u, (g.node u).pubkey = some e.signer ↔ u = s
  only : ∀ v, g.edge s v = true → ∃ f ∈ validFollowees e, (g.node v).pubkey = some f
  all : ∀ f ∈ validFollowees e, ∃ v, (g.node v).pubkey = some f ∧ g.edge s v = true

theorem exact_apply (sound : Sound g) {c : Call} (passed : accepts g c = true) : ∃ s, Exact (apply g c) c.event s := by
  rcases apply_replaced sound.unique c with ⟨_,base,s,prepared,replaced⟩ | ⟨refused,_,_⟩
  · have named := replaced.grown.pubkey prepared.named
    refine ⟨s,fun u => ⟨fun other => replaced.unique u s _ other named,fun same => by rw [same]; exact named⟩,?_,replaced.follows⟩
    apply replaced.only
    intro v present
    rw [prepared.edge] at present
    obtain ⟨pk,there⟩ := Option.isSome_iff_exists.mp (sound.keyed s v present)
    rw [prepared.grown.pubkey there]
    rfl
  · rw [refused] at passed
    cases passed
end Mutators

-- In a run whose deletions spare every node that is followed from elsewhere no edge dangles and an accepted event's list
-- is exactly what its signer follows; a deletion that does not spare one leaves a dangling edge at once.
theorem dangling_edges {start g : Graph} (sound : Sound start) (path : Machine.Reached perform (fun g m => m.spares g = true) start g) :
    (∀ u v, g.edge u v = true → (g.node v).pubkey.isSome = true) ∧
    (∀ c : Call, accepts g c = true → ∃ s, Exact (apply g c) c.event s) ∧
    ∀ uids, unfollowed g uids = false →
      ∃ u v, ((deleteNodes .done uids g).2.edge u v = true ∧ ((deleteNodes .done uids g).2.node v).pubkey = none) := by
  have reached : Sound g := path.invariant Sound sound fun {s m next} before spares moved => by
    cases moved
    exact sound_perform before spares
  refine ⟨reached.keyed,fun c passed => exact_apply reached passed,fun uids followed => ?_⟩
  have deleted : (deleteNodes .done uids g).2 = uids.foldl Graph.delete g := by
    unfold deleteNodes
    split
    · rename_i empty
      rw [List.isEmpty_iff.mp empty]
      rfl
    · rfl
  have broken : ¬∀ u v, g.edge u v = true → v ∈ uids → u ∈ uids := by
    rw [← unfollowed_iff,followed]
    exact Bool.false_ne_true
  push Not at broken
  obtain ⟨u,v,present,member,left⟩ := broken
  refine ⟨u,v,?_,?_⟩
  · rw [deleted,deleteAll_edge]
    exact ⟨present,left⟩
  · rw [deleted,deleteAll_node,if_pos member]
    rfl

def aliceBoth : Kind3 := ⟨alice,10,[bob,carol],by decide⟩

def aliceNone : Kind3 := ⟨alice,20,[],by decide⟩

def adding (e : Kind3) : Mutator := .addFollowers e (fun _ _ => none) nextUid 0

-- Deleting both followees leaves both edges; the map of existing follows then knows one of them only.
theorem dangling_edges_fails : ∃ g, Machine.Reached perform (fun _ _ => True) .empty g ∧
    (g.edge 1 2 = true ∧ (g.node 2).pubkey = none) ∧
    accepts g (calling aliceNone) = true ∧ validFollowees aliceNone = [] ∧
    (apply g (calling aliceNone)).edge 1 2 = true ∧ ((apply g (calling aliceNone)).node 2).pubkey = none := by
  obtain ⟨g,path,found⟩ := Machine.replay_final perform (fun _ _ => True) .empty [adding aliceBoth,.deleteNodes .done [2,3]]
    (fun g => decide ((g.edge 1 2 = true ∧ (g.node 2).pubkey = none) ∧
      accepts g (calling aliceNone) = true ∧ validFollowees aliceNone = [] ∧
      (apply g (calling aliceNone)).edge 1 2 = true ∧ ((apply g (calling aliceNone)).node 2).pubkey = none))
    (by decide +kernel) (by decide +kernel)
  exact ⟨g,path,of_decide_eq_true found⟩

-- A node that nobody follows goes, and its pubkey comes back.
theorem dangling_edges_sample : ∃ g, Machine.Reached perform (fun g m => m.spares g = true) .empty g ∧
    (g.edge 2 3 = true ∧ (g.node 3).pubkey.isSome = true) ∧ ∃ s, Exact (apply g (calling aliceNewest)) aliceNewest s := by
  obtain ⟨g,path,found⟩ := Machine.replay_final perform (fun g m => m.spares g = true) .empty
    [adding aliceFirst,.deleteNodes .done [1],adding bobBack]
    (fun g => g.edge 2 3 && accepts g (calling aliceNewest)) (by decide +kernel) (by decide +kernel)
  rw [Bool.and_eq_true] at found
  obtain ⟨keyed,exact_lists,_⟩ := dangling_edges ⟨empty_consistent.unique,empty_consistent.keyed⟩ path
  exact ⟨g,path,⟨found.1,keyed 2 3 found.1⟩,exact_lists (calling aliceNewest) found.2⟩

end DeepFry.WebOfTrust
