import DeepFry.Lib.Machine
import DeepFry.WebOfTrust.Mutators
import DeepFry.WebOfTrust.Replacement

namespace DeepFry.WebOfTrust

-- orderdesc: follower_count; a node without it comes last.
def followedMore (g : Graph) (u v : Uid) : Bool :=
  match (g.node u).followerCount,(g.node v).followerCount with
  | some left,some right => decide (right ≤ left)
  | none,some _ => false
  | _,none => true

-- A block of a stale query, with its first: limit.
def topFollowed (g : Graph) (limit : Nat) (uids : List Uid) : List Uid := (uids.mergeSort (followedMore g)).take limit

-- eq(uncrawled, 1)
def frontierIndex (g : Graph) : List Uid := g.uids.filter fun u => (g.node u).uncrawled = some 1

def due (now : Int) (n : Node) : Bool := n.nextAttempt.any fun next => decide (next < now)

-- ge(follower_count, 0) @filter(lt(next_attempt, now))
def agedIndex (now : Int) (g : Graph) : List Uid :=
  g.uids.filter fun u => (g.node u).followerCount.any (fun count => decide (0 ≤ count)) && due now (g.node u)

def collectStale (g : Graph) (rows : List Uid) (out : Table Str Int) : Table Str Int :=
  rows.foldl (fun out u => out.insert (keyOf g u) ((g.node u).kind3CreatedAt.getD 0)) out

-- The two queries in turn; the aged one only tops up.
def getStalePubkeys (frontier aged : Option StoreError) (limit : Nat) (now : Int) (g : Graph) : Except StoreError (Table Str Int) :=
  match frontier with
  | some e => .error (wrap "query stale pubkeys (frontier) failed: " e)
  | none =>
    let out := collectStale g (topFollowed g limit (frontierIndex g)) ∅
    if limit ≤ out.entries.length then .ok out
    else
      match aged with
      | some e => .error (wrap "query stale pubkeys (aged) failed: " e)
      | none => .ok (collectStale g (topFollowed g (limit - out.entries.length) (agedIndex now g)) out)

-- The nodes whose rows the two queries return.
def staleRows (limit : Nat) (now : Int) (g : Graph) : List Uid :=
  let first := topFollowed g limit (frontierIndex g)
  let found := (collectStale g first ∅).entries.length
  if limit ≤ found then first else first ++ topFollowed g (limit - found) (agedIndex now g)

-- has(pubkey) @filter(NOT has(last_attempt))
def unattempted (g : Graph) : List Uid := g.uids.filter fun u => (g.node u).pubkey.isSome && (g.node u).lastAttempt.isNone

-- has(next_attempt) @filter(lt(next_attempt, now))
def overdue (now : Int) (g : Graph) : List Uid := g.uids.filter fun u => due now (g.node u)

def countStalePubkeys (read : Option StoreError) (now : Int) (g : Graph) : Except StoreError Nat :=
  match read with
  | some e => .error (wrap "count stale pubkeys failed: " e)
  | none => .ok ((unattempted g).length + (overdue now g).length)

section Grown
variable {g : Graph} {set : Node → Node} {u : Uid}

theorem grown_recount (page : List Uid) (g : Graph) : Grown g (recount page g) := by
  apply grown_fold
  intro g line member
  obtain ⟨u,_,rfl⟩ := List.mem_map.mp member
  exact grown_setCount (Int.natCast_nonneg _) g

theorem grown_backfillFollowerCount (pageSize : Nat) (outcome : Nat → Outcome) (fuel i total : Nat) (cursor : Uid) (g : Graph) :
    Grown g (backfillFollowerCountPaged pageSize outcome fuel i total cursor g).2 := by
  induction fuel generalizing i total cursor g with
  | zero => exact .refl g
  | succ fuel ih =>
    unfold backfillFollowerCountPaged
    dsimp only
    cases outcome i with
    | failed e => exact .refl g
    | lost e => exact grown_recount _ _
    | done =>
      dsimp only
      split
      · exact grown_recount _ _
      · exact (grown_recount _ _).trans (ih _ _ _ _)

theorem grown_touch (read : Option StoreError) (now : Int) (outcome : Outcome) (pubkey : Str) (g : Graph) :
    Grown g (touchLastDBUpdate read now outcome pubkey g).2 := by
  unfold touchLastDBUpdate
  split
  · exact .refl g
  · cases read with
    | some e => exact .refl g
    | none =>
      dsimp only
      cases (g.eqPubkey pubkey).head? with
      | none => exact .refl g
      | some u =>
        dsimp only
        split
        · exact .refl g
        · dsimp only
          split
          · exact grown_modify fun _ => ⟨rfl,rfl,rfl,rfl,rfl,rfl,.inl rfl⟩
          · exact .refl g

-- Removing a follow of signers that are profiles already.
theorem grown_unfollow {signer : Str} {createdAt now : Int} {followees : List Uid} (signers : List Uid)
    (profiles : ∀ u ∈ signers, (g.node u).pubkey = some signer ∧ (g.node u).profile = true) :
    Grown g (signers.foldl (fun g u => g.modify u fun n => { n with
      pubkey := some signer, profile := true, kind3CreatedAt := some createdAt, lastDbUpdate := some now
      follows := n.follows.filter (· ∉ followees) }) g) := by
  induction signers generalizing g with
  | nil => exact .refl g
  | cons first rest ih =>
    obtain ⟨named,typed⟩ := profiles first List.mem_cons_self
    have one : Grown g (g.modify first fun n => { n with
        pubkey := some signer, profile := true, kind3CreatedAt := some createdAt, lastDbUpdate := some now
        follows := n.follows.filter (· ∉ followees) }) :=
      grown_modify_here ⟨named.symm,typed.symm,rfl,rfl,rfl,rfl,.inl rfl⟩
    refine one.trans (ih fun u later => ?_)
    obtain ⟨named,typed⟩ := profiles u (List.mem_cons_of_mem _ later)
    have kept := one.kept u (Graph.mem_of_pubkey named)
    exact ⟨kept.pubkey.trans named,kept.profile.trans typed⟩
end Grown

section Lasting
variable {g next : Graph} {P : Node → Prop} {set : Node → Node} {u : Uid} {uids : List Uid}

-- A property of one node that no write of the package takes away.
structure Lasting (P : Node → Prop) : Prop where
  empty : P .empty
  kept : ∀ {old new : Node}, old.Kept new → P old → P new
  made : ∀ {n : Node}, n.Made → P n
  recovered : ∀ {n : Node} (lower : Str), n.pubkey.isSome = true → P n → P { n with pubkey := some lower }
  stamped : ∀ {n : Node} (ts : Int) (hits : List Str) (params : BackoffParams), n.pubkey.isSome = true → P n →
    P (stampNode ts hits params n)
  scheduled : ∀ {n : Node} (next miss : Int), n.lastAttempt.isSome = true → P n →
    P { n with nextAttempt := some next, missCount := some miss }

def Throughout (P : Node → Prop) (g : Graph) : Prop := ∀ u, P (g.node u)

theorem Lasting.follows (lasting : Lasting P) {n : Node} (follows : List Uid) (holds : P n) : P { n with follows } := by
  have kept : n.Kept { n with follows } := ⟨rfl,rfl,rfl,rfl,rfl,rfl,.inl rfl⟩
  exact lasting.kept kept holds

theorem Lasting.grown (lasting : Lasting P) (grown : Grown g next) (throughout : Throughout P g) : Throughout P next := by
  intro u
  by_cases known : u ∈ g.uids
  · exact lasting.kept (grown.kept u known) (throughout u)
  · by_cases present : u ∈ next.uids
    · exact lasting.made (grown.made u present known)
    · rw [next.beyond u present]
      exact lasting.empty

theorem Lasting.modify (lasting : Lasting P) (throughout : Throughout P g) (one : P (g.node u) → P (set (g.node u))) :
    Throughout P (g.modify u set) := by
  intro v
  rw [Graph.node_modify]
  split
  · exact lasting.follows _ (one (throughout u))
  · exact throughout v

theorem Lasting.sweep (lasting : Lasting P) (throughout : Throughout P g) (values : ∀ n : Node, (set n).follows = n.follows)
    (distinct : uids.Nodup) (one : ∀ u ∈ uids, P (g.node u) → P (set (g.node u))) : Throughout P (sweep set uids g) := by
  intro u
  by_cases member : u ∈ uids
  · by_cases known : u ∈ g.uids
    · have shrinks : ∀ n : Node, ∀ v ∈ (set n).follows, v ∈ n.follows := fun n v inside => by rw [← values]; exact inside
      rw [sweep_node shrinks distinct member known]
      exact one u member (throughout u)
    · rw [(WebOfTrust.sweep set uids g).beyond u (by rw [sweep_uids]; exact known)]
      exact lasting.empty
  · rw [sweep_other member]
    exact throughout u

theorem Lasting.delete (lasting : Lasting P) (throughout : Throughout P g) (uids : List Uid) :
    Throughout P (uids.foldl Graph.delete g) := by
  intro u
  rw [deleteAll_node]
  split
  · exact lasting.empty
  · exact throughout u

theorem Lasting.stampAll (lasting : Lasting P) (throughout : Throughout P g) (ts : Int) (hits valid : List Str) (params : BackoffParams) :
    Throughout P (stampAll ts hits params (resolveMisses valid g) g) := by
  apply lasting.sweep throughout
  · exact fun _ => stampNode_follows
  · exact g.distinct.filter _
  · intro u member
    apply lasting.stamped
    have named := (List.mem_filter.mp member).2
    obtain ⟨pk,present,_⟩ := (Option.any_eq_true _ _).mp named
    rw [present]
    rfl

theorem Lasting.schedule (lasting : Lasting P) (throughout : Throughout P g) (cadence : Int) (size : Nat) :
    Throughout P (schedule cadence ((unscheduled g).take size) g) := by
  have distinct : ((unscheduled g).take size).Nodup := (g.distinct.filter _).sublist (List.take_sublist _ _)
  unfold WebOfTrust.schedule
  refine lasting.sweep throughout (fun _ => rfl) distinct ?_
  intro u member
  have attempted := (List.mem_filter.mp (List.mem_of_mem_take member)).2
  rw [Bool.and_eq_true] at attempted
  exact lasting.scheduled _ _ attempted.1

theorem Lasting.recoverAll (lasting : Lasting P) (throughout : Throughout P g) (o : Oracle) (i : Nat) (pubkeys : List Str) :
    Throughout P (recoverAll o i pubkeys g) := by
  induction pubkeys generalizing i g with
  | nil => exact throughout
  | cons pk rest ih =>
    refine ih ?_ (i+1)
    split
    · exact throughout
    · have repaired := recoverOrPurge_repaired o i pk g
      generalize recoverOrPurge o i pk g = next at repaired ⊢
      cases repaired with
      | kept => exact throughout
      | purged u _ => exact lasting.delete throughout [u]
      | recovered u found _ _ =>
        apply lasting.modify throughout
        apply lasting.recovered
        rw [(resolvePubkey_named found).2]
        rfl

theorem Lasting.markAttempted (lasting : Lasting P) (throughout : Throughout P g) (o : Oracle) (pubkeys hits : List Str) (ts : Int)
    (params : BackoffParams) : Throughout P (markAttempted o pubkeys ts hits params g).2 := by
  have recovered := lasting.recoverAll throughout o 0 pubkeys
  have attempted := markAttempted_attempted o pubkeys ts hits params g
  generalize WebOfTrust.markAttempted o pubkeys ts hits params g = outcome at attempted ⊢
  cases attempted with
  | refused e _ => exact recovered
  | lost e _ => exact lasting.stampAll recovered _ _ _ _
  | done => exact lasting.stampAll recovered _ _ _ _

theorem Lasting.backfillNextAttempt (lasting : Lasting P) (throughout : Throughout P g) (cadence : Int)
    (read : Nat → Option StoreError) (outcome : Nat → Outcome) (fuel i total : Nat) :
    Throughout P (backfillNextAttempt cadence read outcome fuel i total g).2 := by
  induction fuel generalizing i total g with
  | zero => exact throughout
  | succ fuel ih =>
    have scheduled := lasting.schedule throughout cadence batchSize
    unfold WebOfTrust.backfillNextAttempt
    cases read i with
    | some e => exact throughout
    | none =>
      dsimp only
      split
      · exact throughout
      · cases outcome i with
        | done => exact ih scheduled _ _
        | failed e => exact throughout
        | lost e => exact scheduled

theorem Lasting.backfillFollowerCount (lasting : Lasting P) (throughout : Throughout P g) (pageSize : Nat) (outcome : Nat → Outcome)
    (fuel i total : Nat) (cursor : Uid) : Throughout P (backfillFollowerCountPaged pageSize outcome fuel i total cursor g).2 :=
  lasting.grown (grown_backfillFollowerCount pageSize outcome fuel i total cursor g) throughout
end Lasting

-- A committed removal finds its signer's node, and it is a profile.
def Mutator.marks (g : Graph) : Mutator → Bool
  | .removeFollower _ _ outcome signer createdAt followee =>
    !outcome.committed || signer.isEmpty || followee.isEmpty || decide (createdAt = 0) ||
      (!(g.eqPubkey signer).isEmpty && (g.eqPubkey signer).all fun u => (g.node u).profile)
  | _ => true

-- Never attempted and marked so, or attempted and unmarked; the follower index holds the node either way.
def Node.Marked (n : Node) : Prop := n.profile = true → n.pubkey.isSome = true →
  (n.uncrawled = some 1 ↔ n.lastAttempt = none) ∧ ∃ count, 0 ≤ count ∧ n.followerCount = some count

-- A profile with a pubkey, or without crawl state.
structure Node.Tidy (n : Node) : Prop where
  blank : n.pubkey = none → n.uncrawled = none ∧ n.lastAttempt = none ∧ n.nextAttempt = none
  typed : n.pubkey.isSome = true → n.profile = true
  attempted : n.nextAttempt.isSome = true → n.lastAttempt.isSome = true

def Node.Scheduled (n : Node) : Prop := n.lastAttempt.isSome = true → n.nextAttempt.isSome = true

section Instances
theorem lasting_marked : Lasting Node.Marked where
  empty typed := by cases typed
  kept {old new} kept marked typed named := by
    rw [kept.profile] at typed
    rw [kept.pubkey] at named
    obtain ⟨marker,count,nonneg,written⟩ := marked typed named
    rw [kept.uncrawled,kept.lastAttempt]
    refine ⟨marker,?_⟩
    rcases kept.followerCount with same | fresh
    · exact ⟨count,nonneg,same.trans written⟩
    · exact fresh
  made {n} made _ _ := ⟨⟨fun _ => made.lastAttempt,fun _ => made.uncrawled⟩,made.followerCount⟩
  recovered {n} _ named marked typed _ := marked typed named
  stamped {n} ts hits params named marked typed _ := by
    rw [stampNode_profile] at typed
    obtain ⟨_,count⟩ := marked typed named
    obtain ⟨attempt,unmarked,_⟩ := @stampNode_attempted n ts hits params
    rw [attempt,unmarked,stampNode_followerCount]
    exact ⟨⟨nofun,nofun⟩,count⟩
  scheduled {n} _ _ _ marked := marked

theorem lasting_tidy : Lasting Node.Tidy where
  empty := ⟨fun _ => ⟨rfl,rfl,rfl⟩,nofun,nofun⟩
  kept {old new} kept tidy := by
    refine ⟨fun unnamed => ?_,fun named => ?_,fun attempted => ?_⟩
    · rw [kept.uncrawled,kept.lastAttempt,kept.nextAttempt]
      rw [kept.pubkey] at unnamed
      exact tidy.blank unnamed
    · rw [kept.profile]
      rw [kept.pubkey] at named
      exact tidy.typed named
    · rw [kept.lastAttempt]
      rw [kept.nextAttempt] at attempted
      exact tidy.attempted attempted
  made {n} made := by
    obtain ⟨pk,named⟩ := made.pubkey
    refine ⟨fun unnamed => ?_,fun _ => made.profile,fun attempted => ?_⟩
    · rw [named] at unnamed
      cases unnamed
    · rw [made.nextAttempt] at attempted
      cases attempted
  recovered {n} _ named tidy := ⟨nofun,fun _ => tidy.typed named,tidy.attempted⟩
  stamped {n} ts hits params named tidy := by
    refine ⟨fun unnamed => ?_,fun _ => ?_,fun _ => ?_⟩
    · rw [stampNode_pubkey] at unnamed
      rw [unnamed] at named
      cases named
    · rw [stampNode_profile]
      exact tidy.typed named
    · rw [stampNode_attempted.1]
      rfl
  scheduled {n} _ _ attempted tidy := by
    refine ⟨fun unnamed => ?_,tidy.typed,fun _ => attempted⟩
    rw [(tidy.blank unnamed).2.1] at attempted
    cases attempted

theorem lasting_scheduled : Lasting Node.Scheduled where
  empty attempted := by cases attempted
  kept {old new} kept scheduled attempted := by
    rw [kept.nextAttempt]
    rw [kept.lastAttempt] at attempted
    exact scheduled attempted
  made {n} made attempted := by
    rw [made.lastAttempt] at attempted
    cases attempted
  recovered {n} _ _ scheduled := scheduled
  stamped {n} _ _ _ _ _ _ := stampNode_attempted.2.2
  scheduled {n} _ _ _ _ _ := rfl
end Instances

section Perform
variable {g : Graph} {P : Node → Prop} {m : Mutator}

theorem grown_removeFollower {lease : Lease} {now createdAt : Int} {outcome : Outcome} {signer followee : Str}
    (marks : (Mutator.removeFollower lease now outcome signer createdAt followee).marks g = true) :
    Grown g (removeFollower lease now outcome signer createdAt followee g).2 := by
  unfold removeFollower
  dsimp only
  split
  · exact .refl g
  · split
    · exact .refl g
    · split
      · exact .refl g
      · rename_i signer_given followee_given stamp_given
        dsimp only
        split
        · rename_i committed
          simp only [Mutator.marks,committed,signer_given,followee_given,stamp_given,Bool.or_eq_true,Bool.and_eq_true,
            Bool.not_eq_true',List.all_eq_true,decide_false,Bool.not_true,false_or,or_false,Bool.false_eq_true] at marks
          obtain ⟨found,profiles⟩ := marks
          rw [if_neg (by rw [found]; exact Bool.false_ne_true)]
          apply grown_unfollow
          intro u member
          exact ⟨(Graph.mem_eqPubkey.mp member).2,profiles u member⟩
        · exact .refl g

theorem Lasting.perform (lasting : Lasting P) (throughout : Throughout P g) (marks : m.marks g = true) : Throughout P (m.effect g) := by
  cases m with
  | addFollowers e fault lease now => exact lasting.grown (addFollowers_grown e fault lease now g) throughout
  | removeFollower lease now outcome signer createdAt followee => exact lasting.grown (grown_removeFollower marks) throughout
  | removePubKeyIfNoFollowers read outcome pubkey =>
    change Throughout P (removePubKeyIfNoFollowers read outcome pubkey g).2
    unfold removePubKeyIfNoFollowers
    cases read with
    | some e => exact throughout
    | none =>
      cases g.eqPubkey pubkey with
      | nil => exact throughout
      | cons u rest =>
        dsimp only
        split
        · exact throughout
        · dsimp only
          split
          · exact lasting.delete throughout [u]
          · exact throughout
  | deleteNodes outcome uids =>
    change Throughout P (deleteNodes outcome uids g).2
    unfold deleteNodes
    split
    · exact throughout
    · dsimp only
      split
      · exact lasting.delete throughout uids
      · exact throughout
  | touchLastDBUpdate read now outcome pubkey => exact lasting.grown (grown_touch read now outcome pubkey g) throughout
  | markAttempted o pubkeys ts hits params => exact lasting.markAttempted throughout o pubkeys hits ts params
  | backfillNextAttempt cadence read outcome => exact lasting.backfillNextAttempt throughout cadence read outcome _ 0 0
  | backfillFollowerCount outcome => exact lasting.backfillFollowerCount throughout _ outcome _ 0 0 0

theorem Lasting.reached (lasting : Lasting P) {start : Graph} (throughout : Throughout P start)
    (path : Machine.Reached WebOfTrust.perform (fun g m => m.marks g = true) start g) : Throughout P g := by
  apply path.invariant (Throughout P) throughout
  intro s m next before marks moved
  cases moved
  exact lasting.perform before marks
end Perform

section Selection
variable {g : Graph} {now : Int} {limit : Nat} {uids rows : List Uid} {out : Table Str Int} {pk : Str} {u : Uid}

theorem topFollowed_perm (large : uids.length ≤ limit) : (topFollowed g limit uids).Perm uids := by
  unfold topFollowed
  rw [List.take_of_length_le (by rw [List.length_mergeSort]; exact large)]
  exact List.mergeSort_perm _ _

theorem collectStale_append (rows later : List Uid) :
    collectStale g (rows ++ later) out = collectStale g later (collectStale g rows out) := List.foldl_append

theorem mem_collectStale : pk ∈ collectStale g rows out ↔ (∃ u ∈ rows, keyOf g u = pk) ∨ pk ∈ out := by
  induction rows generalizing out with
  | nil => exact ⟨.inr,fun either => either.resolve_left fun ⟨_,member,_⟩ => absurd member List.not_mem_nil⟩
  | cons first rest ih =>
    refine ih.trans ?_
    rw [AList.mem_insert]
    constructor
    · intro either
      rcases either with ⟨u,later,same⟩ | here | before
      · exact .inl ⟨u,List.mem_cons_of_mem _ later,same⟩
      · exact .inl ⟨first,List.mem_cons_self,here.symm⟩
      · exact .inr before
    · intro either
      rcases either with ⟨u,member,same⟩ | before
      · rcases List.mem_cons.mp member with rfl | later
        · exact .inr (.inl same.symm)
        · exact .inl ⟨u,later,same⟩
      · exact .inr (.inr before)

theorem collectStale_length (rows : List Uid) (out : Table Str Int) :
    (collectStale g rows out).entries.length ≤ out.entries.length + rows.length := by
  induction rows generalizing out with
  | nil => exact Nat.le_refl _
  | cons first rest ih =>
    have one : (out.insert (keyOf g first) ((g.node first).kind3CreatedAt.getD 0)).entries.length ≤ out.entries.length + 1 := by
      have dropped : (out.entries.kerase (keyOf g first)).length ≤ out.entries.length := (List.kerase_sublist _ _).length_le
      rw [AList.entries_insert,List.length_cons]
      exact Nat.succ_le_succ dropped
    refine (ih (out.insert (keyOf g first) ((g.node first).kind3CreatedAt.getD 0))).trans ?_
    rw [List.length_cons]
    omega

theorem getStale_rows : getStalePubkeys none none limit now g = .ok (collectStale g (staleRows limit now g) ∅) := by
  unfold getStalePubkeys staleRows
  dsimp only
  split
  · rfl
  · rw [collectStale_append]

-- The marker index holds the nodes that were never attempted.
theorem frontier_exact (marked : Throughout Node.Marked g) (tidy : Throughout Node.Tidy g) : frontierIndex g = unattempted g := by
  apply List.filter_congr
  intro u _
  cases named : (g.node u).pubkey with
  | none =>
    rw [((tidy u).blank named).1]
    rfl
  | some pk =>
    have there : (g.node u).pubkey.isSome = true := by rw [named]; rfl
    have marker := (marked u ((tidy u).typed there) there).1
    rw [Option.isSome_some,Bool.true_and]
    cases attempt : (g.node u).lastAttempt with
    | none => exact decide_eq_true (marker.mpr attempt)
    | some at_ =>
      refine decide_eq_false fun same => ?_
      rw [marker.mp same] at attempt
      cases attempt

-- The follower index hides no node that is due.
theorem aged_exact (marked : Throughout Node.Marked g) (tidy : Throughout Node.Tidy g) : agedIndex now g = overdue now g := by
  apply List.filter_congr
  intro u _
  cases late : due now (g.node u) with
  | false => rw [Bool.and_false]
  | true =>
    obtain ⟨next,planned,_⟩ := (Option.any_eq_true _ _).mp late
    have named : (g.node u).pubkey.isSome = true := by
      cases named : (g.node u).pubkey with
      | some pk => rfl
      | none =>
        rw [((tidy u).blank named).2.2] at planned
        cases planned
    obtain ⟨_,count,nonneg,written⟩ := marked u ((tidy u).typed named) named
    rw [written,Bool.and_true]
    exact decide_eq_true nonneg

theorem stale_bounded (tidy : Throughout Node.Tidy g) : (unattempted g).length + (overdue now g).length ≤ g.uids.length := by
  have distinct : (unattempted g ++ overdue now g).Nodup := by
    rw [List.nodup_append']
    refine ⟨g.distinct.filter _,g.distinct.filter _,fun u fresh late => ?_⟩
    have never := (List.mem_filter.mp fresh).2
    obtain ⟨next,planned,_⟩ := (Option.any_eq_true _ _).mp (List.mem_filter.mp late).2
    have attempted := (tidy u).attempted (by rw [planned]; rfl)
    rw [Bool.and_eq_true] at never
    rw [Option.isNone_iff_eq_none.mp never.2] at attempted
    cases attempted
  have inside : unattempted g ++ overdue now g ⊆ g.uids := by
    intro u member
    rcases List.mem_append.mp member with fresh | late
    · exact List.mem_of_mem_filter fresh
    · exact List.mem_of_mem_filter late
  rw [← List.length_append]
  exact (distinct.subperm inside).length_le

-- With room for every node the two queries return every stale node once.
theorem staleRows_perm (marked : Throughout Node.Marked g) (tidy : Throughout Node.Tidy g) (large : g.uids.length ≤ limit) :
    (staleRows limit now g).Perm (unattempted g ++ overdue now g) := by
  have bound := @stale_bounded g now tidy
  have first : (topFollowed g limit (frontierIndex g)).Perm (unattempted g) := by
    rw [frontier_exact marked tidy]
    exact topFollowed_perm (by omega)
  have found := collectStale_length (topFollowed g limit (frontierIndex g)) ∅ (g := g)
  rw [first.length_eq] at found
  change _ ≤ 0 + _ at found
  unfold staleRows
  dsimp only
  split
  · rename_i full
    have none : overdue now g = [] := List.length_eq_zero_iff.mp (by omega)
    rw [none,List.append_nil]
    exact first
  · apply first.append
    rw [aged_exact marked tidy]
    exact topFollowed_perm (by omega)

theorem stale_found (marked : Throughout Node.Marked g) (tidy : Throughout Node.Tidy g) (large : g.uids.length ≤ limit)
    (named : (g.node u).pubkey = some pk) (stale : u ∈ unattempted g ∨ u ∈ overdue now g) :
    pk ∈ collectStale g (staleRows limit now g) ∅ := by
  refine mem_collectStale.mpr (.inl ⟨u,(staleRows_perm marked tidy large).mem_iff.mpr (List.mem_append.mpr stale),?_⟩)
  rw [keyOf,named]
  rfl
end Selection

-- In a run whose removals find their signer the marker holds everywhere; where every node is a profile the two queries
-- then return exactly the nodes that are counted, and each node in its time. A removal without its signer breaks the marker.
theorem frontier_marker {start g : Graph} (marked : Throughout Node.Marked start)
    (path : Machine.Reached perform (fun g m => m.marks g = true) start g) :
    Throughout Node.Marked g ∧
    (Throughout Node.Tidy start → ∀ limit now, g.uids.length ≤ limit →
      getStalePubkeys none none limit now g = .ok (collectStale g (staleRows limit now g) ∅) ∧
      (staleRows limit now g).Perm (unattempted g ++ overdue now g) ∧
      countStalePubkeys none now g = .ok (staleRows limit now g).length) ∧
    (Throughout Node.Tidy start → Throughout Node.Scheduled start → ∀ u pk, (g.node u).pubkey = some pk →
      ∃ time, ∀ limit now, g.uids.length ≤ limit → time < now → ∃ out, getStalePubkeys none none limit now g = .ok out ∧ pk ∈ out) ∧
    ∀ lease now signer createdAt followee, signer ≠ [] → followee ≠ [] → createdAt ≠ 0 → g.eqPubkey signer = [] →
      ¬Throughout Node.Marked (removeFollower lease now .done signer createdAt followee g).2 := by
  have here := lasting_marked.reached marked path
  refine ⟨here,fun tidy limit now large => ?_,fun tidy scheduled u pk named => ?_,?_⟩
  · have rows : (staleRows limit now g).Perm _ := staleRows_perm here (lasting_tidy.reached tidy path) large
    refine ⟨getStale_rows,rows,?_⟩
    rw [rows.length_eq,List.length_append]
    rfl
  · have tidied := lasting_tidy.reached tidy path
    have there : (g.node u).pubkey.isSome = true := by rw [named]; rfl
    have known := Graph.mem_of_pubkey named
    cases attempt : (g.node u).lastAttempt with
    | none =>
      refine ⟨0,fun limit now large _ => ⟨_,getStale_rows,stale_found here tidied large named (.inl ?_)⟩⟩
      refine List.mem_filter.mpr ⟨known,?_⟩
      rw [there,attempt]
      rfl
    | some last =>
      have planned := lasting_scheduled.reached scheduled path u (by rw [attempt]; rfl)
      obtain ⟨next,planned⟩ := Option.isSome_iff_exists.mp planned
      refine ⟨next,fun limit now large later => ⟨_,getStale_rows,stale_found here tidied large named (.inr ?_)⟩⟩
      refine List.mem_filter.mpr ⟨known,?_⟩
      rw [due,planned]
      exact decide_eq_true later
  · intro lease now signer createdAt followee signer_given followee_given stamp_given unknown marked
    have made : (removeFollower lease now .done signer createdAt followee g).2 = g.alloc lease { Node.empty with
        pubkey := some signer, profile := true, kind3CreatedAt := some createdAt, lastDbUpdate := some now } := by
      unfold removeFollower
      rw [if_neg (by rw [List.isEmpty_iff]; exact signer_given),if_neg (by rw [List.isEmpty_iff]; exact followee_given),
        if_neg stamp_given]
      dsimp only
      rw [if_pos (by rfl),unknown]
      rfl
    have broken := marked (lease.pick g.uids)
    rw [made,Graph.node_alloc,if_pos rfl] at broken
    obtain ⟨_,count,_,written⟩ := broken rfl rfl
    cases written

def dave : Str := List.replicate 64 100

def erin : Str := List.replicate 64 101

-- A follow removed for a signer the graph does not know.
def strayRemoval : Mutator := .removeFollower nextUid 5 .done dave 10 erin

-- The new node is counted as never attempted, and neither stale query ever returns it.
theorem frontier_marker_fails : ∃ g, Machine.Reached perform (fun _ _ => True) .empty g ∧
    ((g.node 1).profile = true ∧ (g.node 1).pubkey = some dave) ∧
    ((g.node 1).lastAttempt = none ∧ (g.node 1).uncrawled = none ∧ (g.node 1).followerCount = none) ∧
    (getStalePubkeys none none 10 1000 g).toOption.map (·.entries.length) = some 0 ∧
    (countStalePubkeys none 1000 g).toOption = some 1 := by
  obtain ⟨g,path,found⟩ := Machine.replay_final perform (fun _ _ => True) .empty [strayRemoval]
    (fun g => decide (((g.node 1).profile = true ∧ (g.node 1).pubkey = some dave) ∧
      ((g.node 1).lastAttempt = none ∧ (g.node 1).uncrawled = none ∧ (g.node 1).followerCount = none) ∧
      (getStalePubkeys none none 10 1000 g).toOption.map (·.entries.length) = some 0 ∧
      (countStalePubkeys none 1000 g).toOption = some 1)) (by decide +kernel) (by decide +kernel)
  exact ⟨g,path,of_decide_eq_true found⟩

def hourly : BackoffParams := ⟨3600000000000,2,86400000000000,3600000000000⟩

def answering : Oracle := ⟨fun _ => none,fun _ => none,fun _ => .done,fun _ => .done,none,.done⟩

-- A signer and its stub; the signer is attempted without an answer and then unfollows.
def crawled : List Mutator :=
  [.addFollowers ⟨dave,10,[erin],by decide⟩ (fun _ _ => none) nextUid 0,.markAttempted answering [dave] 1000 [] hourly,
    .removeFollower nextUid 5 .done dave 20 erin]

theorem frontier_marker_sample : ∃ g, Machine.Reached perform (fun g m => m.marks g = true) .empty g ∧
    (staleRows 5 5000 g).Perm [2,1] ∧ countStalePubkeys none 5000 g = .ok 2 := by
  obtain ⟨g,path,found⟩ := Machine.replay_final perform (fun g m => m.marks g = true) .empty crawled
    (fun g => decide (g.uids.length ≤ 5 ∧ unattempted g = [2] ∧ overdue 5000 g = [1])) (by decide +kernel) (by decide +kernel)
  obtain ⟨room,fresh,late⟩ := of_decide_eq_true found
  obtain ⟨_,selected,_⟩ := frontier_marker (fun _ => lasting_marked.empty) path
  obtain ⟨_,rows,counts⟩ := selected (fun _ => lasting_tidy.empty) 5 5000 room
  rw [fresh,late] at rows
  refine ⟨g,path,rows,?_⟩
  rw [counts,rows.length_eq]
  rfl

end DeepFry.WebOfTrust
