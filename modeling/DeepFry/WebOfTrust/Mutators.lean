import DeepFry.WebOfTrust.AddFollowers

namespace DeepFry.WebOfTrust

-- What a client learns of a write: lost is an error for a transaction that was committed all the same.
inductive Outcome where
  | done
  | failed (e : StoreError)
  | lost (e : StoreError)
deriving DecidableEq

def Outcome.reply : Outcome → Except StoreError Unit
  | .done => .ok ()
  | .failed e | .lost e => .error e

def Outcome.committed : Outcome → Bool
  | .done | .lost _ => true
  | .failed _ => false

-- <uid> * * . takes a node's own predicates and edges; edges that point at it stay.
def Graph.delete (g : Graph) (u : Uid) : Graph := g.modify u fun _ => .empty

def refused (message : String) : StoreError := ⟨none,Bytes.text message⟩

-- An upsert: a variable without a uid stands for one new node.
def removeFollower (lease : Lease) (now : Int) (outcome : Outcome) (signer : Str) (createdAt : Int) (followee : Str) (g : Graph) :
    Except StoreError Unit × Graph :=
  if signer.isEmpty then (.error (refused "signerPubkey must be specified (non-empty)"),g)
  else if followee.isEmpty then (.error (refused "followee must be specified (non-empty)"),g)
  else if createdAt = 0 then (.error (refused "kind3createdAt must be specified (non-zero)"),g)
  else
    let f := g.eqPubkey signer
    let e := g.eqPubkey followee
    let stamp (n : Node) : Node :=
      { n with pubkey := some signer, profile := true, kind3CreatedAt := some createdAt, lastDbUpdate := some now }
    let next :=
      if f.isEmpty then g.alloc lease (stamp .empty)
      else f.foldl (fun g u => g.modify u fun n => { stamp n with follows := n.follows.filter (· ∉ e) }) g
    (outcome.reply,if outcome.committed then next else g)

def deleteNodes (outcome : Outcome) (uids : List Uid) (g : Graph) : Except StoreError Unit × Graph :=
  if uids.isEmpty then (.ok (),g)
  else (outcome.reply,if outcome.committed then uids.foldl Graph.delete g else g)

-- The followers of the reply are objects, which do not decode into a list of strings: any follower is an error.
def removePubKeyIfNoFollowers (read : Option StoreError) (outcome : Outcome) (pubkey : Str) (g : Graph) :
    Except StoreError Bool × Graph :=
  match read with
  | some e => (.error e,g)
  | none =>
    match g.eqPubkey pubkey with
    | [] => (.ok false,g)
    | u :: rest =>
      if (u :: rest).any fun v => g.indegree v ≠ 0 then (.error (refused "json: cannot unmarshal object into Go value of type string"),g)
      else (outcome.reply.map fun _ => true,if outcome.committed then g.delete u else g)

def touchLastDBUpdate (read : Option StoreError) (now : Int) (outcome : Outcome) (pubkey : Str) (g : Graph) :
    Except StoreError Bool × Graph :=
  if pubkey.isEmpty then (.error (refused "pubkey must be specified (non-empty)"),g)
  else
    match read with
    | some e => (.error e,g)
    | none =>
      match (g.eqPubkey pubkey).head? with
      | none => (.ok false,g)
      | some u =>
        if (g.node u).kind3CreatedAt.getD 0 = 0 then (.ok false,g)
        else (outcome.reply.map fun _ => true,
          if outcome.committed then g.modify u fun n => { n with lastDbUpdate := some now } else g)

-- Durations in nanoseconds.
structure BackoffParams where
  base : Int
  ratio : Int
  cap : Int
  hitRefreshCadence : Int

def backoffLoop (ratio cap : Int) : Nat → Int → Int
  | 0,result => min result cap
  | n+1,result => if result > (cap - 1).tdiv ratio then cap else backoffLoop ratio cap n (result * ratio)

def backoffInterval (missCount base ratio cap : Int) : Int :=
  if missCount ≤ 0 then min base cap
  else if ratio ≤ 1 then min base cap
  else backoffLoop ratio cap missCount.toNat base

def seconds (duration : Int) : Int := duration.tdiv 1000000000

-- The store's answers to one MarkAttempted, by position in the batch where it loops.
structure Oracle where
  resolveGarbage : Nat → Option StoreError
  resolveLower : Nat → Option StoreError
  delete : Nat → Outcome
  recover : Nat → Outcome
  resolveMiss : Option StoreError
  stamp : Outcome

-- A map by pubkey: of two nodes the later one stays.
def resolvePubkey (g : Graph) (pubkey : Str) : Option Uid := (g.eqPubkey pubkey).getLast?

-- One invalid pubkey: recover it to lowercase or purge its node; failures are only logged.
def recoverOrPurge (o : Oracle) (i : Nat) (pk : Str) (g : Graph) : Graph :=
  match o.resolveGarbage i,resolvePubkey g pk with
  | some _,_ => g
  | none,none => g
  | none,some garbage =>
    let lower := toLower pk
    if isValidHexPubkey lower then
      match o.resolveLower i,resolvePubkey g lower with
      | some _,_ => g
      | none,some _ => (deleteNodes (o.delete i) [garbage] g).2
      | none,none => if (o.recover i).committed then g.modify garbage fun n => { n with pubkey := some lower } else g
    else (deleteNodes (o.delete i) [garbage] g).2

def recoverAll (o : Oracle) : Nat → List Str → Graph → Graph
  | _,[],g => g
  | i,pk :: rest,g => recoverAll o (i+1) rest (if isValidHexPubkey pk then g else recoverOrPurge o i pk g)

-- resolveUIDsWithMissCount
def resolveMisses (valid : List Str) (g : Graph) : List Uid :=
  g.uids.filter fun u => (g.node u).pubkey.any (· ∈ valid)

def stampNode (ts : Int) (hits : List Str) (params : BackoffParams) (n : Node) : Node :=
  let miss := n.missCount.getD 0
  let stamped := { n with lastAttempt := some ts, uncrawled := none }
  if n.pubkey.any (· ∈ hits) then
    { stamped with nextAttempt := some (ts + seconds params.hitRefreshCadence), missCount := some 0 }
  else
    { stamped with
      nextAttempt := some (ts + seconds (backoffInterval miss params.base params.ratio params.cap))
      missCount := some (miss + 1) }

def stampAll (ts : Int) (hits : List Str) (params : BackoffParams) (uids : List Uid) (g : Graph) : Graph :=
  uids.foldl (fun g u => g.modify u (stampNode ts hits params)) g

def wrap (label : String) (e : StoreError) : StoreError := ⟨e.code,Bytes.text label ++ e.message⟩

def markAttempted (o : Oracle) (pubkeys : List Str) (ts : Int) (hits : List Str) (params : BackoffParams) (g : Graph) :
    Except StoreError Unit × Graph :=
  let valid := pubkeys.filter isValidHexPubkey
  let g := recoverAll o 0 pubkeys g
  if valid.isEmpty then (.ok (),g)
  else
    match o.resolveMiss with
    | some e => (.error (wrap "resolve pubkeys for mark-attempted failed: " e),g)
    | none =>
      let uids := resolveMisses valid g
      if uids.isEmpty then (.ok (),g)
      else
        match o.stamp with
        | .done => (.ok (),stampAll ts hits params uids g)
        | .failed e => (.error (wrap "mark attempted failed: " e),g)
        | .lost e => (.error (wrap "mark attempted failed: " e),stampAll ts hits params uids g)

-- One page of BackfillNextAttempt: attempted nodes that have no next_attempt yet.
def unscheduled (g : Graph) : List Uid := g.uids.filter fun u => (g.node u).lastAttempt.isSome && (g.node u).nextAttempt.isNone

def schedule (hitRefreshCadence : Int) (page : List Uid) (g : Graph) : Graph :=
  page.foldl (fun g u => g.modify u fun n =>
    { n with nextAttempt := some (n.lastAttempt.getD 0 + hitRefreshCadence), missCount := some 0 }) g

-- Each page takes its nodes out of the next query, so one page per node is always enough.
def backfillNextAttempt (hitRefreshCadence : Int) (read : Nat → Option StoreError) (outcome : Nat → Outcome) :
    Nat → Nat → Nat → Graph → Except (Nat × StoreError) Nat × Graph
  | 0,_,total,g => (.ok total,g)
  | fuel+1,i,total,g =>
    match read i with
    | some e => (.error (total,wrap "backfill query failed: " e),g)
    | none =>
      let page := (unscheduled g).take batchSize
      if page.isEmpty then (.ok total,g)
      else
        match outcome i with
        | .done => backfillNextAttempt hitRefreshCadence read outcome fuel (i+1) (total + page.length) (schedule hitRefreshCadence page g)
        | .failed e => (.error (total,wrap "backfill mutation failed: " e),g)
        | .lost e => (.error (total,wrap "backfill mutation failed: " e),schedule hitRefreshCadence page g)

-- has(pubkey), first: .., after: ..
def pageAfter (g : Graph) (pageSize : Nat) (cursor : Uid) : List Uid :=
  (g.uids.filter fun u => (g.node u).pubkey.isSome && decide (cursor < u)).take pageSize

-- One upsert: count(~follows) of the page, written as follower_count.
def recount (page : List Uid) (g : Graph) : Graph := (page.map fun u => (u,(g.indegree u : Int))).foldl setCount g

def backfillFollowerCountPaged (pageSize : Nat) (outcome : Nat → Outcome) :
    Nat → Nat → Nat → Uid → Graph → Except (Nat × StoreError) Nat × Graph
  | 0,_,total,_,g => (.ok total,g)
  | fuel+1,i,total,cursor,g =>
    let page := pageAfter g pageSize cursor
    match outcome i with
    | .failed e => (.error (total,wrap "backfill follower_count upsert failed: " e),g)
    | .lost e => (.error (total,wrap "backfill follower_count upsert failed: " e),recount page g)
    | .done =>
      if page.length < pageSize then (.ok (total + page.length),recount page g)
      else backfillFollowerCountPaged pageSize outcome fuel (i+1) (total + page.length) (page.getLastD cursor) (recount page g)

def backfillFollowerCount (outcome : Nat → Outcome) (g : Graph) : Except (Nat × StoreError) Nat × Graph :=
  backfillFollowerCountPaged 100000 outcome (g.uids.length + 1) 0 0 0 g

-- One call of a mutator, with the store's answers to it.
inductive Mutator where
  | addFollowers (e : Kind3) (fault : Faults) (lease : Lease) (now : Int)
  | removeFollower (lease : Lease) (now : Int) (outcome : Outcome) (signer : Str) (createdAt : Int) (followee : Str)
  | removePubKeyIfNoFollowers (read : Option StoreError) (outcome : Outcome) (pubkey : Str)
  | deleteNodes (outcome : Outcome) (uids : List Uid)
  | touchLastDBUpdate (read : Option StoreError) (now : Int) (outcome : Outcome) (pubkey : Str)
  | markAttempted (o : Oracle) (pubkeys : List Str) (ts : Int) (hits : List Str) (params : BackoffParams)
  | backfillNextAttempt (hitRefreshCadence : Int) (read : Nat → Option StoreError) (outcome : Nat → Outcome)
  | backfillFollowerCount (outcome : Nat → Outcome)

def Mutator.effect (g : Graph) : Mutator → Graph
  | .addFollowers e fault lease now => (WebOfTrust.addFollowers e fault lease now g).2
  | .removeFollower lease now outcome signer createdAt followee =>
    (WebOfTrust.removeFollower lease now outcome signer createdAt followee g).2
  | .removePubKeyIfNoFollowers read outcome pubkey => (WebOfTrust.removePubKeyIfNoFollowers read outcome pubkey g).2
  | .deleteNodes outcome uids => (WebOfTrust.deleteNodes outcome uids g).2
  | .touchLastDBUpdate read now outcome pubkey => (WebOfTrust.touchLastDBUpdate read now outcome pubkey g).2
  | .markAttempted o pubkeys ts hits params => (WebOfTrust.markAttempted o pubkeys ts hits params g).2
  | .backfillNextAttempt hitRefreshCadence read outcome =>
    (WebOfTrust.backfillNextAttempt hitRefreshCadence read outcome (g.uids.length + 1) 0 0 g).2
  | .backfillFollowerCount outcome => (WebOfTrust.backfillFollowerCount outcome g).2

def perform (g : Graph) (m : Mutator) : Option Graph := some (m.effect g)

section Sweep
variable {g : Graph} {set : Node → Node} {uids : List Uid} {u v : Uid}

-- One mutation of several nodes.
def sweep (set : Node → Node) (uids : List Uid) (g : Graph) : Graph := uids.foldl (fun g u => g.modify u set) g

@[simp] theorem sweep_uids : (sweep set uids g).uids = g.uids := by
  induction uids generalizing g with
  | nil => rfl
  | cons first rest ih => exact ih.trans Graph.modify_uids

theorem sweep_cons : sweep set (u :: uids) g = sweep set uids (g.modify u set) := rfl

theorem sweep_other (absent : u ∉ uids) : (sweep set uids g).node u = g.node u := by
  induction uids generalizing g with
  | nil => rfl
  | cons first rest ih =>
    rw [sweep_cons,ih (List.not_mem_of_not_mem_cons absent),Graph.node_modify_other (List.ne_of_not_mem_cons absent)]

-- A write that brings in no edge changes each of its nodes once.
theorem sweep_node (shrinks : ∀ n : Node, ∀ v ∈ (set n).follows, v ∈ n.follows) (distinct : uids.Nodup) (member : u ∈ uids)
    (known : u ∈ g.uids) : (sweep set uids g).node u = set (g.node u) := by
  induction uids generalizing g with
  | nil => cases member
  | cons first rest ih =>
    obtain ⟨absent,others⟩ := List.nodup_cons.mp distinct
    rw [sweep_cons]
    rcases List.mem_cons.mp member with rfl | later
    · rw [sweep_other absent,Graph.node_modify_self known]
      intro v inside
      exact g.closed u v (shrinks (g.node u) v inside)
    · have other : u ≠ first := fun same => absent (by rw [← same]; exact later)
      rw [ih (g := g.modify first set) others later known,Graph.node_modify_other other]

theorem delete_node : (g.delete u).node v = if v = u then .empty else g.node v := by
  unfold Graph.delete
  rw [Graph.node_modify]
  by_cases here : v = u
  · by_cases known : u ∈ g.uids
    · rw [if_pos ⟨here,known⟩,if_pos here]
      rfl
    · rw [if_neg fun both => known both.2,if_pos here,here,g.beyond u known]
  · rw [if_neg fun both => here both.1,if_neg here]

theorem deleteAll_node : (uids.foldl Graph.delete g).node u = if u ∈ uids then .empty else g.node u := by
  induction uids generalizing g with
  | nil => rfl
  | cons first rest ih =>
    rw [List.foldl_cons,ih,delete_node]
    by_cases here : u = first
    · rw [if_pos here,if_pos (List.mem_cons.mpr (.inl here)),ite_self]
    · rw [if_neg here]
      by_cases later : u ∈ rest
      · rw [if_pos later,if_pos (List.mem_cons_of_mem _ later)]
      · rw [if_neg later,if_neg (List.not_mem_cons_of_ne_of_not_mem here later)]

end Sweep

-- The node one recover-or-purge deletes, if it deletes one.
def purge (o : Oracle) (i : Nat) (pk : Str) (g : Graph) : Option Uid :=
  if (o.delete i).committed = true ∧ o.resolveGarbage i = none ∧
      (isValidHexPubkey (toLower pk) = true → o.resolveLower i = none ∧ (resolvePubkey g (toLower pk)).isSome = true) then
    resolvePubkey g pk
  else none

section Attempt
variable {g : Graph} {u : Uid} {pk : Str}

theorem resolvePubkey_named (found : resolvePubkey g pk = some u) : u ∈ g.uids ∧ (g.node u).pubkey = some pk :=
  Graph.mem_eqPubkey.mp (List.mem_of_getLast? found)

theorem resolvePubkey_absent (none : resolvePubkey g pk = none) : ∀ u ∈ g.uids, (g.node u).pubkey ≠ some pk := by
  intro u known named
  have member := Graph.mem_eqPubkey.mpr ⟨known,named⟩
  rw [List.getLast?_eq_none_iff.mp none] at member
  cases member

-- Everything one recover-or-purge can do.
inductive Repaired (o : Oracle) (i : Nat) (pk : Str) (g : Graph) : Graph → Prop where
  | kept : Repaired o i pk g g
  | purged (u : Uid) : purge o i pk g = some u → Repaired o i pk g (g.delete u)
  | recovered (u : Uid) : resolvePubkey g pk = some u → isValidHexPubkey (toLower pk) = true → resolvePubkey g (toLower pk) = none →
      Repaired o i pk g (g.modify u fun n => { n with pubkey := some (toLower pk) })

theorem deleteNodes_one (outcome : Outcome) (u : Uid) (g : Graph) :
    (deleteNodes outcome [u] g).2 = if outcome.committed then g.delete u else g := rfl

theorem recoverOrPurge_repaired (o : Oracle) (i : Nat) (pk : Str) (g : Graph) : Repaired o i pk g (recoverOrPurge o i pk g) := by
  unfold recoverOrPurge
  cases answered : o.resolveGarbage i with
  | some e => exact .kept
  | none =>
    cases found : resolvePubkey g pk with
    | none => exact .kept
    | some u =>
      dsimp only
      split
      · rename_i recoverable
        cases lower : o.resolveLower i with
        | some e => exact .kept
        | none =>
          cases there : resolvePubkey g (toLower pk) with
          | some v =>
            dsimp only
            rw [deleteNodes_one]
            split
            · rename_i committed
              refine .purged u ?_
              rw [purge,if_pos ⟨committed,answered,fun _ => ⟨lower,by rw [there]; rfl⟩⟩]
              exact found
            · exact .kept
          | none =>
            dsimp only
            split
            · exact .recovered u found recoverable there
            · exact .kept
      · rename_i unrecoverable
        rw [deleteNodes_one]
        split
        · rename_i committed
          refine .purged u ?_
          rw [purge,if_pos ⟨committed,answered,fun recoverable => absurd recoverable unrecoverable⟩]
          exact found
        · exact .kept

theorem stampAll_nil (ts : Int) (hits : List Str) (params : BackoffParams) (g : Graph) : stampAll ts hits params [] g = g := rfl

theorem resolveMisses_nil (g : Graph) : resolveMisses [] g = [] := by
  apply List.filter_eq_nil_iff.mpr
  intro u _ named
  obtain ⟨pk,_,member⟩ := (Option.any_eq_true _ _).mp named
  exact absurd (of_decide_eq_true member) List.not_mem_nil

-- The graph a call leaves once its stamp is committed.
def stamped (o : Oracle) (pubkeys : List Str) (ts : Int) (hits : List Str) (params : BackoffParams) (g : Graph) : Graph :=
  let recovered := recoverAll o 0 pubkeys g
  stampAll ts hits params (resolveMisses (pubkeys.filter isValidHexPubkey) recovered) recovered

-- Everything one call can do.
inductive Attempted (o : Oracle) (pubkeys : List Str) (ts : Int) (hits : List Str) (params : BackoffParams) (g : Graph) :
    Except StoreError Unit × Graph → Prop where
  | refused (e : StoreError) : (o.resolveMiss.isNone && o.stamp.committed) = false →
      Attempted o pubkeys ts hits params g (.error e,recoverAll o 0 pubkeys g)
  | lost (e : StoreError) : (o.resolveMiss.isNone && o.stamp.committed) = true →
      Attempted o pubkeys ts hits params g (.error e,stamped o pubkeys ts hits params g)
  | done : Attempted o pubkeys ts hits params g (.ok (),stamped o pubkeys ts hits params g)

theorem markAttempted_attempted (o : Oracle) (pubkeys : List Str) (ts : Int) (hits : List Str) (params : BackoffParams) (g : Graph) :
    Attempted o pubkeys ts hits params g (markAttempted o pubkeys ts hits params g) := by
  have finished : Attempted o pubkeys ts hits params g (.ok (),stamped o pubkeys ts hits params g) := .done
  unfold markAttempted
  dsimp only
  split
  · rename_i empty
    rw [stamped,List.isEmpty_iff.mp empty,resolveMisses_nil,stampAll_nil] at finished
    exact finished
  · cases resolves : o.resolveMiss with
    | some e => exact .refused _ (by rw [resolves]; rfl)
    | none =>
      dsimp only
      split
      · rename_i empty
        rw [stamped,List.isEmpty_iff.mp empty,stampAll_nil] at finished
        exact finished
      · cases answered : o.stamp with
        | done => exact finished
        | failed e => exact .refused _ (by rw [resolves,answered]; rfl)
        | lost e => exact .lost _ (by rw [resolves,answered]; rfl)

section Stamp
variable {n : Node} {ts : Int} {hits : List Str} {params : BackoffParams}

theorem stampNode_pubkey : (stampNode ts hits params n).pubkey = n.pubkey := by
  unfold stampNode
  dsimp only
  split
  · rfl
  · rfl

theorem stampNode_profile : (stampNode ts hits params n).profile = n.profile := by
  unfold stampNode
  dsimp only
  split
  · rfl
  · rfl

theorem stampNode_followerCount : (stampNode ts hits params n).followerCount = n.followerCount := by
  unfold stampNode
  dsimp only
  split
  · rfl
  · rfl

theorem stampNode_follows : (stampNode ts hits params n).follows = n.follows := by
  unfold stampNode
  dsimp only
  split
  · rfl
  · rfl

theorem stampNode_attempted : (stampNode ts hits params n).lastAttempt = some ts ∧ (stampNode ts hits params n).uncrawled = none ∧
    (stampNode ts hits params n).nextAttempt.isSome = true := by
  unfold stampNode
  dsimp only
  split
  · exact ⟨rfl,rfl,rfl⟩
  · exact ⟨rfl,rfl,rfl⟩
end Stamp
end Attempt

end DeepFry.WebOfTrust
