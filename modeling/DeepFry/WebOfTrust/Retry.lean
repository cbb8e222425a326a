import DeepFry.WebOfTrust.Mutators

namespace DeepFry.WebOfTrust

-- One attempt for each entry of the list; none while it still waits for another one.
def retryDgraph {α : Type} (fn : α → Graph → Except StoreError Unit × Graph) : List α → Graph → Option (Except StoreError Unit × Graph)
  | [],_ => none
  | attempt :: rest,g =>
    match fn attempt g with
    | (.ok (),next) => some (.ok (),next)
    | (.error e,next) => if isTransientError e then retryDgraph fn rest next else some (.error e,next)

-- The main loop's call: every attempt reads the clock and asks the store anew.
def retryMark (pubkeys hits : List Str) (params : BackoffParams) :
    List (Int × Oracle) → Graph → Option (Except StoreError Unit × Graph) :=
  retryDgraph fun (ts,o) => markAttempted o pubkeys ts hits params

def garbage (pubkeys : List Str) (n : Node) : Prop := ∃ pk ∈ pubkeys, isValidHexPubkey pk = false ∧ n.pubkey = some pk

def stampable (pubkeys : List Str) (n : Node) : Bool := n.pubkey.any (· ∈ pubkeys.filter isValidHexPubkey)

def hit (hits : List Str) (n : Node) : Bool := n.pubkey.any (· ∈ hits)

-- What recover-or-purge can make of a node: only one whose pubkey is an invalid one of the batch ever changes.
inductive Repairs (pubkeys : List Str) (old : Node) : Node → Prop where
  | same : Repairs pubkeys old old
  | purged : garbage pubkeys old → Repairs pubkeys old .empty
  | recovered (lower : Str) : garbage pubkeys old → isValidHexPubkey lower = true → Repairs pubkeys old { old with pubkey := some lower }

-- What one application makes of a node, up to the clock.
inductive Applied (pubkeys hits : List Str) (params : BackoffParams) (ts : Int) (old : Node) : Node → Prop where
  | aside (new : Node) : Repairs pubkeys old new → stampable pubkeys new = false → Applied pubkeys hits params ts old new
  | hit (new : Node) : Repairs pubkeys old new → stampable pubkeys new = true → hit hits new = true →
      Applied pubkeys hits params ts old { new with
        lastAttempt := some ts, uncrawled := none, missCount := some 0
        nextAttempt := some (ts + seconds params.hitRefreshCadence) }
  | miss (new : Node) : Repairs pubkeys old new → stampable pubkeys new = true → hit hits new = false →
      Applied pubkeys hits params ts old { new with
        lastAttempt := some ts, uncrawled := none, missCount := some (old.missCount.getD 0 + 1)
        nextAttempt := some (ts + seconds (backoffInterval (old.missCount.getD 0) params.base params.ratio params.cap)) }

-- A valid pubkey of the batch that is not a hit has a node.
def misses (pubkeys hits : List Str) (g : Graph) : Bool := g.uids.any fun u => stampable pubkeys (g.node u) && !hit hits (g.node u)

-- No attempt that reports an error had a stamp of a miss committed.
def missesOnce (pubkeys hits : List Str) (params : BackoffParams) : List (Int × Oracle) → Graph → Bool
  | [],_ => true
  | (ts,o) :: rest,g =>
    match markAttempted o pubkeys ts hits params g with
    | (.ok (),_) => true
    | (.error _,next) =>
      !(o.resolveMiss.isNone && o.stamp.committed && misses pubkeys hits (recoverAll o 0 pubkeys g)) &&
        missesOnce pubkeys hits params rest next

section Repairs
variable {pubkeys hits : List Str} {params : BackoffParams} {ts ts' : Int} {old middle new : Node} {g : Graph} {u : Uid} {o : Oracle}

theorem garbage_unstampable (bad : garbage pubkeys old) : stampable pubkeys old = false := by
  obtain ⟨pk,_,invalid,named⟩ := bad
  rw [stampable,named]
  refine decide_eq_false fun member => ?_
  rw [List.of_mem_filter member] at invalid
  cases invalid

theorem valid_clean {pk : Str} (valid : isValidHexPubkey pk = true) (named : old.pubkey = some pk) : ¬garbage pubkeys old := by
  intro ⟨other,_,invalid,same⟩
  rw [named] at same
  cases same
  rw [valid] at invalid
  cases invalid

theorem Repairs.trans (left : Repairs pubkeys old middle) (right : Repairs pubkeys middle new) : Repairs pubkeys old new := by
  cases left with
  | same => exact right
  | purged bad =>
    cases right with
    | same => exact .purged bad
    | purged _ => exact .purged bad
    | recovered _ again _ =>
      obtain ⟨_,_,_,named⟩ := again
      cases named
  | recovered lower bad valid =>
    cases right with
    | same => exact .recovered lower bad valid
    | purged again => exact absurd again (valid_clean valid rfl)
    | recovered _ again _ => exact absurd again (valid_clean valid rfl)

-- A node that has a pubkey afterwards kept its values.
theorem Repairs.missCount (repairs : Repairs pubkeys old new) (named : stampable pubkeys new = true) : new.missCount = old.missCount := by
  cases repairs with
  | same => rfl
  | purged _ => cases named
  | recovered _ _ _ => rfl

theorem repairs_modify {set : Node → Node} (known : u ∈ g.uids) (values : (set (g.node u)).follows = (g.node u).follows)
    (one : Repairs pubkeys (g.node u) (set (g.node u))) (v : Uid) : Repairs pubkeys (g.node v) ((g.modify u set).node v) := by
  by_cases here : v = u
  · rw [here,Graph.node_modify_values known values]
    exact one
  · rw [Graph.node_modify_other here]
    exact .same

theorem purge_named {i : Nat} {pk : Str} (gone : purge o i pk g = some u) : (g.node u).pubkey = some pk := by
  unfold purge at gone
  split at gone
  · exact (resolvePubkey_named gone).2
  · cases gone

theorem repairs_recoverAll (o : Oracle) (i : Nat) {rest : List Str} (inside : ∀ pk ∈ rest, pk ∈ pubkeys) (g : Graph) (u : Uid) :
    Repairs pubkeys (g.node u) ((recoverAll o i rest g).node u) := by
  induction rest generalizing i g with
  | nil => exact .same
  | cons pk rest ih =>
    have later := ih (i+1) (fun other member => inside other (List.mem_cons_of_mem _ member))
    refine Repairs.trans ?_ (later _)
    split
    · exact .same
    · rename_i invalid
      rw [Bool.not_eq_true] at invalid
      have repaired := recoverOrPurge_repaired o i pk g
      generalize recoverOrPurge o i pk g = next at repaired ⊢
      cases repaired with
      | kept => exact .same
      | purged v gone =>
        rw [delete_node]
        split
        · rename_i here
          exact .purged ⟨pk,inside pk List.mem_cons_self,invalid,by rw [here]; exact purge_named gone⟩
        · exact .same
      | recovered v found valid _ =>
        obtain ⟨known,named⟩ := resolvePubkey_named found
        have bad : garbage pubkeys (g.node v) := ⟨pk,inside pk List.mem_cons_self,invalid,named⟩
        exact repairs_modify known rfl (.recovered _ bad valid) u

def once (pubkeys hits : List Str) (params : BackoffParams) (ts : Int) (n : Node) : Node :=
  if stampable pubkeys n then stampNode ts hits params n else n

theorem node_stamped (u : Uid) : (stamped o pubkeys ts hits params g).node u =
    once pubkeys hits params ts ((recoverAll o 0 pubkeys g).node u) := by
  unfold stamped
  dsimp only
  generalize recoverAll o 0 pubkeys g = next
  unfold once
  split
  · rename_i chosen
    have known : u ∈ next.uids := by
      obtain ⟨pk,named,_⟩ := (Option.any_eq_true _ _).mp chosen
      exact Graph.mem_of_pubkey named
    have distinct : (resolveMisses (pubkeys.filter isValidHexPubkey) next).Nodup := next.distinct.filter _
    refine sweep_node ?_ distinct (List.mem_filter.mpr ⟨known,chosen⟩) known
    intro n v member
    rw [stampNode_follows] at member
    exact member
  · rename_i chosen
    apply sweep_other
    intro member
    exact chosen (List.mem_filter.mp member).2

theorem stampNode_hit (answered : hit hits old = true) : stampNode ts hits params old = { old with
    lastAttempt := some ts, uncrawled := none, missCount := some 0, nextAttempt := some (ts + seconds params.hitRefreshCadence) } := by
  unfold stampNode
  exact if_pos answered

theorem stampNode_miss (silent : hit hits old = false) : stampNode ts hits params old = { old with
    lastAttempt := some ts, uncrawled := none, missCount := some (old.missCount.getD 0 + 1)
    nextAttempt := some (ts + seconds (backoffInterval (old.missCount.getD 0) params.base params.ratio params.cap)) } := by
  unfold stampNode
  refine if_neg fun answered => ?_
  rw [hit,answered] at silent
  cases silent

theorem applied_once (repairs : Repairs pubkeys old middle) : Applied pubkeys hits params ts old (once pubkeys hits params ts middle) := by
  unfold once
  split
  · rename_i chosen
    cases answered : hit hits middle with
    | true =>
      rw [stampNode_hit answered]
      exact .hit middle repairs chosen answered
    | false =>
      rw [stampNode_miss answered,repairs.missCount chosen]
      exact .miss middle repairs chosen answered
  · rename_i chosen
    exact .aside middle repairs (Bool.not_eq_true _ ▸ chosen)

theorem applied_unstamped (applied : Applied pubkeys hits params ts old new) (chosen : stampable pubkeys new = true)
    (silent : hit hits new = false) : new.missCount = some (old.missCount.getD 0 + 1) := by
  cases applied with
  | aside _ _ unchosen =>
    rw [unchosen] at chosen
    cases chosen
  | hit mid _ _ answered =>
    change hit hits mid = false at silent
    rw [silent] at answered
    cases answered
  | miss _ _ _ _ => rfl
end Repairs

section Attempts
variable {pubkeys hits : List Str} {params : BackoffParams} {ts : Int} {old now new : Node} {start g final : Graph} {u : Uid}
variable {attempts : List (Int × Oracle)}

theorem once_pubkey : (once pubkeys hits params ts now).pubkey = now.pubkey := by
  unfold once
  split
  · exact stampNode_pubkey
  · rfl

theorem once_stampable : stampable pubkeys (once pubkeys hits params ts now) = stampable pubkeys now := by
  rw [stampable,once_pubkey]
  rfl

theorem once_hit : hit hits (once pubkeys hits params ts now) = hit hits now := by
  rw [hit,once_pubkey]
  rfl

-- A node without an invalid pubkey of the batch is left alone.
theorem Repairs.clean (repairs : Repairs pubkeys old new) (clean : ¬garbage pubkeys old) : new = old := by
  cases repairs with
  | same => rfl
  | purged bad => exact absurd bad clean
  | recovered _ bad _ => exact absurd bad clean

theorem Repairs.stampable (repairs : Repairs pubkeys old new) (chosen : stampable pubkeys old = true) : new = old := by
  apply repairs.clean
  intro bad
  rw [garbage_unstampable bad] at chosen
  cases chosen

-- Between two attempts: repaired, and stamped at most as a hit.
def Pending (pubkeys hits : List Str) (params : BackoffParams) (old now : Node) : Prop :=
  ∃ middle, Repairs pubkeys old middle ∧
    (now = middle ∨ ∃ ts, stampable pubkeys middle = true ∧ hit hits middle = true ∧ now = stampNode ts hits params middle)

theorem stampNode_again {ts' : Int} (answered : hit hits old = true) :
    stampNode ts hits params (stampNode ts' hits params old) = stampNode ts hits params old := by
  have again : hit hits (stampNode ts' hits params old) = true := by
    rw [hit,stampNode_pubkey]
    exact answered
  rw [stampNode_hit again,stampNode_hit answered,stampNode_hit answered]

theorem Pending.repairs (pending : Pending pubkeys hits params old now) (repairs : Repairs pubkeys now new) :
    Pending pubkeys hits params old new := by
  obtain ⟨middle,first,same | ⟨ts,chosen,answered,same⟩⟩ := pending
  · rw [same] at repairs
    exact ⟨new,first.trans repairs,.inl rfl⟩
  · have kept : new = now := by
      apply repairs.stampable
      rw [same,WebOfTrust.stampable,stampNode_pubkey]
      exact chosen
    exact ⟨middle,first,.inr ⟨ts,chosen,answered,kept.trans same⟩⟩

theorem Pending.once (pending : Pending pubkeys hits params old now)
    (answered : stampable pubkeys now = true → hit hits now = true) :
    Pending pubkeys hits params old (once pubkeys hits params ts now) := by
  unfold WebOfTrust.once
  split
  · rename_i chosen
    obtain ⟨middle,first,same | ⟨ts',there,before,same⟩⟩ := pending
    · rw [same] at chosen answered ⊢
      exact ⟨middle,first,.inr ⟨ts,chosen,answered chosen,rfl⟩⟩
    · rw [same,stampNode_again before]
      exact ⟨middle,first,.inr ⟨ts,there,before,rfl⟩⟩
  · exact pending

theorem Pending.applied (pending : Pending pubkeys hits params old now) :
    Applied pubkeys hits params ts old (WebOfTrust.once pubkeys hits params ts now) := by
  obtain ⟨middle,first,same | ⟨ts',chosen,answered,same⟩⟩ := pending
  · rw [same]
    exact applied_once first
  · have again : WebOfTrust.once pubkeys hits params ts now = WebOfTrust.once pubkeys hits params ts middle := by
      have there : stampable pubkeys (stampNode ts' hits params middle) = true := by
        rw [stampable,stampNode_pubkey]
        exact chosen
      rw [same,WebOfTrust.once,WebOfTrust.once,if_pos there,if_pos chosen,stampNode_again answered]
    rw [again]
    exact applied_once first

theorem answered_all (none : misses pubkeys hits g = false) (u : Uid) (chosen : stampable pubkeys (g.node u) = true) :
    hit hits (g.node u) = true := by
  obtain ⟨pk,named,_⟩ := (Option.any_eq_true _ _).mp chosen
  have one := List.any_eq_false.mp none u (Graph.mem_of_pubkey named)
  rw [chosen,Bool.true_and,Bool.not_eq_true',Bool.not_eq_false] at one
  exact one

-- As long as no stamp of a miss is committed by an attempt that fails, the last attempt is the only one that counts.
theorem retry_applied (finished : retryMark pubkeys hits params attempts g = some (.ok (),final))
    (spared : missesOnce pubkeys hits params attempts g = true)
    (pending : ∀ u, Pending pubkeys hits params (start.node u) (g.node u)) :
    ∃ attempt ∈ attempts, ∀ u, Applied pubkeys hits params attempt.1 (start.node u) (final.node u) := by
  induction attempts generalizing g with
  | nil => cases finished
  | cons attempt rest ih =>
    obtain ⟨ts,o⟩ := attempt
    have attempted := markAttempted_attempted o pubkeys ts hits params g
    have repaired : ∀ u, Pending pubkeys hits params (start.node u) ((recoverAll o 0 pubkeys g).node u) :=
      fun u => (pending u).repairs (repairs_recoverAll o 0 (fun _ => id) g u)
    unfold retryMark retryDgraph at finished
    unfold missesOnce at spared
    dsimp only at finished
    generalize markAttempted o pubkeys ts hits params g = outcome at attempted finished spared
    cases attempted with
    | refused e _ =>
      dsimp only at finished spared
      rw [Bool.and_eq_true] at spared
      split at finished
      · obtain ⟨last,member,applied⟩ := ih finished spared.2 repaired
        exact ⟨last,List.mem_cons_of_mem _ member,applied⟩
      · cases finished
    | lost e committed =>
      dsimp only at finished spared
      rw [committed,Bool.true_and,Bool.and_eq_true,Bool.not_eq_true'] at spared
      split at finished
      · obtain ⟨last,member,applied⟩ := ih finished spared.2 fun u => by
          rw [node_stamped]
          exact (repaired u).once (answered_all spared.1 u)
        exact ⟨last,List.mem_cons_of_mem _ member,applied⟩
      · cases finished
    | done =>
      cases finished
      refine ⟨(ts,o),List.mem_cons_self,fun u => ?_⟩
      rw [node_stamped]
      exact (repaired u).applied

def missCount (n : Node) : Int := n.missCount.getD 0

-- A count only ever grows, but for the hits, which start over.
def Counting (pubkeys hits : List Str) (old now : Node) : Prop :=
  now.pubkey.isSome = true → (stampable pubkeys now && hit hits now) = false → missCount old ≤ missCount now

theorem Counting.repairs (counting : Counting pubkeys hits old now) (repairs : Repairs pubkeys now new) :
    Counting pubkeys hits old new := by
  cases repairs with
  | same => exact counting
  | purged _ => exact nofun
  | recovered lower bad _ =>
    intro _ _
    have before := garbage_unstampable bad
    obtain ⟨_,_,_,named⟩ := bad
    exact counting (by rw [named]; rfl) (by rw [before]; rfl)

theorem once_missCount (chosen : stampable pubkeys now = true) (silent : hit hits now = false) :
    missCount (once pubkeys hits params ts now) = missCount now + 1 := by
  rw [missCount,once,if_pos chosen,stampNode_miss silent]
  rfl

theorem Counting.once (counting : Counting pubkeys hits old now) : Counting pubkeys hits old (once pubkeys hits params ts now) := by
  intro named aside
  rw [once_stampable,once_hit] at aside
  rw [once_pubkey] at named
  have before := counting named aside
  cases chosen : stampable pubkeys now with
  | false =>
    rw [WebOfTrust.once,if_neg (by rw [chosen]; exact Bool.false_ne_true)]
    exact before
  | true =>
    rw [chosen,Bool.true_and] at aside
    rw [once_missCount chosen aside]
    omega

-- A miss whose stamp is already in the store.
structure Lagging (pubkeys hits : List Str) (old now : Node) : Prop where
  chosen : stampable pubkeys now = true
  silent : hit hits now = false
  counted : missCount old < missCount now

theorem Lagging.repairs (lagging : Lagging pubkeys hits old now) (repairs : Repairs pubkeys now new) : Lagging pubkeys hits old new := by
  rw [repairs.stampable lagging.chosen]
  exact lagging

theorem Lagging.once (lagging : Lagging pubkeys hits old now) : Lagging pubkeys hits old (once pubkeys hits params ts now) := by
  refine ⟨once_stampable.trans lagging.chosen,once_hit.trans lagging.silent,?_⟩
  rw [once_missCount lagging.chosen lagging.silent]
  exact lagging.counted.trans (Int.lt_succ _)

theorem Lagging.unapplied {ts' : Int} (lagging : Lagging pubkeys hits old now) :
    ¬Applied pubkeys hits params ts old (WebOfTrust.once pubkeys hits params ts' now) := by
  intro applied
  have counted := applied_unstamped applied (once_stampable.trans lagging.chosen) (once_hit.trans lagging.silent)
  have later := @once_missCount pubkeys hits params ts' now lagging.chosen lagging.silent
  rw [missCount,counted,Option.getD_some] at later
  have before := lagging.counted
  change missCount old + 1 = _ at later
  omega

theorem retry_lagging (finished : retryMark pubkeys hits params attempts g = some (.ok (),final))
    (lagging : Lagging pubkeys hits old (g.node u)) (ts : Int) : ¬Applied pubkeys hits params ts old (final.node u) := by
  induction attempts generalizing g with
  | nil => cases finished
  | cons attempt rest ih =>
    obtain ⟨ts',o⟩ := attempt
    have attempted := markAttempted_attempted o pubkeys ts' hits params g
    have repaired := lagging.repairs (repairs_recoverAll o 0 (fun _ => id) g u)
    unfold retryMark retryDgraph at finished
    dsimp only at finished
    generalize markAttempted o pubkeys ts' hits params g = outcome at attempted finished
    cases attempted with
    | refused e _ =>
      dsimp only at finished
      split at finished
      · exact ih finished repaired
      · cases finished
    | lost e _ =>
      dsimp only at finished
      split at finished
      · refine ih finished ?_
        rw [node_stamped]
        exact repaired.once
      · cases finished
    | done =>
      cases finished
      rw [node_stamped]
      exact repaired.unapplied

theorem retry_unapplied (finished : retryMark pubkeys hits params attempts g = some (.ok (),final))
    (twice : missesOnce pubkeys hits params attempts g = false)
    (counting : ∀ u, Counting pubkeys hits (start.node u) (g.node u)) :
    ∃ u, ∀ ts, ¬Applied pubkeys hits params ts (start.node u) (final.node u) := by
  induction attempts generalizing g with
  | nil => cases finished
  | cons attempt rest ih =>
    obtain ⟨ts,o⟩ := attempt
    have attempted := markAttempted_attempted o pubkeys ts hits params g
    have repaired : ∀ u, Counting pubkeys hits (start.node u) ((recoverAll o 0 pubkeys g).node u) :=
      fun u => (counting u).repairs (repairs_recoverAll o 0 (fun _ => id) g u)
    unfold retryMark retryDgraph at finished
    unfold missesOnce at twice
    dsimp only at finished
    generalize markAttempted o pubkeys ts hits params g = outcome at attempted finished twice
    cases attempted with
    | refused e uncommitted =>
      dsimp only at finished twice
      rw [uncommitted,Bool.false_and,Bool.not_false,Bool.true_and] at twice
      split at finished
      · exact ih finished twice repaired
      · cases finished
    | lost e committed =>
      dsimp only at finished twice
      rw [committed,Bool.true_and] at twice
      split at finished
      · cases missed : misses pubkeys hits (recoverAll o 0 pubkeys g) with
        | false =>
          rw [missed,Bool.not_false,Bool.true_and] at twice
          refine ih finished twice fun u => ?_
          rw [node_stamped]
          exact (repaired u).once
        | true =>
          obtain ⟨u,_,one⟩ := List.any_eq_true.mp missed
          rw [Bool.and_eq_true,Bool.not_eq_true'] at one
          obtain ⟨chosen,silent⟩ := one
          refine ⟨u,fun ts' => retry_lagging finished ⟨?_,?_,?_⟩ ts'⟩
          · rw [node_stamped]
            exact once_stampable.trans chosen
          · rw [node_stamped]
            exact once_hit.trans silent
          · rw [node_stamped,once_missCount chosen silent]
            obtain ⟨pk,named,_⟩ := (Option.any_eq_true _ _).mp chosen
            have before := repaired u (by rw [named]; rfl) (by rw [silent,Bool.and_false])
            omega
      · cases finished
    | done => cases twice

-- A node whose pubkey is not in the batch.
theorem retry_unrelated (finished : retryMark pubkeys hits params attempts g = some (.ok (),final))
    (unrelated : ∀ pk ∈ pubkeys, (g.node u).pubkey ≠ some pk) : final.node u = g.node u := by
  induction attempts generalizing g with
  | nil => cases finished
  | cons attempt rest ih =>
    obtain ⟨ts,o⟩ := attempt
    have attempted := markAttempted_attempted o pubkeys ts hits params g
    have clean : ¬garbage pubkeys (g.node u) := fun ⟨pk,member,_,named⟩ => unrelated pk member named
    have repaired := (repairs_recoverAll o 0 (fun _ => id) g u).clean clean
    have chosen : ¬stampable pubkeys (g.node u) = true := by
      intro chosen
      obtain ⟨pk,named,member⟩ := (Option.any_eq_true _ _).mp chosen
      exact unrelated pk (List.mem_of_mem_filter (of_decide_eq_true member)) named
    have stamped : (stamped o pubkeys ts hits params g).node u = g.node u := by
      rw [node_stamped,repaired,once,if_neg chosen]
    unfold retryMark retryDgraph at finished
    dsimp only at finished
    generalize markAttempted o pubkeys ts hits params g = outcome at attempted finished
    cases attempted with
    | refused e _ =>
      dsimp only at finished
      split at finished
      · exact (ih finished (by rw [repaired]; exact unrelated)).trans repaired
      · cases finished
    | lost e _ =>
      dsimp only at finished
      split at finished
      · exact (ih finished (by rw [stamped]; exact unrelated)).trans stamped
      · cases finished
    | done =>
      cases finished
      exact stamped
end Attempts

-- When the retries end, nodes outside the batch are as before, and the batch is as after one application exactly when
-- no attempt that reported an error had a stamp of a miss committed.
theorem mark_retry {pubkeys hits : List Str} {params : BackoffParams} {attempts : List (Int × Oracle)} {start final : Graph}
    (finished : retryMark pubkeys hits params attempts start = some (.ok (),final)) :
    (∀ u, (∀ pk ∈ pubkeys, (start.node u).pubkey ≠ some pk) → final.node u = start.node u) ∧
    ((∃ attempt ∈ attempts, ∀ u, Applied pubkeys hits params attempt.1 (start.node u) (final.node u)) ↔
      missesOnce pubkeys hits params attempts start = true) := by
  refine ⟨fun u unrelated => retry_unrelated finished unrelated,fun ⟨attempt,_,applied⟩ => ?_,fun spared => ?_⟩
  · by_contra twice
    rw [Bool.not_eq_true] at twice
    obtain ⟨u,unapplied⟩ := retry_unapplied finished twice fun u _ _ => le_refl (missCount (start.node u))
    exact unapplied attempt.1 (applied u)
  · exact retry_applied finished spared fun u => ⟨start.node u,.same,.inl rfl⟩

def frank : Str := List.replicate 64 102

def frankOnly : Graph := (addFollowers ⟨frank,10,[],.nil⟩ (fun _ _ => none) nextUid 0 .empty).2

def unavailable : StoreError := ⟨some .Unavailable,Bytes.text "transport is closing"⟩

def stamping (resolveMiss : Option StoreError) (stamp : Outcome) : Oracle :=
  ⟨fun _ => none,fun _ => none,fun _ => .done,fun _ => .done,resolveMiss,stamp⟩

def doubling : BackoffParams := ⟨3600000000000,2,86400000000000,3600000000000⟩

-- The answer to a committed stamp gets lost: the second attempt counts the same miss again.
theorem mark_retry_fails : ∃ final,
    retryMark [frank] [] doubling [(1000,stamping none (.lost unavailable)),(1060,stamping none .done)] frankOnly = some (.ok (),final) ∧
    ((final.node 1).missCount = some 2 ∧ (final.node 1).nextAttempt = some (1060 + 7200)) ∧
    let single := (markAttempted (stamping none .done) [frank] 1060 [] doubling frankOnly).2
    (single.node 1).missCount = some 1 ∧ (single.node 1).nextAttempt = some (1060 + 3600) := by
  have found : (retryMark [frank] [] doubling [(1000,stamping none (.lost unavailable)),(1060,stamping none .done)] frankOnly).any
      (fun reply => reply.1.isOk &&
        decide ((reply.2.node 1).missCount = some 2 ∧ (reply.2.node 1).nextAttempt = some (1060 + 7200))) = true := by
    decide +kernel
  obtain ⟨⟨outcome,final⟩,finished,good⟩ := (Option.any_eq_true _ _).mp found
  rw [Bool.and_eq_true,decide_eq_true_eq] at good
  cases outcome with
  | error e => cases good.1
  | ok _ => exact ⟨final,finished,good.2,by decide +kernel⟩

-- A failed read, a stamp that is not committed, and a stamp that is.
theorem mark_retry_sample : ∃ final,
    retryMark [frank] [] doubling [(1000,stamping (some unavailable) .done),(1030,stamping none (.failed unavailable)),
      (1060,stamping none .done)] frankOnly = some (.ok (),final) ∧
    ∃ attempt : Int × Oracle, Applied [frank] [] doubling attempt.1 (frankOnly.node 1) (final.node 1) := by
  have found : (retryMark [frank] [] doubling [(1000,stamping (some unavailable) .done),(1030,stamping none (.failed unavailable)),
      (1060,stamping none .done)] frankOnly).any (fun reply => reply.1.isOk) = true := by decide +kernel
  obtain ⟨⟨outcome,final⟩,finished,good⟩ := (Option.any_eq_true _ _).mp found
  cases outcome with
  | error e => cases good
  | ok _ =>
    obtain ⟨attempt,_,applied⟩ := (mark_retry finished).2.mpr (by decide +kernel)
    exact ⟨final,finished,attempt,applied 1⟩

end DeepFry.WebOfTrust
