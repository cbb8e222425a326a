import DeepFry.Lib.Machine
import DeepFry.WebOfTrust.FollowGraph
import DeepFry.WebOfTrust.Mutators

namespace DeepFry.WebOfTrust

inductive Progress where
  | running (cursor : Uid)
  | completed
  | failed (e : StoreError)
deriving DecidableEq

structure Backfill where
  graph : Graph
  progress : Progress

-- The next page's upsert, or a committed call of the crawler.
inductive BackfillAction where
  | page (outcome : Outcome)
  | write (c : Call)

def backfillStep (pageSize : Nat) (s : Backfill) : BackfillAction → Option Backfill
  | .write c => some { s with graph := apply s.graph c }
  | .page outcome =>
    match s.progress with
    | .running cursor =>
      let page := pageAfter s.graph pageSize cursor
      match outcome with
      | .failed e => some { s with progress := .failed e }
      | .lost e => some ⟨recount page s.graph,.failed e⟩
      | .done => some ⟨recount page s.graph,if page.length < pageSize then .completed else .running (page.getLastD cursor)⟩
    | _ => none

-- The node's count is the number of edges that end at it, if it has a pubkey.
def Right (g : Graph) (u : Uid) : Prop := ∀ pk, (g.node u).pubkey = some pk → (g.node u).followerCount = some (g.indegree u : Int)

section Page
variable {g : Graph} {pageSize : Nat} {cursor u : Uid} {page : List Uid}

theorem recount_uids (page : List Uid) (g : Graph) : (recount page g).uids = g.uids := setCounts_uids _ g

theorem recount_uncounted (page : List Uid) (g : Graph) (u : Uid) : ((recount page g).node u).uncounted = (g.node u).uncounted :=
  setCounts_uncounted _ g u

theorem recount_pubkey (page : List Uid) (g : Graph) (u : Uid) : ((recount page g).node u).pubkey = (g.node u).pubkey := by
  have same := congrArg Node.pubkey (recount_uncounted page g u)
  exact same

theorem recount_indegree (page : List Uid) (g : Graph) (u : Uid) : (recount page g).indegree u = g.indegree u := by
  apply Graph.indegree_congr (recount_uids page g)
  intro v _
  have same := congrArg Node.follows (recount_uncounted page g v)
  exact same

theorem recount_other (absent : u ∉ page) : (recount page g).node u = g.node u := by
  apply setCounts_other
  intro listed
  obtain ⟨⟨v,count⟩,member,same⟩ := List.mem_map.mp listed
  obtain ⟨w,there,written⟩ := List.mem_map.mp member
  cases written
  exact absent (by rw [← same]; exact there)

theorem recount_self (distinct : page.Nodup) (member : u ∈ page) (known : u ∈ g.uids) :
    (recount page g).node u = { g.node u with followerCount := some (g.indegree u : Int) } := by
  refine setCounts_self ?_ (List.mem_map.mpr ⟨u,member,rfl⟩) known
  have firsts : (page.map fun u => (u,(g.indegree u : Int))).map (·.1) = page := by
    rw [List.map_map]
    exact List.map_id page
  rw [firsts]
  exact distinct

def named (g : Graph) (cursor : Uid) : List Uid := g.uids.filter fun u => (g.node u).pubkey.isSome && decide (cursor < u)

theorem pageAfter_named : pageAfter g pageSize cursor = (named g cursor).take pageSize := rfl

theorem mem_named : u ∈ named g cursor ↔ (g.node u).pubkey.isSome = true ∧ cursor < u := by
  rw [named,List.mem_filter,Bool.and_eq_true,decide_eq_true_eq]
  refine ⟨And.right,fun both => ⟨?_,both⟩⟩
  obtain ⟨pk,there⟩ := Option.isSome_iff_exists.mp both.1
  exact Graph.mem_of_pubkey there

theorem named_ordered (g : Graph) (cursor : Uid) : (named g cursor).Pairwise (· < ·) := g.ordered.filter _

-- What a page leaves out lies behind its last uid.
theorem page_covers {uids : List Uid} (ordered : uids.Pairwise (· < ·)) (member : u ∈ uids) (beyond : cursor < u)
    (reached : u ≤ (uids.take pageSize).getLastD cursor) : u ∈ uids.take pageSize := by
  by_contra left
  have later : u ∈ uids.drop pageSize := by
    rw [← List.take_append_drop pageSize uids] at member
    exact (List.mem_append.mp member).resolve_left left
  rw [← List.take_append_drop pageSize uids,List.pairwise_append] at ordered
  rcases List.eq_nil_or_concat (uids.take pageSize) with empty | ⟨init,last,split⟩
  · rw [empty] at reached
    exact absurd beyond (not_lt.mpr reached)
  · rw [split,List.concat_eq_append,List.getLastD_concat] at reached
    have below := ordered.2.2 last (by rw [split]; simp) u later
    exact absurd below (not_lt.mpr reached)

theorem right_beyond (unknown : u ∉ g.uids) : Right g u := by
  intro pk named
  exact absurd (Graph.mem_of_pubkey named) unknown

theorem right_recount (distinct : page.Nodup) (either : u ∈ page ∨ Right g u) : Right (recount page g) u := by
  intro pk there
  rw [recount_pubkey] at there
  rw [recount_indegree]
  by_cases member : u ∈ page
  · rw [recount_self distinct member (Graph.mem_of_pubkey there)]
  · rw [recount_other member]
    exact either.resolve_left member pk there

theorem unique_recount (unique : Unique g) : Unique (recount page g) := by
  intro u v pk left right
  rw [recount_pubkey] at left right
  exact unique u v pk left right

theorem pageAfter_nodup : (pageAfter g pageSize cursor).Nodup :=
  ((g.distinct.filter _).sublist (List.take_sublist _ _))

theorem pageAfter_last_lt (positive : 1 ≤ pageSize) (full : ¬(pageAfter g pageSize cursor).length < pageSize) :
    (pageAfter g pageSize cursor).getLastD cursor ∈ named g cursor := by
  rcases List.eq_nil_or_concat (pageAfter g pageSize cursor) with empty | ⟨init,last,split⟩
  · rw [empty] at full
    exact absurd positive full
  · have member : last ∈ (named g cursor).take pageSize := by
      rw [← pageAfter_named,split]
      simp
    rw [split,List.concat_eq_append,List.getLastD_concat]
    exact List.mem_of_mem_take member

-- A recount where every count is right changes nothing.
theorem recount_idle (distinct : page.Nodup) (right : ∀ u ∈ page, (g.node u).pubkey.isSome = true ∧ Right g u) : recount page g = g := by
  have nodes : (recount page g).node = g.node := by
    funext u
    by_cases member : u ∈ page
    · obtain ⟨there,count⟩ := right u member
      obtain ⟨pk,there⟩ := Option.isSome_iff_exists.mp there
      rw [recount_self distinct member (Graph.mem_of_pubkey there),← count pk there]
    · exact recount_other member
  have same := recount_uids page g
  generalize recount page g = next at nodes same
  cases next
  cases g
  cases nodes
  cases same
  rfl

theorem recount_page_idle (right : ∀ u, Right g u) : recount (pageAfter g pageSize cursor) g = g := by
  apply recount_idle pageAfter_nodup
  intro u member
  exact ⟨(mem_named.mp (List.mem_of_mem_take member)).1,right u⟩

-- Full pages leave ever fewer nodes behind the cursor.
theorem named_shrinks {last : Uid} (member : last ∈ named g cursor) : (named g last).length < (named g cursor).length := by
  have beyond := (mem_named.mp member).2
  have inner : named g last = (named g cursor).filter fun u => decide (last < u) := by
    unfold named
    rw [List.filter_filter]
    apply List.filter_congr
    intro u _
    by_cases later : last < u
    · rw [decide_eq_true later,decide_eq_true (beyond.trans later),Bool.true_and]
    · rw [decide_eq_false later,Bool.and_false,Bool.false_and]
  rw [inner,List.length_filter_lt_length_iff_exists]
  exact ⟨last,member,by rw [decide_eq_true_eq]; exact lt_irrefl last⟩

theorem named_recount : named (recount page g) cursor = named g cursor := by
  unfold named
  rw [recount_uids]
  apply List.filter_congr
  intro u _
  rw [recount_pubkey]
end Page

section Write
variable {g : Graph} {u : Uid} {c : Call}

-- A committed write keeps every count that is right.
theorem right_apply (unique : Unique g) (right : Right g u) (c : Call) : Right (apply g c) u := by
  rcases apply_replaced unique c with ⟨_,base,s,prepared,replaced⟩ | ⟨_,same,_⟩
  · intro pk there
    have known := Graph.mem_of_pubkey prepared.named
    refine replaced.counted known (fun old => ?_) (Graph.mem_of_pubkey there)
    rw [(replaced.grown.kept u old).pubkey] at there
    cases prepared with
    | old _ _ => exact right pk there
    | new unknown =>
      rw [indegree_alloc]
      rw [Graph.node_alloc] at there ⊢
      split at there
      · rename_i here
        rw [if_pos here,here,Graph.indegree_beyond (c.lease.fresh g.uids)]
        rfl
      · rename_i other
        rw [if_neg other]
        exact right pk there
  · rw [same]
    exact right

theorem unique_apply (unique : Unique g) (c : Call) : Unique (apply g c) := by
  rcases apply_replaced unique c with ⟨_,base,s,prepared,replaced⟩ | ⟨_,same,_⟩
  · exact replaced.unique
  · rw [same]
    exact unique
end Write

-- Behind the cursor the counts are right, whatever the crawler writes meanwhile.
structure Swept (s : Backfill) : Prop where
  unique : Unique s.graph
  behind : ∀ cursor, s.progress = .running cursor → ∀ u ≤ cursor, Right s.graph u
  whole : s.progress = .completed → ∀ u, Right s.graph u

section Steps
variable {pageSize : Nat} {s next : Backfill} {action : BackfillAction} {start : Graph}

theorem swept_start (unique : Unique start) : Swept ⟨start,.running 0⟩ where
  unique := unique
  behind cursor same u reached := by
    cases same
    apply right_beyond
    intro known
    exact absurd (start.positive u known) (not_lt.mpr reached)
  whole := nofun

theorem swept_page {cursor : Uid} (swept : Swept s) (running : s.progress = .running cursor) :
    let page := pageAfter s.graph pageSize cursor
    Swept ⟨recount page s.graph,if page.length < pageSize then .completed else .running (page.getLastD cursor)⟩ := by
  have behind := swept.behind cursor running
  refine ⟨unique_recount swept.unique,fun later same u reached => ?_,fun same u => ?_⟩
  · change (if _ then _ else _) = _ at same
    split at same
    · cases same
    · cases same
      apply right_recount pageAfter_nodup
      by_cases before : u ≤ cursor
      · exact .inr (behind u before)
      · by_cases there : (s.graph.node u).pubkey.isSome = true
        · exact .inl (page_covers (named_ordered _ _) (mem_named.mpr ⟨there,not_le.mp before⟩) (not_le.mp before) reached)
        · refine .inr fun pk named => ?_
          rw [named] at there
          exact absurd rfl there
  · change (if _ then _ else _) = _ at same
    split at same
    · rename_i short
      apply right_recount pageAfter_nodup
      by_cases before : u ≤ cursor
      · exact .inr (behind u before)
      · by_cases there : (s.graph.node u).pubkey.isSome = true
        · refine .inl ?_
          rw [pageAfter_named] at short ⊢
          rw [List.take_of_length_le]
          · exact mem_named.mpr ⟨there,not_le.mp before⟩
          · rw [List.length_take] at short
            omega
        · refine .inr fun pk named => ?_
          rw [named] at there
          exact absurd rfl there
    · cases same

theorem swept_step (swept : Swept s) (moved : backfillStep pageSize s action = some next) : Swept next := by
  cases action with
  | write c =>
    cases moved
    exact ⟨unique_apply swept.unique c,fun cursor running u reached => right_apply swept.unique (swept.behind cursor running u reached) c,
      fun completed u => right_apply swept.unique (swept.whole completed u) c⟩
  | page outcome =>
    unfold backfillStep at moved
    cases running : s.progress with
    | completed =>
      rw [running] at moved
      cases moved
    | failed e =>
      rw [running] at moved
      cases moved
    | running cursor =>
      rw [running] at moved
      cases outcome with
      | done =>
        cases moved
        exact swept_page swept running
      | failed e =>
        cases moved
        exact ⟨swept.unique,nofun,nofun⟩
      | lost e =>
        cases moved
        exact ⟨unique_recount swept.unique,nofun,nofun⟩
end Steps

-- The loop as the code runs it, with enough fuel and nobody else writing, is a run of pages that completes.
theorem paged_completes {pageSize : Nat} (positive : 1 ≤ pageSize) (fuel i total : Nat) (cursor : Uid) (g : Graph)
    (enough : (named g cursor).length < fuel) : ∃ count final,
      backfillFollowerCountPaged pageSize (fun _ => .done) fuel i total cursor g = (.ok count,final) ∧
      Machine.Reached (backfillStep pageSize) (fun _ _ => True) ⟨g,.running cursor⟩ ⟨final,.completed⟩ := by
  induction fuel generalizing i total cursor g with
  | zero => exact absurd enough (Nat.not_lt_zero _)
  | succ fuel ih =>
    have moved : backfillStep pageSize ⟨g,.running cursor⟩ (.page .done) = some ⟨recount (pageAfter g pageSize cursor) g,
        if (pageAfter g pageSize cursor).length < pageSize then .completed else
          .running ((pageAfter g pageSize cursor).getLastD cursor)⟩ := rfl
    unfold backfillFollowerCountPaged
    dsimp only
    split
    · rename_i short
      rw [if_pos short] at moved
      exact ⟨_,_,rfl,.step .refl trivial moved⟩
    · rename_i full
      rw [if_neg full] at moved
      have last := pageAfter_last_lt positive full
      have fewer := named_shrinks last
      obtain ⟨count,final,run,path⟩ := ih (i+1) (total + (pageAfter g pageSize cursor).length)
        ((pageAfter g pageSize cursor).getLastD cursor) (recount (pageAfter g pageSize cursor) g) (by rw [named_recount]; omega)
      refine ⟨count,final,run,?_⟩
      exact Machine.Reached.head trivial moved path

theorem paged_idle {pageSize : Nat} {outcome : Nat → Outcome} {g : Graph} (right : ∀ u, Right g u) (fuel i total : Nat) (cursor : Uid) :
    (backfillFollowerCountPaged pageSize outcome fuel i total cursor g).2 = g := by
  induction fuel generalizing i total cursor with
  | zero => rfl
  | succ fuel ih =>
    unfold backfillFollowerCountPaged
    dsimp only
    rw [recount_page_idle right]
    cases outcome i with
    | failed e => rfl
    | lost e => rfl
    | done =>
      dsimp only
      split
      · rfl
      · exact ih _ _ _

-- Whatever the counts were, and wherever committed writes fall between the pages: a backfill that completes leaves every
-- count right, a second one changes nothing, and one that nobody disturbs completes.
theorem backfill_counts {pageSize : Nat} (positive : 1 ≤ pageSize) {start : Graph} (unique : Unique start) :
    (∀ s, Machine.Reached (backfillStep pageSize) (fun _ _ => True) ⟨start,.running 0⟩ s → s.progress = .completed →
      (∀ u pk, (s.graph.node u).pubkey = some pk → (s.graph.node u).followerCount = some (s.graph.indegree u : Int)) ∧
      ∀ size, 1 ≤ size → ∃ count,
        backfillFollowerCountPaged size (fun _ => .done) (s.graph.uids.length + 1) 0 0 0 s.graph = (.ok count,s.graph)) ∧
    ∃ count final, backfillFollowerCountPaged pageSize (fun _ => .done) (start.uids.length + 1) 0 0 0 start = (.ok count,final) ∧
      Machine.Reached (backfillStep pageSize) (fun _ _ => True) ⟨start,.running 0⟩ ⟨final,.completed⟩ := by
  have enough : ∀ g : Graph, (named g 0).length < g.uids.length + 1 := fun g => Nat.lt_succ_of_le (List.length_filter_le _ _)
  refine ⟨fun s path completed => ?_,paged_completes positive _ 0 0 0 start (enough start)⟩
  have swept : Swept s := path.invariant Swept (swept_start unique) fun before _ moved => swept_step before moved
  have right := swept.whole completed
  refine ⟨right,fun size some_size => ?_⟩
  obtain ⟨count,final,run,_⟩ := paged_completes some_size _ 0 0 0 s.graph (enough s.graph)
  have same : (backfillFollowerCountPaged size (fun _ => .done) (s.graph.uids.length + 1) 0 0 0 s.graph).2 = s.graph :=
    paged_idle right _ 0 0 0
  rw [run] at same
  exact ⟨count,by rw [run,← same]⟩

-- Wrong counts on the signer and one followee, none of them repaired by the writes alone.
def drifted : Graph := [(1,99),(2,-5)].foldl setCount (apply .empty (calling aliceFirst))

theorem drifted_unique : Unique drifted := by
  have values : ∀ u, (drifted.node u).pubkey = ((apply .empty (calling aliceFirst)).node u).pubkey := by
    intro u
    have same := congrArg Node.pubkey (setCounts_uncounted [(1,99),(2,-5)] (apply .empty (calling aliceFirst)) u)
    exact same
  intro u v pk left right
  rw [values] at left right
  exact unique_apply empty_consistent.unique (calling aliceFirst) u v pk left right

theorem backfill_counts_sample : ∃ s, Machine.Reached (backfillStep 1) (fun _ _ => True) ⟨drifted,.running 0⟩ s ∧
    s.progress = .completed ∧ ((s.graph.node 2).pubkey = some bob ∧ (s.graph.node 2).followerCount = some (s.graph.indegree 2 : Int)) := by
  obtain ⟨s,path,found⟩ := Machine.replay_final (backfillStep 1) (fun _ _ => True) ⟨drifted,.running 0⟩
    [.page .done,.write (calling bobBack),.page .done,.write (calling aliceNewest),.page .done,.page .done]
    (fun s => decide (s.progress = .completed ∧ (s.graph.node 2).pubkey = some bob)) (by decide +kernel) (by decide +kernel)
  obtain ⟨completed,there⟩ := of_decide_eq_true found
  obtain ⟨counts,_⟩ := (backfill_counts (Nat.le_refl 1) drifted_unique).1 s path completed
  exact ⟨s,path,completed,there,counts 2 bob there⟩

end DeepFry.WebOfTrust
