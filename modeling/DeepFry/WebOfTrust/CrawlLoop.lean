import DeepFry.WebOfTrust.Backfill
import DeepFry.WebOfTrust.Backoff
import DeepFry.WebOfTrust.BatchResults
import DeepFry.WebOfTrust.Marker
import DeepFry.WebOfTrust.Retry

namespace DeepFry.WebOfTrust.CrawlLoop

structure CountSampleState where
  interval : Int
  lastSampleBatch : Int
  totalPubkeys : Int
  totalStale : Int
  hasSample : Bool

structure CountSampleSnapshot where
  totalPubkeys : Int
  totalStale : Int
  countsSampled : Bool
  countSampleAgeBatches : Int

def newCountSampleState (interval : Int) : CountSampleState := ⟨if interval ≤ 0 then 1 else interval,0,0,0,false⟩

def CountSampleState.due (c : CountSampleState) (batchNum : Int) : Bool :=
  !c.hasSample || decide (c.interval ≤ batchNum - c.lastSampleBatch)

def CountSampleState.recordSample (batchNum totalPubkeys totalStale : Int) (c : CountSampleState) :
    CountSampleSnapshot × CountSampleState :=
  (⟨totalPubkeys,totalStale,true,0⟩,⟨c.interval,batchNum,totalPubkeys,totalStale,true⟩)

def CountSampleState.cached (batchNum : Int) (c : CountSampleState) : CountSampleSnapshot :=
  ⟨c.totalPubkeys,c.totalStale,false,max 0 (batchNum - c.lastSampleBatch)⟩

def CountSampleState.applyMarked (marked : Int) (c : CountSampleState) : CountSampleState :=
  { c with totalStale := max 0 (c.totalStale - marked) }

-- count(func: has(pubkey))
def countPubkeys (g : Graph) : Int := (g.uids.filter fun u => (g.node u).pubkey.isSome).length

-- limit: FrontierBatchSize.
structure Config where
  limit : Nat
  countSampleInterval : Int
  seedPubkey : Str
  params : BackoffParams
  ejectionThresholds : FailureClass → Int
  quorumReached : Nat → Nat → Bool

-- What the run did, for the invariants; nothing reads it. selected: the time of a selection, the pubkeys the store gave and
-- those the batch asks for. stamped: a committed stamp, its time, the hits of its batch and the pubkeys whose nodes it wrote.
inductive Entry where
  | selected (now : Int) (drawn asked : List Str)
  | stamped (ts : Int) (hits named : List Str)
deriving DecidableEq

-- The loop of main, and the store; journal: the last entry first.
structure Loop where
  graph : Graph
  running : Bool
  batchNum : Int
  countSamples : CountSampleState
  journal : List Entry

-- One batch: the answers of the store's reads, the events the relays send with the store's answers to them, whether the
-- fetch is interrupted after those, and the attempts of MarkAttempted. The successful attempt of each read is what counts.
structure Turn where
  staleAt : Int
  countAt : Int
  url : Nat → Str
  events : List (Answer × Event)
  interrupted : Bool
  attempts : List (Int × Oracle)

-- The events in the order the dispatcher takes them; false for one that ends the fetch.
def fetch (b : Batch) : List (Answer × Event) → Results → Bool × Results
  | [],r => (true,r)
  | (a,e) :: rest,r =>
    match handle b a e r with
    | (.ok (),next) => fetch b rest next
    | (.error _,next) => (false,next)

def attemptableBatchKeys (pubkeys : Table Str Int) (skip : List Str) : List Str := pubkeys.keys.filter (· ∉ skip)

-- The pubkeys one MarkAttempted stamps.
def named (pubkeys : List Str) (o : Oracle) (g : Graph) : List Str :=
  let recovered := recoverAll o 0 pubkeys g
  (resolveMisses (pubkeys.filter isValidHexPubkey) recovered).map (keyOf recovered)

-- retryDgraph around MarkAttempted; the attempts run out when the context ends.
def mark (pubkeys hits : List Str) (params : BackoffParams) : List (Int × Oracle) → Graph → List Entry → Graph × List Entry
  | [],g,journal => (g,journal)
  | (ts,o) :: rest,g,journal =>
    let stamp := .stamped ts hits (named pubkeys o g)
    match markAttempted o pubkeys ts hits params g with
    | (.ok (),next) => (next,stamp :: journal)
    | (.error e,next) =>
      let written := if o.resolveMiss.isNone && o.stamp.committed then stamp :: journal else journal
      if isTransientError e then mark pubkeys hits params rest next written else (next,written)

def sample (t : Turn) (s : Loop) : CountSampleSnapshot × CountSampleState :=
  if s.countSamples.due (s.batchNum + 1) then
    s.countSamples.recordSample (s.batchNum + 1) (countPubkeys s.graph) ((unattempted s.graph).length + (overdue t.countAt s.graph).length)
  else (s.countSamples.cached (s.batchNum + 1),s.countSamples)

-- An empty database is started from the seed.
def seed (cfg : Config) (snapshot : CountSampleSnapshot) (pubkeys : Table Str Int) : Table Str Int :=
  if snapshot.totalPubkeys = 0 then pubkeys.insert cfg.seedPubkey 0 else pubkeys

def drawn (cfg : Config) (t : Turn) (g : Graph) : Table Str Int := collectStale g (staleRows cfg.limit t.staleAt g) ∅

-- One pass of the loop.
def pass (cfg : Config) (t : Turn) (s : Loop) : Loop :=
  let (snapshot,countSamples) := sample t s
  let pubkeys := seed cfg snapshot (drawn cfg t s.graph)
  if pubkeys.keys.isEmpty then { s with running := false, countSamples }
  else
    let journal := .selected t.staleAt (drawn cfg t s.graph).keys pubkeys.keys :: s.journal
    let (whole,r) := fetch ⟨pubkeys,t.url,cfg.ejectionThresholds,cfg.quorumReached⟩ t.events ⟨s.graph,[],[],[],[]⟩
    if !whole || t.interrupted then { s with graph := r.graph, running := false, countSamples, journal }
    else
      let batchKeys := attemptableBatchKeys pubkeys r.skipAttempt
      let (graph,journal) := mark batchKeys r.hits cfg.params t.attempts r.graph journal
      ⟨graph,true,s.batchNum + 1,countSamples.applyMarked batchKeys.length,journal⟩

inductive Action where
  | restart (read : Nat → Option StoreError) (outcome : Nat → Outcome)
  | pass (t : Turn)

-- A new process on the same store: New backfills next_attempt before the loop starts.
def step (cfg : Config) (s : Loop) : Action → Option Loop
  | .restart read outcome =>
    some ⟨(backfillNextAttempt (seconds cfg.params.hitRefreshCadence) read outcome (s.graph.uids.length + 1) 0 0 s.graph).2,
      true,0,newCountSampleState cfg.countSampleInterval,s.journal⟩
  | .pass t => if s.running then some (pass cfg t s) else none

def boot (cfg : Config) : Loop := ⟨.empty,false,0,newCountSampleState cfg.countSampleInterval,[]⟩

def Entry.names (pk : Str) : Entry → Bool
  | .selected _ _ _ => false
  | .stamped _ _ named => pk ∈ named

-- The misses of a pubkey since its last hit.
def silences (pk : Str) : List Entry → Nat
  | [] => 0
  | .selected _ _ _ :: rest => silences pk rest
  | .stamped _ hits named :: rest =>
    if pk ∈ named then if pk ∈ hits then 0 else silences pk rest + 1 else silences pk rest

-- When a pubkey is due again, by what was stamped.
def plan (params : BackoffParams) (pk : Str) : List Entry → Option Int
  | [] => none
  | .selected _ _ _ :: rest => plan params pk rest
  | .stamped ts hits named :: rest =>
    if pk ∈ named then
      some (ts + seconds (if pk ∈ hits then params.hitRefreshCadence
        else backoffInterval (silences pk rest) params.base params.ratio params.cap))
    else plan params pk rest

structure Planned (params : BackoffParams) (journal : List Entry) (pk : Str) (n : Node) : Prop where
  nextAttempt : n.nextAttempt = plan params pk journal
  missCount : n.missCount.getD 0 = silences pk journal
  uncrawled : (plan params pk journal).isSome = true → n.uncrawled = none

-- The store keeps to the plan.
structure Keeping (params : BackoffParams) (journal : List Entry) (g : Graph) : Prop where
  unique : Unique g
  scheduled : Throughout Node.Scheduled g
  planned : ∀ u pk, (g.node u).pubkey = some pk → Planned params journal pk (g.node u)
  named : ∀ pk, journal.any (Entry.names pk) = true → isValidHexPubkey pk = true ∧ ∃ u, (g.node u).pubkey = some pk

section Store
variable {params : BackoffParams} {journal : List Entry} {g next : Graph} {pk : Str} {u : Uid} {pubkeys hits : List Str} {ts : Int} {o : Oracle}
  {r : Results}

theorem unnamed (absent : journal.any (Entry.names pk) = false) : plan params pk journal = none ∧ silences pk journal = 0 := by
  induction journal with
  | nil => exact ⟨rfl,rfl⟩
  | cons entry rest ih =>
    rw [List.any_cons,Bool.or_eq_false_iff] at absent
    cases entry with
    | selected now drawn asked => exact ih absent.2
    | stamped ts hits named =>
      have other : pk ∉ named := of_decide_eq_false absent.1
      rw [plan,silences,if_neg other,if_neg other]
      exact ih absent.2

-- A node whose pubkey no stamp ever named.
theorem Planned.fresh {n : Node} (absent : journal.any (Entry.names pk) = false) (nextAttempt : n.nextAttempt = none)
    (missCount : n.missCount.getD 0 = 0) : Planned params journal pk n := by
  obtain ⟨never,none⟩ : plan params pk journal = none ∧ silences pk journal = 0 := unnamed absent
  refine ⟨nextAttempt.trans never.symm,?_,fun some => ?_⟩
  · rw [missCount,none]
    rfl
  · rw [never] at some
    cases some

theorem Planned.blank {n : Node} (planned : Planned params journal pk n) (absent : journal.any (Entry.names pk) = false) :
    n.nextAttempt = none ∧ n.missCount.getD 0 = 0 := by
  obtain ⟨never,none⟩ : plan params pk journal = none ∧ silences pk journal = 0 := unnamed absent
  refine ⟨planned.nextAttempt.trans never,?_⟩
  rw [planned.missCount,none]
  rfl

theorem Keeping.grown (keeping : Keeping params journal g) (grown : Grown g next) (unique : Unique next) :
    Keeping params journal next := by
  refine ⟨unique,lasting_scheduled.grown grown keeping.scheduled,fun u pk pubkey => ?_,fun pk mentioned => ?_⟩
  · by_cases known : u ∈ g.uids
    · have kept := grown.kept u known
      have planned := keeping.planned u pk (kept.pubkey ▸ pubkey)
      exact ⟨kept.nextAttempt.trans planned.nextAttempt,by rw [kept.missCount]; exact planned.missCount,
        fun some => kept.uncrawled.trans (planned.uncrawled some)⟩
    · have made := grown.made u (Graph.mem_of_pubkey pubkey) known
      refine .fresh ?_ made.nextAttempt (by rw [made.missCount]; rfl)
      rw [← Bool.not_eq_true]
      intro mentioned
      obtain ⟨v,held⟩ := (keeping.named pk mentioned).2
      have old := Graph.mem_of_pubkey held
      have same := unique u v pk pubkey ((grown.kept v old).pubkey.trans held)
      exact known (same ▸ old)
  · obtain ⟨valid,v,held⟩ := keeping.named pk mentioned
    exact ⟨valid,v,(grown.kept v (Graph.mem_of_pubkey held)).pubkey.trans held⟩

theorem unique_recoverOrPurge (unique : Unique g) (o : Oracle) (i : Nat) (pk : Str) : Unique (recoverOrPurge o i pk g) := by
  have repaired := recoverOrPurge_repaired o i pk g
  generalize recoverOrPurge o i pk g = next at repaired ⊢
  cases repaired with
  | kept => exact unique
  | purged u _ =>
    intro v w other left right
    rw [delete_node] at left right
    split at left
    · cases left
    · split at right
      · cases right
      · exact unique v w other left right
  | recovered u found _ free =>
    have values : ∀ v, ((g.modify u fun n => { n with pubkey := some (toLower pk) }).node v).pubkey =
        if v = u then some (toLower pk) else (g.node v).pubkey := by
      intro v
      have known := (resolvePubkey_named found).1
      rw [Graph.node_modify]
      by_cases here : v = u
      · rw [if_pos ⟨here,known⟩,if_pos here]
      · rw [if_neg fun both => here both.1,if_neg here]
    have absent : ∀ v, (g.node v).pubkey ≠ some (toLower pk) :=
      fun v held => resolvePubkey_absent free v (Graph.mem_of_pubkey held) held
    intro v w other left right
    rw [values] at left right
    split at left
    · next here =>
      split at right
      · next there => exact here.trans there.symm
      · exact absurd (right.trans left.symm) (absent w)
    · split at right
      · exact absurd (left.trans right.symm) (absent v)
      · exact unique v w other left right

theorem unique_recoverAll (unique : Unique g) (o : Oracle) (i : Nat) (pubkeys : List Str) : Unique (recoverAll o i pubkeys g) := by
  induction pubkeys generalizing i g with
  | nil => exact unique
  | cons pk rest ih =>
    refine ih ?_ (i+1)
    split
    · exact unique
    · exact unique_recoverOrPurge unique o i pk

-- A pubkey that was stamped is valid, so recover-or-purge leaves its node alone.
theorem Keeping.recoverAll (keeping : Keeping params journal g) (o : Oracle) (pubkeys : List Str) :
    Keeping params journal (recoverAll o 0 pubkeys g) := by
  have unique := unique_recoverAll keeping.unique o 0 pubkeys
  have repairs : ∀ u, Repairs pubkeys (g.node u) ((WebOfTrust.recoverAll o 0 pubkeys g).node u) :=
    repairs_recoverAll o 0 (fun _ inside => inside) g
  have still : ∀ {pk v}, isValidHexPubkey pk = true → (g.node v).pubkey = some pk →
      (WebOfTrust.recoverAll o 0 pubkeys g).node v = g.node v :=
    fun valid held => (repairs _).clean (valid_clean valid held)
  refine ⟨unique,lasting_scheduled.recoverAll keeping.scheduled o 0 pubkeys,fun u pk pubkey => ?_,fun pk mentioned => ?_⟩
  · have repair := repairs u
    generalize after : (WebOfTrust.recoverAll o 0 pubkeys g).node u = n at repair pubkey
    cases repair with
    | same => exact keeping.planned u pk pubkey
    | purged _ => cases pubkey
    | recovered lower bad _ =>
      obtain ⟨old,_,invalid,held⟩ := bad
      have absent : journal.any (Entry.names old) = false := by
        rw [← Bool.not_eq_true]
        intro mentioned
        rw [(keeping.named old mentioned).1] at invalid
        cases invalid
      obtain ⟨nextAttempt,missCount⟩ := (keeping.planned u old held).blank absent
      refine .fresh ?_ nextAttempt missCount
      rw [← Bool.not_eq_true]
      intro mentioned
      obtain ⟨valid,v,there⟩ := keeping.named pk mentioned
      have same := unique u v pk (by rw [after]; exact pubkey) (by rw [still valid there]; exact there)
      rw [same,there] at held
      cases held
      rw [invalid] at valid
      cases valid
  · obtain ⟨valid,v,held⟩ := keeping.named pk mentioned
    exact ⟨valid,v,by rw [still valid held]; exact held⟩

theorem stampable_named {n : Node} (held : n.pubkey = some pk) : stampable pubkeys n = decide (pk ∈ pubkeys.filter isValidHexPubkey) := by
  rw [stampable,held,Option.any_some]

theorem mem_named : pk ∈ named pubkeys o g ↔ pk ∈ pubkeys.filter isValidHexPubkey ∧
    ∃ u, ((recoverAll o 0 pubkeys g).node u).pubkey = some pk := by
  rw [named,List.mem_map]
  constructor
  · rintro ⟨u,chosen,same⟩
    obtain ⟨other,held,inside⟩ := (Option.any_eq_true _ _).mp (List.mem_filter.mp chosen).2
    rw [keyOf,held] at same
    cases same
    exact ⟨of_decide_eq_true inside,u,held⟩
  · rintro ⟨inside,u,held⟩
    refine ⟨u,List.mem_filter.mpr ⟨Graph.mem_of_pubkey held,?_⟩,by rw [keyOf,held]; rfl⟩
    rw [held]
    exact decide_eq_true inside

-- One node under a stamp that names it.
theorem Planned.stamp {n : Node} {names : List Str} (planned : Planned params journal pk n) (held : n.pubkey = some pk)
    (inside : pk ∈ names) : Planned params (.stamped ts hits names :: journal) pk (stampNode ts hits params n) := by
  by_cases answered : pk ∈ hits
  · have hit : hit hits n = true := by rw [WebOfTrust.hit,held]; exact decide_eq_true answered
    rw [stampNode_hit hit]
    refine ⟨?_,?_,fun _ => rfl⟩
    · rw [plan,if_pos inside,if_pos answered]
    · rw [silences,if_pos inside,if_pos answered]
      rfl
  · have silent : WebOfTrust.hit hits n = false := by rw [WebOfTrust.hit,held]; exact decide_eq_false answered
    rw [stampNode_miss silent]
    refine ⟨?_,?_,fun _ => rfl⟩
    · rw [plan,if_pos inside,if_neg answered,← planned.missCount]
    · rw [silences,if_pos inside,if_neg answered,Option.getD_some,planned.missCount]
      rfl

theorem Planned.aside {n : Node} {names : List Str} (planned : Planned params journal pk n) (outside : pk ∉ names) :
    Planned params (.stamped ts hits names :: journal) pk n := by
  refine ⟨?_,?_,fun some => planned.uncrawled ?_⟩
  · rw [plan,if_neg outside]
    exact planned.nextAttempt
  · rw [silences,if_neg outside]
    exact planned.missCount
  · rw [plan,if_neg outside] at some
    exact some

theorem Keeping.stamped (keeping : Keeping params journal g) (o : Oracle) (pubkeys hits : List Str) (ts : Int) :
    Keeping params (.stamped ts hits (CrawlLoop.named pubkeys o g) :: journal) (stamped o pubkeys ts hits params g) := by
  have recovered := keeping.recoverAll o pubkeys
  have pubkey : ∀ u, ((WebOfTrust.stamped o pubkeys ts hits params g).node u).pubkey =
      ((WebOfTrust.recoverAll o 0 pubkeys g).node u).pubkey := by
    intro u
    rw [node_stamped]
    exact once_pubkey
  refine ⟨fun u v pk left right => ?_,lasting_scheduled.stampAll recovered.scheduled _ _ _ _,fun u pk held => ?_,fun pk mentioned => ?_⟩
  · rw [pubkey] at left right
    exact recovered.unique u v pk left right
  · rw [pubkey] at held
    have planned := recovered.planned u pk held
    rw [node_stamped,once,stampable_named held]
    by_cases chosen : pk ∈ pubkeys.filter isValidHexPubkey
    · rw [if_pos (decide_eq_true chosen)]
      exact planned.stamp held (mem_named.mpr ⟨chosen,u,held⟩)
    · rw [if_neg fun yes => chosen (of_decide_eq_true yes)]
      exact planned.aside fun inside => chosen (mem_named.mp inside).1
  · rw [List.any_cons,Bool.or_eq_true] at mentioned
    have holder : ∃ u, ((WebOfTrust.recoverAll o 0 pubkeys g).node u).pubkey = some pk ∧ isValidHexPubkey pk = true := by
      rcases mentioned with here | before
      · obtain ⟨inside,u,held⟩ := mem_named.mp (of_decide_eq_true here)
        exact ⟨u,held,(List.mem_filter.mp inside).2⟩
      · obtain ⟨valid,u,held⟩ := recovered.named pk before
        exact ⟨u,held,valid⟩
    obtain ⟨u,held,valid⟩ := holder
    exact ⟨valid,u,by rw [pubkey]; exact held⟩

theorem Keeping.mark (attempts : List (Int × Oracle)) (keeping : Keeping params journal g) :
    Keeping params (mark pubkeys hits params attempts g journal).2 (mark pubkeys hits params attempts g journal).1 := by
  induction attempts generalizing g journal with
  | nil => exact keeping
  | cons attempt rest ih =>
    obtain ⟨ts,o⟩ := attempt
    have recovered := keeping.recoverAll o pubkeys
    have written := keeping.stamped o pubkeys hits ts
    have attempted := markAttempted_attempted o pubkeys ts hits params g
    unfold CrawlLoop.mark
    dsimp only
    generalize markAttempted o pubkeys ts hits params g = outcome at attempted ⊢
    cases attempted with
    | done => exact written
    | refused e dropped =>
      simp only [dropped,Bool.false_eq_true,if_false]
      split
      · exact ih recovered
      · exact recovered
    | lost e committed =>
      simp only [committed,if_true]
      split
      · exact ih written
      · exact written

theorem handle_grown (unique : Unique r.graph) (b : Batch) (a : Answer) (e : Event) :
    Grown r.graph (handle b a e r).2.graph ∧ Unique (handle b a e r).2.graph := by
  have update : ∀ next, updateFollowsFromEvent a e r.graph = next → Grown r.graph next.2 ∧ Unique next.2 := by
    rintro next rfl
    rw [(update_applied a e r.graph).1]
    exact ⟨addFollowers_grown _ _ _ _ _,unique_apply unique (a.call e)⟩
  unfold handle
  split
  · exact ⟨.refl _,unique⟩
  · split
    · unfold processFetchedEvent
      split
      · exact ⟨grown_touch _ _ _ _ _,(touch_rising unique a.touchRead a.now a.touch e.pubkey e.pubkey 0).1.unique⟩
      · generalize outcome : updateFollowsFromEvent a e r.graph = next
        have wrote := update next outcome
        obtain ⟨reply,g⟩ := next
        cases reply with
        | error error =>
          dsimp only
          split
          · exact wrote
          · exact wrote
        | ok _ => exact wrote
    · exact ⟨.refl _,unique⟩

theorem fetch_grown (unique : Unique r.graph) (b : Batch) (events : List (Answer × Event)) :
    Grown r.graph (fetch b events r).2.graph ∧ Unique (fetch b events r).2.graph := by
  induction events generalizing r with
  | nil => exact ⟨.refl _,unique⟩
  | cons event rest ih =>
    obtain ⟨a,e⟩ := event
    have one := handle_grown unique b a e
    unfold fetch
    generalize handle b a e r = outcome at one ⊢
    obtain ⟨reply,next⟩ := outcome
    cases reply with
    | error error => exact one
    | ok _ =>
      have later := ih one.2
      exact ⟨one.1.trans later.1,later.2⟩

end Store

-- What a selection is held to, by the entries before it.
def Timely (params : BackoffParams) (seedPubkey : Str) : List Entry → Prop
  | [] => True
  | .selected now drawn asked :: rest =>
    ((∀ pk ∈ drawn, pk ≠ [] → ∀ next ∈ plan params pk rest, next < now) ∧ ∀ pk ∈ asked, pk ∈ drawn ∨ pk = seedPubkey) ∧
      Timely params seedPubkey rest
  | .stamped _ _ _ :: rest => Timely params seedPubkey rest

section Loop
variable {cfg : Config} {s next : Loop} {journal : List Entry} {g : Graph}

theorem drawn_timely (keeping : Keeping cfg.params journal g) (t : Turn) :
    ∀ pk ∈ (drawn cfg t g).keys, pk ≠ [] → ∀ next ∈ plan cfg.params pk journal, next < t.staleAt := by
  intro pk member given next due
  have row : ∃ u ∈ staleRows cfg.limit t.staleAt g, keyOf g u = pk :=
    (mem_collectStale.mp (AList.mem_keys.mp member)).resolve_right (AList.notMem_empty pk)
  obtain ⟨u,chosen,same⟩ := row
  have held : (g.node u).pubkey = some pk := by
    rw [keyOf] at same
    cases named : (g.node u).pubkey with
    | none =>
      rw [named] at same
      exact absurd same.symm given
    | some other =>
      rw [named] at same
      exact congrArg some same
  have planned := keeping.planned u pk held
  have chosen : u ∈ frontierIndex g ∨ u ∈ agedIndex t.staleAt g := by
    have from_ : ∀ {limit uids}, u ∈ topFollowed g limit uids → u ∈ uids :=
      fun inside => (List.mergeSort_perm _ _).mem_iff.mp (List.mem_of_mem_take inside)
    unfold staleRows at chosen
    dsimp only at chosen
    split at chosen
    · exact .inl (from_ chosen)
    · exact (List.mem_append.mp chosen).imp from_ from_
  rcases chosen with frontier | aged
  · have marked := of_decide_eq_true (List.mem_filter.mp frontier).2
    rw [planned.uncrawled (by rw [due]; rfl)] at marked
    cases marked
  · have late := (Bool.and_eq_true_iff.mp (List.mem_filter.mp aged).2).2
    rw [WebOfTrust.due,planned.nextAttempt,due] at late
    exact of_decide_eq_true late

theorem mark_timely {pubkeys hits : List Str} (attempts : List (Int × Oracle)) (timely : Timely cfg.params cfg.seedPubkey journal) :
    Timely cfg.params cfg.seedPubkey (mark pubkeys hits cfg.params attempts g journal).2 := by
  induction attempts generalizing g journal with
  | nil => exact timely
  | cons attempt rest ih =>
    obtain ⟨ts,o⟩ := attempt
    unfold mark
    dsimp only
    split
    · exact timely
    · split
      · split
        · exact ih timely
        · exact ih timely
      · split
        · exact timely
        · exact timely

theorem seed_asked (snapshot : CountSampleSnapshot) (pubkeys : Table Str Int) :
    ∀ pk ∈ (seed cfg snapshot pubkeys).keys, pk ∈ pubkeys.keys ∨ pk = cfg.seedPubkey := by
  intro pk member
  unfold seed at member
  split at member
  · exact ((AList.mem_insert pubkeys).mp (AList.mem_keys.mp member)).symm.imp_left AList.mem_keys.mpr
  · exact .inl member

structure Sound (cfg : Config) (s : Loop) : Prop where
  keeping : Keeping cfg.params s.journal s.graph
  timely : Timely cfg.params cfg.seedPubkey s.journal

-- A selection changes nothing of the plan.
theorem Keeping.select (keeping : Keeping cfg.params journal g) (now : Int) (drawn asked : List Str) :
    Keeping cfg.params (.selected now drawn asked :: journal) g :=
  ⟨keeping.unique,keeping.scheduled,fun u pk held =>
    have planned := keeping.planned u pk held
    ⟨planned.nextAttempt,planned.missCount,planned.uncrawled⟩,keeping.named⟩

theorem pass_sound (sound : Sound cfg s) (t : Turn) : Sound cfg (pass cfg t s) := by
  unfold pass
  generalize sample t s = sampled
  obtain ⟨snapshot,countSamples⟩ := sampled
  dsimp only
  split
  · exact ⟨sound.keeping,sound.timely⟩
  · generalize pubkeys : seed cfg snapshot (drawn cfg t s.graph) = table
    have timely : Timely cfg.params cfg.seedPubkey (.selected t.staleAt (drawn cfg t s.graph).keys table.keys :: s.journal) := by
      refine ⟨⟨drawn_timely sound.keeping t,?_⟩,sound.timely⟩
      rw [← pubkeys]
      exact seed_asked snapshot _
    have selected := sound.keeping.select t.staleAt (drawn cfg t s.graph).keys table.keys
    obtain ⟨grown,unique⟩ := fetch_grown (r := ⟨s.graph,[],[],[],[]⟩) sound.keeping.unique
      ⟨table,t.url,cfg.ejectionThresholds,cfg.quorumReached⟩ t.events
    have fetched := selected.grown grown unique
    split
    · exact ⟨fetched,timely⟩
    · exact ⟨fetched.mark _,mark_timely _ timely⟩

-- Every attempted node is scheduled, so the backfill of a new process writes nothing.
theorem backfill_idle (scheduled : Throughout Node.Scheduled g) (cadence : Int) (read : Nat → Option StoreError)
    (outcome : Nat → Outcome) (fuel i total : Nat) : (backfillNextAttempt cadence read outcome fuel i total g).2 = g := by
  have none : unscheduled g = [] := by
    refine List.filter_eq_nil_iff.mpr fun u _ both => ?_
    obtain ⟨attempted,unplanned⟩ := Bool.and_eq_true_iff.mp both
    have planned := scheduled u attempted
    rw [Option.isNone_iff_eq_none.mp unplanned] at planned
    cases planned
  cases fuel with
  | zero => rfl
  | succ fuel =>
    unfold backfillNextAttempt
    cases read i with
    | some e => rfl
    | none =>
      rw [none]
      rfl

theorem step_sound {action : Action} (sound : Sound cfg s) (moved : step cfg s action = some next) : Sound cfg next := by
  cases action with
  | restart read outcome =>
    cases moved
    refine ⟨?_,sound.timely⟩
    dsimp only
    rw [backfill_idle sound.keeping.scheduled]
    exact sound.keeping
  | pass t =>
    simp only [step] at moved
    split at moved
    · cases moved
      exact pass_sound sound t
    · cases moved

theorem boot_sound (cfg : Config) : Sound cfg (boot cfg) :=
  ⟨⟨fun _ _ _ held => absurd held nofun,fun _ => lasting_scheduled.empty,fun _ _ held => absurd held nofun,
    fun _ mentioned => absurd mentioned nofun⟩,trivial⟩

theorem Timely.suffix {params : BackoffParams} {seedPubkey : Str} (newer : List Entry) {older : List Entry}
    (timely : Timely params seedPubkey (newer ++ older)) : Timely params seedPubkey older := by
  induction newer with
  | nil => exact timely
  | cons entry rest ih =>
    cases entry with
    | selected now drawn asked => exact ih timely.2
    | stamped ts hits named => exact ih timely

theorem plan_latest {params : BackoffParams} {pk : Str} {ts : Int} {hits named : List Str} {rest : List Entry} (middle : List Entry)
    (quiet : middle.any (Entry.names pk) = false) (inside : pk ∈ named) :
    plan params pk (middle ++ .stamped ts hits named :: rest) = some (ts + seconds (if pk ∈ hits then params.hitRefreshCadence
      else backoffInterval (silences pk rest) params.base params.ratio params.cap)) := by
  induction middle with
  | nil => exact if_pos inside
  | cons entry middle ih =>
    rw [List.any_cons,Bool.or_eq_false_iff] at quiet
    cases entry with
    | selected now drawn asked => exact ih quiet.2
    | stamped ts hits named =>
      have other : pk ∉ named := of_decide_eq_false quiet.1
      rw [List.cons_append,plan,if_neg other]
      exact ih quiet.2

theorem crawl_schedule {cfg : Config} (started : 0 < cfg.params.base) (growing : 2 ≤ cfg.params.ratio) (bounded : 0 < cfg.params.cap)
    {s : Loop} (path : Machine.Reached (step cfg) (fun _ _ => True) (boot cfg) s) {newer older : List Entry} {now : Int}
    {drawn asked : List Str} (ran : s.journal = newer ++ .selected now drawn asked :: older) :
    (∀ pk ∈ asked, pk ∈ drawn ∨ pk = cfg.seedPubkey) ∧
      ∀ pk ∈ drawn, pk ≠ [] → ∀ middle rest ts hits named, older = middle ++ .stamped ts hits named :: rest →
        middle.any (Entry.names pk) = false → pk ∈ named →
          (pk ∈ hits → ts + seconds cfg.params.hitRefreshCadence < now) ∧
          (pk ∉ hits → ts + seconds (min (cfg.params.base * cfg.params.ratio ^ silences pk rest) cfg.params.cap) < now) := by
  have sound : Sound cfg s := path.invariant _ (boot_sound cfg) fun sound _ moved => step_sound sound moved
  have timely := sound.timely
  rw [ran] at timely
  obtain ⟨⟨due,asked⟩,-⟩ := timely.suffix newer
  refine ⟨asked,fun pk member given middle rest ts hits named split quiet inside => ?_⟩
  have latest : plan cfg.params pk older = some (ts + seconds (if pk ∈ hits then cfg.params.hitRefreshCadence
      else backoffInterval (silences pk rest) cfg.params.base cfg.params.ratio cfg.params.cap)) := by
    rw [split]
    exact plan_latest middle quiet inside
  have late := due pk member given _ latest
  refine ⟨fun answered => ?_,fun silent => ?_⟩
  · rw [if_pos answered] at late
    exact late
  · rw [if_neg silent,Backoff.whole_capped started growing bounded] at late
    exact late

end Loop

def daily : BackoffParams := ⟨3600000000000,2,86400000000000,86400000000000⟩

def sampleConfig : Config := ⟨10,1,dave,daily,fun _ => 3,fun _ _ => false⟩

def quiet (now : Int) (events : List (Answer × Event)) : Turn := ⟨now,now,fun _ => [],events,false,[(now,answering)]⟩

-- An empty store: the seed follows erin, who never answers.
def sampleRun : List Action :=
  [.restart (fun _ => none) (fun _ => .done),
    .pass (quiet 1000 [(⟨fun _ _ => none,nextUid,1000,none,none,.done⟩,⟨[1],dave,10,[erin],true⟩)]),.pass (quiet 2000 []),
    .pass (quiet 6000 [])]

def sampleJournal : List Entry :=
  [.stamped 6000 [] [erin],.selected 6000 [erin] [erin],.stamped 2000 [] [erin],.selected 2000 [erin] [erin],
    .stamped 1000 [dave] [dave],.selected 1000 [] [dave]]

theorem crawl_schedule_sample : ∃ s, Machine.Reached (step sampleConfig) (fun _ _ => True) (boot sampleConfig) s ∧
    s.journal = sampleJournal ∧ 2000 + seconds (min (daily.base * daily.ratio ^ silences erin (sampleJournal.drop 3)) daily.cap) < 6000 := by
  obtain ⟨s,path,found⟩ := Machine.replay_final (step sampleConfig) (fun _ _ => True) (boot sampleConfig) sampleRun
    (fun s => decide (s.journal = sampleJournal)) (by decide +kernel) (by decide +kernel)
  have ran : s.journal = [.stamped 6000 [] [erin]] ++ .selected 6000 [erin] [erin] :: sampleJournal.drop 2 :=
    of_decide_eq_true found
  obtain ⟨-,due⟩ := @crawl_schedule sampleConfig (by decide) (by decide) (by decide) s path _ _ _ _ _ ran
  have late := (due erin (by decide) (by decide) [] (sampleJournal.drop 3) 2000 [] [erin] rfl rfl (by decide)).2 (by decide)
  exact ⟨s,path,of_decide_eq_true found,late⟩

end DeepFry.WebOfTrust.CrawlLoop
