import DeepFry.Query.Pagination

namespace DeepFry.Query
open Lmdb Bytes
variable {codec : Codec} {dictCache : DictCache} {filter : NostrFilter} {batchSize : Nat}

section Recent
variable {name : IndexName} {since : Nat} {levIdFloor : Floor} {world : World} {tick after : Nat} {stream next : StreamState}

-- No stream holds an entry older than since, whatever its guard lets by.
def Recent (since : Nat) (stream : StreamState) : Prop := ∀ x ∈ stream.buffer, since ≤ x.1

theorem refillWindow_recent {env : Env} {settled : Bool} (recent : Recent since stream)
    (refilled : refillWindow name batchSize since levIdFloor env stream = (next,settled)) : Recent since next := by
  intro x member
  rcases refillWindow_buffer refilled x member with prior | new
  · exact recent x prior
  · exact new.1

theorem Refilled.recent (refilled : Refilled name batchSize since levIdFloor world tick stream next after)
    (recent : Recent since stream) : Recent since next := by
  cases refilled with
  | first step => exact refillWindow_recent recent step
  | second floored step => exact refillWindow_recent (refillWindow_recent recent floored) step
  | floored floored step =>
    intro x member
    cases member

theorem advance_recent {state : MergeState} (recent : ∀ stream ∈ state.streams, Recent since stream)
    (idx : Nat) : ∀ stream ∈ (state.advance name batchSize since levIdFloor world idx).streams, Recent since stream := by
  unfold MergeState.advance
  split
  · exact recent
  · rename_i stream here
    rcases stepped : advanceStream name batchSize since levIdFloor world state.tick stream with ⟨next,after⟩
    have known := recent stream (List.mem_of_getElem? here)
    have fresh : Recent since next := by
      rcases advanceStream_cases stepped with kept | read
      · rw [kept.2.1]
        exact known
      · exact read.2.2.recent known
    intro other member
    rcases List.mem_or_eq_of_mem_set member with prior | same
    · exact recent other prior
    · rw [same]
      exact fresh

theorem mergeWindowed_recent {startKeys : List Bytes} {emitLimit : Nat} {results : List Triple}
    (merged : mergeWindowed name batchSize since levIdFloor world tick startKeys emitLimit = (results,after)) :
    ∀ x ∈ results, since ≤ x.1 := by
  unfold mergeWindowed at merged
  split at merged
  · cases merged
    intro x member
    cases member
  · obtain ⟨_,filled⟩ := (@initialFill_filled name batchSize since levIdFloor world) tick (startKeys.map initStream)
    generalize initialFill name batchSize since levIdFloor world tick (startKeys.map initStream) = state at *
    have recent : ∀ stream ∈ state.streams, Recent since stream := by
      intro stream member
      obtain ⟨idx,here⟩ := List.getElem?_of_mem member
      obtain ⟨fresh,given,start,finish,_,_,refilled⟩ := (forall₂_at filled idx).1 stream here
      obtain ⟨key,_,rfl⟩ := List.mem_map.mp (List.mem_of_getElem? given)
      apply refilled.recent
      intro x inside
      cases inside
    have peeked : ∀ {s : MergeState} {i : Nat} {a : Triple}, (∀ stream ∈ s.streams, Recent since stream) →
        s.peek i = some a → since ≤ a.1 := by
      intro s i a fine shown
      obtain ⟨stream,here,head⟩ := state_peek shown
      exact fine stream (List.mem_of_getElem? here) a (List.mem_of_getElem? head)
    have heads := (@seedHeap_heads name batchSize since levIdFloor world) state
    obtain ⟨_,emitted⟩ := (@Frontier.drain_shows _ _ _ _ _ (mergeFeed name batchSize since levIdFloor world) Triple.sortKey
      (fun s => ∀ stream ∈ s.streams, Recent since stream) (fun _ a => since ≤ a.1)) peeked
      (fun fine => advance_recent fine _) (fun _ read => read) emitLimit state (seedHeap state.streams) recent
      (fun pair member => peeked recent ((heads.1 pair.1 pair.2).mp member))
    cases merged
    intro x member
    exact emitted x (.inl member)

end Recent

section Sifted
variable {history : History codec dictCache} {limit : Nat}

-- The selectors and the lower bound of a filter.
def Sifted (filter : NostrFilter) (event : NostrEvent) : Prop :=
  residual filter event = true ∧ filter.since.getD 0 ≤ event.createdAt

theorem matches_sifted (event : NostrEvent) : filter.Matches event ↔
    Sifted filter event ∧ ∀ ts, filter.untilTs = some ts → event.createdAt ≤ ts := by
  rw [matches_exact,Sifted,and_assoc]

theorem hydrateAndAdmit_sifted {middle after : Nat} {valid final : List Survivor} {listed : List Position}
    (dated : ∀ position ∈ listed, filter.since.getD 0 ≤ position.1 ∧ ∃ t, ∃ event ∈ (history.snapshot t).events, event.position = position)
    (sifted : ∀ survivor ∈ valid, Sifted filter survivor.2.event)
    (ran : hydrateAndAdmit codec dictCache history.world filter limit middle valid listed = .ok (final,after)) :
    ∀ survivor ∈ final, Sifted filter survivor.2.event := by
  rcases hydrateAndAdmit_cases ran with ⟨_,rfl,_⟩ | ⟨pairs,tick,read,ran⟩
  · exact sifted
  · have hydrated := hydrateLevIds_hydrated read
    obtain ⟨fresh,finish,run,admitted⟩ := (@admitBatch_admitted history.world filter limit (fun _ _ => True) listed)
      (List.pairwise_iff_getElem.mpr fun _ _ _ _ _ => trivial) tick (hydratedMap pairs) valid
    obtain ⟨rfl,rfl⟩ := Prod.mk.inj (ran.symm.trans run)
    intro survivor member
    rcases List.mem_append.mp member with prior | new
    · exact sifted survivor prior
    · obtain ⟨found,passes,_⟩ := admitted.checked survivor new
      obtain ⟨recent,t,event,stored,place⟩ := dated survivor.1 (admitted.listed.subset (List.mem_map_of_mem new))
      obtain ⟨s,_,other,present,named,decodes⟩ := hydrated.stored _ (hydrated.map_exact.mp found)
      have same : other = event := history.named s t other present event stored (named.trans (congrArg Prod.snd place).symm)
      obtain ⟨_,_,date,_⟩ := other.faithful _ decodes
      refine ⟨passes,?_⟩
      rw [date,same,show event.createdAt = survivor.1.1 from congrArg Prod.fst place]
      exact recent

theorem queryRound_sifted {state : QueryState} {outcome : RoundOutcome} (positive : 0 < batchSize)
    (sifted : ∀ survivor ∈ state.valid, Sifted filter survivor.2.event)
    (ran : queryRound codec dictCache history.world filter batchSize limit state = .ok outcome) :
    ∀ survivor ∈ outcome.state.valid, Sifted filter survivor.2.event := by
  rcases queryRound_cases ran with stops | merges
  · rw [stops.2]
    exact sifted
  · obtain ⟨results,middle,valid,after,merged,admitted,rfl⟩ := merges
    rw [(concludeRound_state _ _).1]
    apply hydrateAndAdmit_sifted _ sifted admitted
    intro position member
    obtain ⟨x,here,rfl⟩ := List.mem_map.mp (List.mem_filter.mp member).1
    obtain ⟨t,_,_,event,stored,place⟩ := listed_stored ((mergeWindowed_from positive merged).2 x here)
    exact ⟨mergeWindowed_recent merged x here,t,event,stored,place⟩

theorem queryLoop_sifted {fuel : Nat} {state final : QueryState} (positive : 0 < batchSize)
    (sifted : ∀ survivor ∈ state.valid, Sifted filter survivor.2.event)
    (ran : queryLoop codec dictCache history.world filter batchSize limit fuel state = .ok final) :
    ∀ survivor ∈ final.valid, Sifted filter survivor.2.event := by
  induction fuel generalizing state with
  | zero =>
    cases ran
    exact sifted
  | succ fuel ih =>
    rcases queryLoop_cases ran with round | ⟨next,round,ran⟩
    · exact queryRound_sifted positive sifted round
    · exact ih (queryRound_sifted positive sifted round) ran

-- Whatever the cursor, and whatever the guard of the merge lets by.
theorem executeQuery_sifted {tick : Nat} {cursor : Option PageCursor} {page : QueryPage}
    (ran : executeQuery codec dictCache history.world filter tick cursor = .ok page) :
    ∀ decoded ∈ page.events, Sifted filter decoded.event := by
  obtain ⟨final,looped,rfl⟩ := executeQueryInternal_ran ran
  have sifted : ∀ survivor ∈ final.valid, Sifted filter survivor.2.event := by
    apply queryLoop_sifted (by decide) _ looped
    intro survivor member
    cases member
  intro decoded member
  obtain ⟨survivor,inside,rfl⟩ := List.mem_map.mp member
  exact sifted survivor (List.mem_of_mem_take inside)

end Sifted

-- With a cursor the until of the filter is never read.
def NostrFilter.ending (filter : NostrFilter) (ts : Nat) : NostrFilter := {filter with untilTs := some ts}

section Ending
variable {world : World} {limit : Nat}

theorem admitBatch_ending (ts tick : Nat) (map : HydratedMap) (valid : List Survivor) (listed : List Position) :
    admitBatch world (filter.ending ts) limit tick map valid listed = admitBatch world filter limit tick map valid listed := by
  induction listed generalizing tick map valid with
  | nil => rfl
  | cons position rest ih =>
    unfold admitBatch
    simp only [ih]
    rfl

theorem hydrateAndAdmit_ending (ts tick : Nat) (valid : List Survivor) (listed : List Position) :
    hydrateAndAdmit codec dictCache world (filter.ending ts) limit tick valid listed =
      hydrateAndAdmit codec dictCache world filter limit tick valid listed := by
  unfold hydrateAndAdmit
  simp only [admitBatch_ending]

theorem queryRound_ending (ts : Nat) {state : QueryState} (bounded : state.roundBoundary.isSome = true) :
    queryRound codec dictCache world (filter.ending ts) batchSize limit state =
      queryRound codec dictCache world filter batchSize limit state := by
  obtain ⟨bound,given⟩ := Option.isSome_iff_exists.mp bounded
  have keys : roundStartKeys (filter.ending ts) state.roundBoundary = roundStartKeys filter state.roundBoundary := by
    rw [given]
    rfl
  unfold queryRound
  simp only [keys,hydrateAndAdmit_ending]
  rfl

theorem queryRound_bounded {state next : QueryState} (history : History codec dictCache)
    (ran : queryRound codec dictCache history.world filter batchSize limit state = .ok (.again next)) :
    next.roundBoundary.isSome = true := by
  rcases queryRound_cases ran with stops | merges
  · cases stops.2
  · obtain ⟨results,middle,valid,after,_,_,same⟩ := merges
    obtain ⟨rfl,_,active,_⟩ := concludeRound_again same.symm
    have full : emitLimitOf limit ≤ results.length := by simpa using active
    have some_limit := emitLimit_positive limit
    have some_results : positions results ≠ [] := by
      intro empty
      have count : (positions results).length = results.length := by simp [positions]
      rw [empty,List.length_nil] at count
      omega
    rw [List.getLast?_eq_some_getLast some_results]
    rfl

theorem queryLoop_ending (ts : Nat) (history : History codec dictCache) (fuel : Nat) {state : QueryState}
    (bounded : state.roundBoundary.isSome = true) :
    queryLoop codec dictCache history.world (filter.ending ts) batchSize limit fuel state =
      queryLoop codec dictCache history.world filter batchSize limit fuel state := by
  induction fuel generalizing state with
  | zero => rfl
  | succ fuel ih =>
    unfold queryLoop
    rw [queryRound_ending ts bounded]
    cases round : queryRound codec dictCache history.world filter batchSize limit state with
    | error error => rfl
    | ok outcome =>
      cases outcome with
      | stop last => rfl
      | again next => exact ih (queryRound_bounded history round)

theorem executeQuery_ending (ts : Nat) (history : History codec dictCache) (tick : Nat) (cursor : PageCursor) :
    executeQueryInternal codec dictCache history.world (filter.ending ts) tick (some cursor) batchSize =
      executeQueryInternal codec dictCache history.world filter tick (some cursor) batchSize := by
  unfold executeQueryInternal
  have limits : effectiveLimit (filter.ending ts) = effectiveLimit filter := rfl
  rw [limits]
  dsimp only
  rw [queryLoop_ending ts history MAX_ROUNDS rfl]

end Ending

section Narrowing

-- No stored key of a lower value begins with the bytes of a value that is asked for.
def Guarded (history : History codec dictCache) (filter : NostrFilter) : Prop :=
  ∀ value ∈ filter.values, ∀ t, GuardClean ((history.world t).env.index filter.indexName) value

theorem Guarded.clean {history : History codec dictCache} (guarded : Guarded history filter) (ts : Nat) :
    Clean history (filter.ending ts) := fun value known => .inl (guarded value known)

def alone (event : StoredEvent codec dictCache) : Snapshot codec dictCache := ⟨[event],List.nodup_singleton _⟩

-- An event that the cursor lets in, by all that the code goes by.
structure LetIn (filter : NostrFilter) (cursor : PageCursor) (event : StoredEvent codec dictCache) (decoded : DecodedEvent) : Prop where
  decodes : event.decode = .ok decoded
  sifted : Sifted filter decoded.event
  routed : Routed filter event
  below : event.position.rank < cursor.position.rank
  guarded : Guarded (still (alone event) 0) filter

-- Whatever the cursor lets in is not above the until of the filter.
def Narrow (codec : Codec) (dictCache : DictCache) (filter : NostrFilter) (cursor : PageCursor) : Prop :=
  ∀ ts, filter.untilTs = some ts → ∀ (event : StoredEvent codec dictCache) (decoded : DecodedEvent),
    LetIn filter cursor event decoded → event.createdAt ≤ ts

theorem below_date {event : StoredEvent codec dictCache} {cursor : PageCursor} (below : event.position.rank < cursor.position.rank) :
    event.createdAt ≤ cursor.createdAt := by
  rcases Position.rank_lt.mp below with less | same
  · exact less.le
  · exact same.1.le

-- A cursor within the range of the filter is narrow.
theorem narrow_inside {cursor : PageCursor} (inside : ∀ ts, filter.untilTs = some ts → cursor.createdAt ≤ ts) :
    Narrow codec dictCache filter cursor :=
  fun ts given _ _ admitted => (below_date admitted.below).trans (inside ts given)

theorem guarded_alone {history : History codec dictCache} (guarded : Guarded history filter) {t : Nat}
    {event : StoredEvent codec dictCache} (stored : event ∈ (history.snapshot t).events) :
    Guarded (still (alone event) 0) filter := by
  intro value known s entry listed lower
  obtain ⟨only,inside,listing⟩ := mem_history_index.mp listed
  have same : only = event := List.mem_singleton.mp inside
  rw [same] at listing
  exact guarded value known t entry (mem_history_index.mpr ⟨event,stored,listing⟩) lower

theorem executeQuery_let {history : History codec dictCache} (guarded : Guarded history filter) {cursor : PageCursor}
    (small : cursor.createdAt < 2^64) {tick : Nat} {page : QueryPage}
    (ran : executeQuery codec dictCache history.world filter tick (some cursor) = .ok page) {decoded : DecodedEvent}
    (member : decoded ∈ page.events) : ∃ event : StoredEvent codec dictCache, LetIn filter cursor event decoded := by
  unfold executeQuery at ran
  rw [← executeQuery_ending cursor.createdAt] at ran
  have inside : InRange (filter.ending cursor.createdAt) (some cursor) := by
    intro place given
    cases given
    exact Nat.le_refl _
  have paged := executeQuery_page (by decide) (guarded.clean cursor.createdAt) small inside ran
  obtain ⟨survivor,here,rfl⟩ := List.mem_map.mp member
  obtain ⟨⟨t,_,event,stored,place,decodes,routed⟩,fits,_⟩ := paged.genuine survivor here
  have below := paged.inside survivor here cursor.position rfl
  rw [← place] at below
  exact ⟨event,decodes,((matches_sifted _).mp fits).1,routed,below,guarded_alone guarded stored⟩

theorem unexpired_zero (event : NostrEvent) : isExpired 0 event = false := by
  unfold isExpired
  apply List.any_eq_false.mpr
  intro tag member
  split
  · split <;> simp
  · simp

-- A store of nothing but an event that passes the residual hands it out, once the merge lists it.
theorem alone_returned {cursor : Option PageCursor} {event : StoredEvent codec dictCache} {decoded : DecodedEvent}
    {results : List Triple} {middle : Nat} (decodes : event.decode = .ok decoded) (fits : residual filter decoded.event = true)
    (some_values : filter.values ≠ [])
    (merged : mergeWindowed filter.indexName DEFAULT_WINDOW_SIZE (filter.since.getD 0) (cursor.map PageCursor.position)
      (still (alone event) 0).world 0 (roundStartKeys filter (cursor.map PageCursor.position))
      (emitLimitOf (effectiveLimit filter)) = (results,middle))
    (here : event.position ∈ positions results) (below : Below (cursor.map PageCursor.position) event.position) :
    ∃ page, executeQuery codec dictCache (still (alone event) 0).world filter 0 cursor = .ok page ∧ decoded ∈ page.events := by
  obtain ⟨page,ran⟩ := (@still_succeeds _ _ filter DEFAULT_WINDOW_SIZE) (alone event) 0 (by decide) 0 cursor
  refine ⟨page,ran,?_⟩
  have some_keys : roundStartKeys filter (cursor.map PageCursor.position) ≠ [] := by
    intro empty
    obtain ⟨value,known⟩ := List.exists_mem_of_ne_nil _ some_values
    obtain ⟨values,_,same,keys⟩ := roundStartKeys_values filter (cursor.map PageCursor.position)
    rw [empty,eq_comm,List.map_eq_nil_iff] at keys
    rw [← same,keys] at known
    cases known
  obtain ⟨final,looped,_⟩ := executeQueryInternal_ran ran
  obtain ⟨outcome,round⟩ : ∃ outcome, queryRound codec dictCache (still (alone event) 0).world filter DEFAULT_WINDOW_SIZE
      (effectiveLimit filter) (queryStart 0 cursor) = .ok outcome := by
    rcases queryLoop_cases looped with round | ⟨next,round,_⟩
    · exact ⟨_,round⟩
    · exact ⟨_,round⟩
  have scans : Scans codec dictCache (still (alone event) 0).world filter DEFAULT_WINDOW_SIZE (effectiveLimit filter)
      (queryStart 0 cursor) event.position middle outcome.state.tick := by
    refine .now some_keys merged (List.mem_filter.mpr ⟨here,?_⟩) round
    have kept : excludedBy (cursor.map PageCursor.position) event.position = false := excludedBy_exact.mpr below
    change (!excludedBy (cursor.map PageCursor.position) event.position) = true
    rw [kept]
    rfl
  obtain ⟨read,complete⟩ := (executeQuery_kept (show 0 < DEFAULT_WINDOW_SIZE by decide)).2 page ran
  rcases complete event decoded _ _ scans ⟨⟨0,List.mem_singleton_self _⟩,decodes,fits,fun _ _ _ => unexpired_zero _⟩
    with returned | full
  · obtain ⟨survivor,inside,_,same⟩ := returned
    exact List.mem_map.mpr ⟨survivor,inside,same⟩
  · have room := effectiveLimit_positive filter
    obtain ⟨survivor,inside⟩ := List.exists_mem_of_length_pos (by omega : 0 < page.valid.length)
    obtain ⟨t,_,other,stored,_,others⟩ := read survivor inside
    rw [List.mem_singleton.mp stored,decodes] at others
    exact List.mem_map.mpr ⟨survivor,inside,(Except.ok.inj others).symm⟩

-- A store of nothing but such an event hands it out.
theorem let_returned {cursor : PageCursor} (small : cursor.createdAt < 2^64) {event : StoredEvent codec dictCache}
    {decoded : DecodedEvent} (admitted : LetIn filter cursor event decoded) :
    ∃ page, executeQuery codec dictCache (still (alone event) 0).world filter 0 (some cursor) = .ok page ∧ decoded ∈ page.events := by
  have only {t : Nat} {other : StoredEvent codec dictCache} (stored : other ∈ ((still (alone event) 0).snapshot t).events) :
      other = event := List.mem_singleton.mp stored
  have fits : (filter.ending cursor.createdAt).Matches decoded.event := by
    refine (matches_sifted _).mpr ⟨admitted.sifted,?_⟩
    intro ts given
    cases given
    obtain ⟨_,_,date,_⟩ := event.faithful _ admitted.decodes
    rw [date]
    exact below_date admitted.below
  have lasting (first last : Nat) : Lasting (still (alone event) 0) (filter.ending cursor.createdAt) first last event decoded :=
    ⟨fun _ _ _ => List.mem_singleton_self _,admitted.decodes,fits,fun _ _ _ => unexpired_zero _,admitted.routed⟩
  have below : Below (some cursor.position) event.position := by
    intro bound given
    cases given
    exact admitted.below
  have listed : ∃ results middle, mergeWindowed filter.indexName DEFAULT_WINDOW_SIZE (filter.since.getD 0)
      (some cursor.position) (still (alone event) 0).world 0 (roundStartKeys filter (some cursor.position))
      (emitLimitOf (effectiveLimit filter)) = (results,middle) ∧ event.position ∈ positions results := by
    rcases merged : mergeWindowed filter.indexName DEFAULT_WINDOW_SIZE (filter.since.getD 0) (some cursor.position)
      (still (alone event) 0).world 0 (roundStartKeys filter (some cursor.position)) (emitLimitOf (effectiveLimit filter))
      with ⟨results,middle⟩
    refine ⟨results,middle,rfl,?_⟩
    have listing : Listed (still (alone event) 0) (filter.ending cursor.createdAt) (some cursor.position)
        (emitLimitOf (effectiveLimit filter)) 0 (positions results) middle := by
      apply merge_listed (by decide) (admitted.guarded.clean cursor.createdAt) small _ merged
      intro bound given
      cases given
      exact Nat.le_refl _
    rcases listing.complete event decoded (lasting 0 middle) below with here | full
    · exact here
    · obtain ⟨count,above⟩ := full
      have some_limit := emitLimit_positive (effectiveLimit filter)
      obtain ⟨first,rest,whole⟩ := List.exists_cons_of_length_pos (by omega : 0 < (positions results).length)
      have inside : first ∈ positions results := by
        rw [whole]
        exact List.mem_cons_self ..
      obtain ⟨t,_,other,stored,place,_⟩ := listing.stored first inside
      have less := above first inside
      rw [← place,only stored] at less
      exact absurd less (lt_irrefl _)
  obtain ⟨results,middle,merged,here⟩ := listed
  obtain ⟨value,known,_⟩ := admitted.routed
  exact (@alone_returned _ _ filter (some cursor)) admitted.decodes admitted.sifted.1 (List.ne_nil_of_mem known) merged here below

theorem cursor_narrows (filter : NostrFilter) (cursor : PageCursor) (small : cursor.createdAt < 2^64) :
    (∀ (history : History codec dictCache) (tick : Nat) (page : QueryPage),
      executeQuery codec dictCache history.world filter tick (some cursor) = .ok page →
      ∀ decoded ∈ page.events, Sifted filter decoded.event) ∧
    ((∀ (history : History codec dictCache), Guarded history filter → ∀ (tick : Nat) (page : QueryPage),
      executeQuery codec dictCache history.world filter tick (some cursor) = .ok page →
      ∀ decoded ∈ page.events, filter.Matches decoded.event) ↔ Narrow codec dictCache filter cursor) := by
  refine ⟨fun history tick page ran => executeQuery_sifted ran,?_,?_⟩
  · intro narrows ts given event decoded admitted
    obtain ⟨page,ran,member⟩ := let_returned small admitted
    have fits := narrows _ admitted.guarded 0 page ran decoded member
    obtain ⟨_,_,date,_⟩ := event.faithful _ admitted.decodes
    rw [← date]
    exact fits.untilTs ts given
  · intro narrow history guarded tick page ran decoded member
    obtain ⟨event,admitted⟩ := executeQuery_let guarded small ran member
    refine (matches_sifted _).mpr ⟨admitted.sifted,?_⟩
    intro ts given
    obtain ⟨_,_,date,_⟩ := event.faithful _ admitted.decodes
    rw [date]
    exact narrow ts given event decoded admitted

-- A note of second 6, a filter that ends at second 5, and a cursor of second 10.
abbrev lateNotes : List NostrEvent := [sampleNote 1 6 []]
def lateSample : StoredEvent (noteCodec lateNotes) noDicts := sampleEvent lateNotes 1 6 [] dated_six (by decide +kernel)
def lateFilter : NostrFilter := {untilTs := some 5}
def lateCursor : PageCursor := ⟨10,0⟩

theorem cursor_narrows_late :
    (∀ (history : History (noteCodec lateNotes) noDicts) (tick : Nat) (page : QueryPage),
      executeQuery (noteCodec lateNotes) noDicts history.world lateFilter tick (some lateCursor) = .ok page →
      ∀ decoded ∈ page.events, Sifted lateFilter decoded.event) ∧
    ((∀ (history : History (noteCodec lateNotes) noDicts), Guarded history lateFilter → ∀ (tick : Nat) (page : QueryPage),
      executeQuery (noteCodec lateNotes) noDicts history.world lateFilter tick (some lateCursor) = .ok page →
      ∀ decoded ∈ page.events, lateFilter.Matches decoded.event) ↔ Narrow (noteCodec lateNotes) noDicts lateFilter lateCursor) :=
  cursor_narrows lateFilter lateCursor (by decide)

-- The note is refused without the cursor and handed out with it.
theorem cursor_narrows_fails : ∃ refused admitted,
    executeQuery (noteCodec lateNotes) noDicts (still (alone lateSample) 100).world lateFilter 0 none = .ok refused ∧
    refused.events = [] ∧
    executeQuery (noteCodec lateNotes) noDicts (still (alone lateSample) 100).world lateFilter 0 (some lateCursor) = .ok admitted ∧
    ∃ decoded ∈ admitted.events, ¬ lateFilter.Matches decoded.event := by
  obtain ⟨refused,first⟩ := (@still_succeeds _ _ lateFilter DEFAULT_WINDOW_SIZE) (alone lateSample) 100 (by decide) 0 none
  obtain ⟨admitted,second⟩ := (@still_succeeds _ _ lateFilter DEFAULT_WINDOW_SIZE) (alone lateSample) 100 (by decide) 0 (some lateCursor)
  have none_shown : (executeQuery (noteCodec lateNotes) noDicts (still (alone lateSample) 100).world lateFilter 0 none).toOption.map
      QueryPage.events = some [] := by decide +kernel
  have late_shown : (executeQuery (noteCodec lateNotes) noDicts (still (alone lateSample) 100).world lateFilter 0
      (some lateCursor)).toOption.map (fun page => page.events.map fun decoded => decoded.event.createdAt) = some [6] := by
    decide +kernel
  rw [show executeQuery (noteCodec lateNotes) noDicts (still (alone lateSample) 100).world lateFilter 0 none = .ok refused from first]
    at none_shown
  rw [show executeQuery (noteCodec lateNotes) noDicts (still (alone lateSample) 100).world lateFilter 0 (some lateCursor) =
    .ok admitted from second] at late_shown
  refine ⟨refused,admitted,first,Option.some.inj none_shown,second,?_⟩
  have dates : admitted.events.map (fun decoded => decoded.event.createdAt) = [6] := Option.some.inj late_shown
  have inside : 6 ∈ admitted.events.map fun decoded => decoded.event.createdAt := by
    rw [dates]
    exact List.mem_singleton_self _
  obtain ⟨decoded,member,late⟩ := List.mem_map.mp inside
  refine ⟨decoded,member,?_⟩
  intro fits
  have early := fits.untilTs 5 rfl
  omega

end Narrowing

end DeepFry.Query
