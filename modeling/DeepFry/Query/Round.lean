import DeepFry.Query.Admission
import DeepFry.Query.MergeRun
import DeepFry.Query.Routing

namespace DeepFry.Query
open Lmdb Bytes
variable {codec : Codec} {dictCache : DictCache}

abbrev NostrFilter.indexName (filter : NostrFilter) : IndexName := (selectIndex filter).shortName
abbrev NostrFilter.values (filter : NostrFilter) : List Bytes := startValues filter (selectIndex filter)
abbrev NostrFilter.upper (filter : NostrFilter) : Nat := filter.untilTs.getD u64Max

-- Positions strictly below a boundary; every position is below an absent one.
def Below (boundary : Option Position) (position : Position) : Prop :=
  ∀ bound, boundary = some bound → position.rank < bound.rank

theorem excludedBy_exact {boundary : Option Position} {position : Position} :
    excludedBy boundary position = false ↔ Below boundary position := by
  cases boundary with
  | none => simp [excludedBy,Below]
  | some bound =>
    simp only [excludedBy,Below,Option.some.injEq,forall_eq',Position.rank_lt,
      Bool.or_eq_false_iff,Bool.and_eq_false_iff,decide_eq_false_iff_not,beq_eq_false_iff_ne]
    grind

theorem Below.trans {boundary : Option Position} {position lower : Position} (below : Below boundary position)
    (less : lower.rank ≤ position.rank) : Below boundary lower :=
  fun bound same => less.trans_lt (below bound same)

-- The index of the filter lists the event under one of the values the filter is routed to.
def Routed (filter : NostrFilter) (event : StoredEvent codec dictCache) : Prop :=
  ∃ value ∈ filter.values, value ∈ event.values filter.indexName

-- An event that a query over the ticks from start to stop has to return.
structure Lasting (history : History codec dictCache) (filter : NostrFilter) (start stop : Nat)
    (event : StoredEvent codec dictCache) (decoded : DecodedEvent) : Prop where
  stored : ∀ t, start ≤ t → t < stop → event ∈ (history.snapshot t).events
  decodes : event.decode = .ok decoded
  fits : filter.Matches decoded.event
  unexpired : ∀ t, start ≤ t → t < stop → isExpired (history.now t) decoded.event = false
  routed : Routed filter event

-- A returned event with its position: it was stored and listed, it decodes and matches the
-- filter, and a reading of the clock found it unexpired.
structure Genuine (history : History codec dictCache) (filter : NostrFilter) (start : Nat)
    (survivor : Survivor) : Prop where
  stored : ∃ t, start ≤ t ∧ ∃ event ∈ (history.snapshot t).events,
    event.position = survivor.1 ∧ event.decode = .ok survivor.2 ∧ Routed filter event
  fits : filter.Matches survivor.2.event
  unexpired : ∃ t, start ≤ t ∧ isExpired (history.now t) survivor.2.event = false

def Clean (history : History codec dictCache) (filter : NostrFilter) : Prop :=
  ∀ value ∈ filter.values, Separated filter.indexName history.world value

variable {history : History codec dictCache} {filter : NostrFilter}

theorem Lasting.narrow {start stop first last : Nat} {event : StoredEvent codec dictCache} {decoded : DecodedEvent}
    (lasting : Lasting history filter start stop event decoded) (late : start ≤ first) (early : last ≤ stop) :
    Lasting history filter first last event decoded :=
  ⟨fun t after before => lasting.stored t (late.trans after) (before.trans_le early),lasting.decodes,lasting.fits,
    fun t after before => lasting.unexpired t (late.trans after) (before.trans_le early),lasting.routed⟩

theorem Genuine.earlier {start first : Nat} {survivor : Survivor} (genuine : Genuine history filter start survivor)
    (early : first ≤ start) : Genuine history filter first survivor := by
  obtain ⟨⟨t,late,rest⟩,fits,s,after,unexpired⟩ := genuine
  exact ⟨⟨t,early.trans late,rest⟩,fits,s,early.trans after,unexpired⟩

theorem Genuine.upper {start : Nat} {survivor : Survivor} (genuine : Genuine history filter start survivor) :
    survivor.1.1 ≤ filter.upper := by
  obtain ⟨⟨_,_,event,_,same,decodes,_⟩,fits,_⟩ := genuine
  obtain ⟨_,_,date,_⟩ := event.faithful _ decodes
  rw [← same]
  change event.createdAt ≤ _
  cases given : filter.untilTs with
  | none =>
    simp only [NostrFilter.upper,given,Option.getD_none]
    exact event.dated.le
  | some ts =>
    have late := fits.untilTs ts given
    rw [date] at late
    simpa [NostrFilter.upper,given] using late

section Batch
variable {batchSize emitLimit tick after : Nat} {boundary : Option Position} {results : List Triple}

def positions (results : List Triple) : List Position := results.map fun entry => (entry.1,entry.2.1)

-- What one merge of the query loop lists below its boundary.
structure Listed (history : History codec dictCache) (filter : NostrFilter) (boundary : Option Position)
    (emitLimit tick : Nat) (listed : List Position) (after : Nat) : Prop where
  later : tick ≤ after
  falling : listed.Pairwise fun a b => b.rank ≤ a.rank
  below : ∀ position ∈ listed, Below boundary position
  stored : ∀ position ∈ listed, ∃ t, tick ≤ t ∧ ∃ event ∈ (history.snapshot t).events,
    event.position = position ∧ filter.since.getD 0 ≤ event.createdAt ∧ event.createdAt ≤ filter.upper ∧
      Routed filter event
  complete : ∀ event decoded, Lasting history filter tick after event decoded → Below boundary event.position →
    event.position ∈ listed ∨ listed.length = emitLimit ∧ ∀ position ∈ listed, event.position.rank < position.rank

theorem position_triple (event : StoredEvent codec dictCache) (value : Bytes) :
    triple (compositeKey value event.createdAt,event.levId) =
      (event.createdAt,event.levId,compositeKey value event.createdAt) := by
  rw [triple,composite_createdAt value (event.dated.trans (by decide))]

theorem roundStartKeys_values (filter : NostrFilter) (boundary : Option Position) :
    ∃ values : List Bytes, values.Nodup ∧ (∀ value, value ∈ values ↔ value ∈ filter.values) ∧
      roundStartKeys filter boundary =
        values.map (compositeKey · ((boundary.map Prod.fst).getD filter.upper)) := by
  unfold roundStartKeys
  cases boundary with
  | none => exact buildStartKeys_values {filter with untilTs := some filter.upper} (selectIndex filter)
  | some bound => exact buildStartKeys_values {filter with untilTs := some bound.1} (selectIndex filter)

theorem below_floor {boundary : Option Position} {position : Position} {key : Bytes} {upper : Nat}
    (early : position.1 ≤ upper) : Below boundary position ↔
      position.1 ≤ (boundary.map Prod.fst).getD upper ∧ floorKeeps boundary (position.1,position.2,key) = true := by
  cases boundary with
  | none => simp [Below,floorKeeps,early]
  | some bound =>
    simp only [Below,Option.some.injEq,forall_eq',Position.rank_lt,Option.map_some,
      Option.getD_some,floorKeeps,Bool.or_eq_true,bne_iff_ne,decide_eq_true_eq]
    grind

-- The exclusion of the boundary repeats what the floor and the until bound of the merge have done.
theorem merge_listed (positive : 0 < batchSize) (clean : Clean history filter) (small : filter.upper < 2^64)
    (inside : ∀ bound, boundary = some bound → bound.1 ≤ filter.upper)
    (merged : mergeWindowed filter.indexName batchSize (filter.since.getD 0) boundary history.world tick
      (roundStartKeys filter boundary) emitLimit = (results,after)) :
    Listed history filter boundary emitLimit tick (positions results) after := by
  obtain ⟨values,distinct,same,keys⟩ := roundStartKeys_values filter boundary
  have cap : (boundary.map Prod.fst).getD filter.upper ≤ filter.upper := by
    cases boundary with
    | none => exact le_refl _
    | some bound => exact inside bound rfl
  rw [keys] at merged
  have run := mergeWindowed_merged positive (fun value known => startValues_layout ((same value).mp known)) distinct
    (cap.trans_lt small) (fun value known => clean value ((same value).mp known)) merged
  have origin : ∀ x ∈ results, ∃ t, tick ≤ t ∧ ∃ event ∈ (history.snapshot t).events,
      event.position = (x.1,x.2.1) ∧ filter.since.getD 0 ≤ event.createdAt ∧
        event.createdAt ≤ (boundary.map Prod.fst).getD filter.upper ∧ floorKeeps boundary x = true ∧ Routed filter event := by
    intro x member
    obtain ⟨t,late,entry,stored,value,known,wanted,early,rfl⟩ := run.sound x member
    obtain ⟨event,present,listed,owned,rfl⟩ := mem_history_index.mp stored
    have read := composite_createdAt listed (event.dated.trans (by decide : u64Max < 2^64))
    have own : listed = value := (composite_value listed event.createdAt).symm.trans wanted.own
    refine ⟨t,late,event,present,?_,?_,?_,wanted.kept,listed,?_,owned⟩
    · rw [position_triple]
      rfl
    · simpa only [read] using wanted.recent
    · simpa only [read] using early
    · rw [own]
      exact (same value).mp known
  refine ⟨run.later,?_,?_,?_,?_⟩
  · rw [positions,List.pairwise_map]
    exact run.falling.imp fun step => step.1
  · intro position member
    obtain ⟨x,here,rfl⟩ := List.mem_map.mp member
    obtain ⟨_,_,event,_,place,_,early,kept,_⟩ := origin x here
    have date : event.createdAt = x.1 := congrArg Prod.fst place
    rw [date] at early
    exact ((@below_floor _ _ x.2.2) (early.trans cap)).mpr ⟨early,kept⟩
  · intro position member
    obtain ⟨x,here,rfl⟩ := List.mem_map.mp member
    obtain ⟨t,late,event,present,place,recent,early,_,routed⟩ := origin x here
    exact ⟨t,late,event,present,place,recent,early.trans cap,routed⟩
  · intro event decoded lasting below
    obtain ⟨value,known,owned⟩ := lasting.routed
    obtain ⟨_,_,date,_⟩ := event.faithful _ lasting.decodes
    obtain ⟨_,recent,late⟩ := (matches_exact filter decoded.event).mp lasting.fits
    rw [date] at recent late
    have early : event.createdAt ≤ filter.upper := by
      cases given : filter.untilTs with
      | none => simpa [NostrFilter.upper,given] using event.dated.le
      | some ts => simpa [NostrFilter.upper,given] using late ts given
    have read := composite_createdAt value (event.dated.trans (by decide : u64Max < 2^64))
    obtain ⟨under,kept⟩ := ((@below_floor _ _ (compositeKey value event.createdAt)) early).mp below
    have wanted : Wanted filter.indexName (filter.since.getD 0) boundary value
        (compositeKey value event.createdAt,event.levId) := by
      refine ⟨⟨composite_layout (event.values_layout owned),?_⟩,composite_value _ _,?_,?_⟩
      · rw [read]
        exact event.dated
      · rw [position_triple]
        exact kept
      · rw [read]
        exact recent
    have found := run.complete value ((same value).mpr known) _ wanted (by rw [read]; exact under)
      fun t late early => mem_history_index.mpr ⟨event,lasting.stored t late early,value,owned,rfl⟩
    rw [position_triple] at found
    rcases found with member | ⟨full,above⟩
    · exact .inl (List.mem_map_of_mem member)
    · by_cases listed : event.position ∈ positions results
      · exact .inl listed
      · refine .inr ⟨by simpa [positions] using full,?_⟩
        intro position member
        obtain ⟨x,here,rfl⟩ := List.mem_map.mp member
        refine lt_of_le_of_ne (above x here) fun tied => listed ?_
        rw [show event.position = (x.1,x.2.1) from Position.rank_injective tied]
        exact member

end Batch
section Survivors
variable {emitLimit limit tick after start : Nat} {boundary : Option Position} {listed : List Position}
  {valid final : List Survivor}

-- What hydration and the residual filter add to a page from one listed batch.
structure Survived (history : History codec dictCache) (filter : NostrFilter) (limit start tick : Nat)
    (listed : List Position) (valid fresh : List Survivor) (after : Nat) : Prop where
  later : tick ≤ after
  member : ∀ survivor ∈ fresh, survivor.1 ∈ listed
  falling : fresh.Pairwise fun a b => b.1.rank < a.1.rank
  genuine : ∀ survivor ∈ fresh, Genuine history filter start survivor
  bounded : valid.length ≤ limit → (valid ++ fresh).length ≤ limit
  complete : ∀ event decoded, Lasting history filter tick after event decoded → event.position ∈ listed →
    (event.position,decoded) ∈ fresh ∨
      limit ≤ (valid ++ fresh).length ∧ ∀ survivor ∈ fresh, event.position.rank < survivor.1.rank

theorem event_upper {event : StoredEvent codec dictCache} (early : event.createdAt ≤ filter.upper) :
    ∀ ts, filter.untilTs = some ts → event.createdAt ≤ ts := by
  intro ts given
  simpa [NostrFilter.upper,given] using early

theorem Admitted.survived (listing : Listed history filter boundary emitLimit start listed tick)
    {pairs : List (LevId × DecodedEvent)} {read : Nat} {fresh : List Survivor}
    (hydrated : Hydrated history tick (listed.map Prod.snd) pairs read)
    (admitted : Admitted history.world filter limit (fun a b => b.rank ≤ a.rank) read (hydratedMap pairs) valid listed
      fresh after) : Survived history filter limit start tick listed valid fresh after := by
  have first := hydrated.later
  have second := admitted.later
  have member : ∀ survivor ∈ fresh, survivor.1 ∈ listed :=
    fun survivor here => admitted.listed.subset (List.mem_map_of_mem here)
  have origin : ∀ survivor ∈ fresh, ∃ t, start ≤ t ∧ ∃ event ∈ (history.snapshot t).events,
      event.position = survivor.1 ∧ event.decode = .ok survivor.2 ∧ filter.since.getD 0 ≤ event.createdAt ∧
        event.createdAt ≤ filter.upper ∧ Routed filter event := by
    intro survivor here
    obtain ⟨t,late,event,stored,place,range⟩ := listing.stored _ (member survivor here)
    obtain ⟨s,_,other,present,named,decodes⟩ :=
      hydrated.stored _ (hydrated.map_exact.mp (admitted.checked survivor here).1)
    have same : other = event :=
      history.named s t other present event stored (named.trans (congrArg Prod.snd place).symm)
    rw [same] at decodes
    exact ⟨t,late,event,stored,place,decodes,range⟩
  refine ⟨by omega,member,?_,?_,admitted.bounded,?_⟩
  · have weak : fresh.Pairwise fun a b => b.1.rank ≤ a.1.rank :=
      List.pairwise_map.mp (listing.falling.sublist admitted.listed)
    refine (weak.and admitted.distinct).imp ?_
    rintro a b ⟨under,apart⟩
    exact lt_of_le_of_ne under fun tied => apart (congrArg Prod.snd (Position.rank_injective tied)).symm
  · intro survivor here
    obtain ⟨t,late,event,stored,place,decodes,recent,early,routed⟩ := origin survivor here
    obtain ⟨_,passes,s,after_read,_,unexpired⟩ := admitted.checked survivor here
    obtain ⟨_,_,date,_⟩ := event.faithful _ decodes
    refine ⟨⟨t,late,event,stored,place,decodes,routed⟩,?_,s,?_,unexpired⟩
    · rw [matches_exact,date]
      exact ⟨passes,recent,event_upper early⟩
    · exact (listing.later.trans first).trans after_read
  · intro event decoded lasting here
    have some_reads : 0 < (listed.map Prod.snd).length := List.length_pos_of_mem (List.mem_map_of_mem here)
    have spent := hydrated.spent
    have pair := hydrated.kept tick event (lasting.stored tick (le_refl _) (by omega)) decoded
      (List.mem_map_of_mem here) lasting.decodes
    have found := hydrated.map_exact.mpr pair
    rcases admitted.complete _ here decoded found ((matches_exact filter decoded.event).mp lasting.fits).1
      (fun t late early => lasting.unexpired t (by omega) early) with ⟨survivor,inside,levId,same⟩ | ⟨full,before⟩
    · obtain ⟨t,_,other,stored,place,decodes,_⟩ := origin survivor inside
      rw [same] at decodes
      have date : other.createdAt = event.createdAt :=
        (other.faithful _ decodes).2.2.1.symm.trans (event.faithful _ lasting.decodes).2.2.1
      have spot : survivor.1 = event.position := by
        rw [← place]
        exact Prod.ext date ((congrArg Prod.snd place).trans levId)
      rw [← spot,← same]
      exact .inl inside
    · by_cases kept : (event.position,decoded) ∈ fresh
      · exact .inl kept
      · refine .inr ⟨full,fun survivor inside => lt_of_le_of_ne (before survivor inside) fun tied => kept ?_⟩
        have spot : event.position = survivor.1 := Position.rank_injective tied
        have known := (admitted.checked survivor inside).1
        rw [← spot] at known
        have same : decoded = survivor.2 := Option.some.inj (found.symm.trans known)
        rw [spot,same]
        exact inside

theorem hydrateAndAdmit_survived (listing : Listed history filter boundary emitLimit start listed tick)
    (ran : hydrateAndAdmit codec dictCache history.world filter limit tick valid listed = .ok (final,after)) :
    ∃ fresh, final = valid ++ fresh ∧ Survived history filter limit start tick listed valid fresh after := by
  rcases hydrateAndAdmit_cases ran with ⟨rfl,rfl,rfl⟩ | ⟨pairs,middle,read,ran⟩
  · exact ⟨[],by simp,le_refl _,by simp,.nil,by simp,by simp,by simp⟩
  · obtain ⟨fresh,finish,run,admitted⟩ := (@admitBatch_admitted history.world filter limit) listing.falling middle (hydratedMap pairs) valid
    obtain ⟨rfl,rfl⟩ := Prod.mk.inj (ran.symm.trans run)
    exact ⟨fresh,rfl,admitted.survived listing (hydrateLevIds_hydrated read)⟩

end Survivors

section Page
variable {origin : Option Position} {start limit : Nat}

-- A page below its cursor: newest first, no false event, and an event it had to return is either
-- on it or below the cursor it hands out.
structure PageOf (history : History codec dictCache) (filter : NostrFilter) (origin : Option Position)
    (start : Nat) (page : QueryPage) : Prop where
  later : start ≤ page.tick
  falling : page.valid.Pairwise fun a b => b.1.rank < a.1.rank
  inside : ∀ survivor ∈ page.valid, Below origin survivor.1
  genuine : ∀ survivor ∈ page.valid, Genuine history filter start survivor
  descends : ∀ cursor, page.nextCursor = some cursor → Below origin (cursor.createdAt,cursor.levId) ∧
    cursor.createdAt ≤ filter.upper ∧
      ∀ survivor ∈ page.valid, Position.rank (cursor.createdAt,cursor.levId) ≤ survivor.1.rank
  complete : ∀ event decoded, Lasting history filter start page.tick event decoded → Below origin event.position →
    (event.position,decoded) ∈ page.valid ∨
      ∃ cursor, page.nextCursor = some cursor ∧ event.position.rank < Position.rank (cursor.createdAt,cursor.levId)

-- The loop head: the events found so far lie between the query's cursor and the round boundary,
-- and whatever is still missing lies below the boundary.
structure Open (history : History codec dictCache) (filter : NostrFilter) (origin : Option Position)
    (start limit : Nat) (state : QueryState) : Prop where
  later : start ≤ state.tick
  running : state.exhausted = false
  short : state.valid.length < limit
  falling : state.valid.Pairwise fun a b => b.1.rank < a.1.rank
  inside : ∀ survivor ∈ state.valid, Below origin survivor.1
  genuine : ∀ survivor ∈ state.valid, Genuine history filter start survivor
  above : ∀ survivor ∈ state.valid, ∀ position, Below state.roundBoundary position →
    position.rank < survivor.1.rank
  descended : ∀ position, Below state.roundBoundary position → Below origin position
  upper : ∀ bound, state.roundBoundary = some bound → bound.1 ≤ filter.upper
  scanned : ∀ deepest, state.deepestScanned = some deepest → Below origin deepest ∧ deepest.1 ≤ filter.upper
  covered : ∀ event decoded, Lasting history filter start state.tick event decoded → Below origin event.position →
    (event.position,decoded) ∈ state.valid ∨ Below state.roundBoundary event.position

-- A state the loop stops in: what is missing has been left for the next page.
structure Stopped (history : History codec dictCache) (filter : NostrFilter) (origin : Option Position)
    (start limit : Nat) (state : QueryState) : Prop where
  later : start ≤ state.tick
  bounded : state.valid.length ≤ limit
  falling : state.valid.Pairwise fun a b => b.1.rank < a.1.rank
  inside : ∀ survivor ∈ state.valid, Below origin survivor.1
  genuine : ∀ survivor ∈ state.valid, Genuine history filter start survivor
  scanned : ∀ deepest, state.deepestScanned = some deepest → Below origin deepest ∧ deepest.1 ≤ filter.upper
  covered : ∀ event decoded, Lasting history filter start state.tick event decoded → Below origin event.position →
    (event.position,decoded) ∈ state.valid ∨ (state.valid.length = limit ∨ state.exhausted = false) ∧
      (∀ survivor ∈ state.valid, event.position.rank < survivor.1.rank) ∧
      (state.valid = [] → ∃ deepest, state.deepestScanned = some deepest ∧ event.position.rank < deepest.rank)

theorem last_lowest {valid : List Survivor} (falling : valid.Pairwise fun a b => b.1.rank < a.1.rank)
    {last : Survivor} (final : valid.getLast? = some last) {survivor : Survivor} (member : survivor ∈ valid) :
    last.1.rank ≤ survivor.1.rank := by
  obtain ⟨front,rfl⟩ := List.getLast?_eq_some_iff.mp final
  rcases List.mem_append.mp member with earlier | here
  · exact ((List.pairwise_append.mp falling).2.2 survivor earlier last (by simp)).le
  · rw [List.mem_singleton.mp here]

-- The three places a cursor comes from.
theorem nextCursor_cases {state : QueryState} {cursor : PageCursor}
    (given : nextCursorOf limit state state.valid = some cursor) :
    (∃ last, state.valid.getLast? = some last ∧ cursor = ⟨last.1.1,last.1.2⟩) ∨
      state.valid = [] ∧ ∃ deepest, state.deepestScanned = some deepest ∧ cursor = ⟨deepest.1,deepest.2⟩ := by
  have from_last : state.valid.getLast?.map (fun survivor => (⟨survivor.1.1,survivor.1.2⟩ : PageCursor)) = some cursor →
      ∃ last, state.valid.getLast? = some last ∧ cursor = ⟨last.1.1,last.1.2⟩ := by
    intro same
    obtain ⟨last,final,equal⟩ := Option.map_eq_some_iff.mp same
    exact ⟨last,final,equal.symm⟩
  unfold nextCursorOf at given
  split at given
  · exact .inl (from_last given)
  · split at given
    · exact .inl (from_last given)
    · split at given
      · rename_i empty
        obtain ⟨deepest,scanned,equal⟩ := Option.map_eq_some_iff.mp given
        exact .inr ⟨by simpa using (Bool.and_eq_true_iff.mp empty).1,deepest,scanned,equal.symm⟩
      · cases given

theorem nextCursor_last {state : QueryState}
    (open_end : state.valid.length = limit ∨ state.exhausted = false)
    {last : Survivor} (final : state.valid.getLast? = some last) :
    nextCursorOf limit state state.valid = some ⟨last.1.1,last.1.2⟩ := by
  have some_valid : state.valid ≠ [] := by
    intro empty
    rw [empty] at final
    cases final
  unfold nextCursorOf
  by_cases full : state.valid.length = limit
  · simp [full,final]
  · have active := open_end.resolve_left full
    simp [full,active,some_valid,final]

theorem nextCursor_deepest (positive : 0 < limit) {state : QueryState} (empty : state.valid = [])
    (active : state.exhausted = false) {deepest : Position} (scanned : state.deepestScanned = some deepest) :
    nextCursorOf limit state state.valid = some ⟨deepest.1,deepest.2⟩ := by
  simp [nextCursorOf,empty,active,scanned,positive.ne]

theorem Stopped.page {state : QueryState} (stopped : Stopped history filter origin start limit state)
    (positive : 0 < limit) : PageOf history filter origin start
      ⟨state.valid.take limit,nextCursorOf limit state (state.valid.take limit),state.tick⟩ := by
  rw [List.take_of_length_le stopped.bounded]
  refine ⟨stopped.later,stopped.falling,stopped.inside,stopped.genuine,?_,?_⟩
  · intro cursor given
    rcases nextCursor_cases given with ⟨last,final,rfl⟩ | ⟨empty,deepest,scanned,rfl⟩
    · have member := List.mem_of_getLast? final
      exact ⟨stopped.inside last member,(stopped.genuine last member).upper,
        fun survivor here => last_lowest stopped.falling final here⟩
    · obtain ⟨below,upper⟩ := stopped.scanned deepest scanned
      exact ⟨below,upper,by simp [empty]⟩
  · intro event decoded lasting below
    rcases stopped.covered event decoded lasting below with found | ⟨open_end,under,deeper⟩
    · exact .inl found
    · refine .inr ?_
      cases final : state.valid.getLast? with
      | some last =>
        exact ⟨_,nextCursor_last open_end final,under last (List.mem_of_getLast? final)⟩
      | none =>
        have empty := List.getLast?_eq_none_iff.mp final
        obtain ⟨deepest,scanned,less⟩ := deeper empty
        have active := open_end.resolve_left (by rw [empty]; exact positive.ne)
        exact ⟨_,nextCursor_deepest positive empty active scanned,less⟩

end Page
end DeepFry.Query
