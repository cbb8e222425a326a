import DeepFry.Query.MergeExact

namespace DeepFry.Query
open Lmdb Bytes
variable {name : IndexName} {batchSize : Nat} {env : Env} {stream next : StreamState} {entry : Entry}

-- A stored entry that the guard does not keep from the stream: from the top of what the stream
-- still reads down to the entry, every key starts with the bytes of the stream's value.
structure Imitates (index : Index name) (stream : StreamState) (entry : Entry) : Prop where
  stored : entry ∈ index.entries
  within : stream.scope name entry.1
  passed : ∀ other ∈ index.entries, stream.scope name other.1 →
    name.keyRank entry.1 ≤ name.keyRank other.1 → stream.guard other = true

-- The stream will show the entry, whatever it shows before.
def Promised (index : Index name) (entry : Entry) (stream : StreamState) : Prop :=
  triple entry ∈ stream.pending ∨ stream.exhausted = false ∧ Imitates index stream entry

-- Without a lower bound and a floor, a window hands over its guarded head.
theorem admitted_unbounded (stream : StreamState) (batch : List Entry) :
    keptOf none stream batch = batch.takeWhile stream.guard ∧
      admittedOf 0 none stream batch = batch.takeWhile stream.guard := by
  have kept : keptOf none stream batch = batch.takeWhile stream.guard := by simp [keptOf,floorKeeps]
  exact ⟨kept,by simp [admittedOf,kept]⟩

theorem window_promised (positive : 0 < batchSize) (placed : Placed name stream) (active : stream.exhausted = false)
    (imitates : Imitates (env.index name) stream entry) {settled : Bool}
    (refilled : refillWindow name batchSize 0 none env stream = (next,settled)) :
    settled = true ∧ Promised (env.index name) entry next := by
  obtain ⟨stored,within,passed⟩ := imitates
  cases final : (collectWindow (env.index name) .Reverse stream.resumeKey stream.firstBatch batchSize).getLast? with
  | none =>
    exact absurd within (window_empty _ positive (List.getLast?_eq_none_iff.mp final) entry stored)
  | some last =>
    obtain ⟨scanned,lastStored,lastWithin⟩ := window_scanned (env.index name) positive final
    have lastMember := List.mem_of_getLast? final
    have layout := index_layout lastStored
    rw [refillWindow_some rfl final,(admitted_unbounded _ _).1,(admitted_unbounded _ _).2] at refilled
    generalize collectWindow (env.index name) .Reverse stream.resumeKey stream.firstBatch batchSize = batch at *
    rcases scanned.covers entry stored within with member | later
    · have guarded : entry ∈ batch.takeWhile stream.guard := by
        refine Window.mem_takeWhile scanned.falling member (passed entry stored within (le_refl _)) ?_
        intro x here order
        obtain ⟨present,inside⟩ := scanned.member x here
        exact passed x present inside (falling_le order)
      rw [if_neg (List.ne_nil_of_mem guarded),if_neg (List.ne_nil_of_mem guarded)] at refilled
      obtain ⟨rfl,rfl⟩ := Prod.mk.inj refilled
      exact ⟨rfl,.inl (List.mem_map_of_mem guarded)⟩
    · have below : name.keyRank entry.1 < name.keyRank last.1 := (scope_resume (index_layout stored) layout).mp later
      have whole : batch.takeWhile stream.guard = batch := by
        refine List.takeWhile_eq_self_iff.mpr fun x here => ?_
        obtain ⟨present,inside⟩ := scanned.member x here
        have reached := (scope_resume (index_layout present) layout).not.mp (scanned.past x here)
        exact passed x present inside (below.le.trans (not_lt.mp reached))
      rw [whole,if_neg (List.ne_nil_of_mem lastMember),if_neg (List.ne_nil_of_mem lastMember)] at refilled
      obtain ⟨rfl,rfl⟩ := Prod.mk.inj refilled
      refine ⟨rfl,.inr ⟨by simp [StreamState.load,active],stored,later,?_⟩⟩
      intro other present ahead above
      have under := (scope_resume (index_layout present) layout).mp ahead
      exact passed other present (placed.scope_down ((env.index name).storable present)
        ((env.index name).storable lastStored) lastWithin under.le) above

theorem Refilled.promised {world : World} {tick after : Nat} {index : Index name}
    (promised : ∀ t settled next, refillWindow name batchSize 0 none (world t).env stream = (next,settled) →
      settled = true ∧ Promised index entry next)
    (refilled : Refilled name batchSize 0 none world tick stream next after) : Promised index entry next := by
  cases refilled with
  | first window => exact (promised _ _ _ window).2
  | second floored _ | floored floored _ => cases (promised _ _ _ floored).1

-- The first window that ends right above the entry hands over the value's own entries, and the
-- entry stands at the head of what is left.
def coverOf (index : Index name) (value : Bytes) (entry : Entry) : List Entry :=
  (index.revRange (windowBound .Reverse (compositeKey value u64Max) true)).takeWhile fun other => decide (other.1 ≠ entry.1)

theorem coverOf_window {index : Index name} {value : Bytes} (some_cover : coverOf index value entry ≠ []) :
    collectWindow index .Reverse (compositeKey value u64Max) true (coverOf index value entry).length =
      coverOf index value entry := by
  let items := index.revRange (windowBound .Reverse (compositeKey value u64Max) true)
  let rest := items.dropWhile fun other => decide (other.1 ≠ entry.1)
  have split : coverOf index value entry ++ rest = items := List.takeWhile_append_dropWhile
  change Window.fill Prod.fst _ [] items = _
  rw [← split]
  refine Window.fill_exact Prod.fst _ [] _ rest (by simp) ?_ (by simpa using some_cover)
  intro last final next head same
  have apart := List.mem_takeWhile_imp (List.mem_of_mem_getLast? final)
  have reached := List.head?_dropWhile_not (fun other => decide (other.1 ≠ entry.1)) items
  rw [Option.mem_def.mp head] at reached
  simp only [decide_eq_true_eq] at apart
  simp only [same] at apart
  simp [apart] at reached

section Cover
variable {index : Index name} {value : Bytes}

theorem mem_cover {other : Entry} (present : other ∈ index.entries)
    (within : inScope name (compositeKey value u64Max) true other.1)
    (above : name.keyRank entry.1 < name.keyRank other.1) : other ∈ coverOf index value entry := by
  have apart : ∀ x : Entry, name.keyRank entry.1 < name.keyRank x.1 → decide (x.1 ≠ entry.1) = true := by
    intro x less
    refine decide_eq_true fun same => ?_
    rw [same] at less
    exact lt_irrefl _ less
  refine Window.mem_takeWhile (revRange_falling index _) (mem_revRange.mpr ⟨present,within⟩) (apart other above) ?_
  intro x here order
  exact apart x (above.trans_le (falling_le order))

theorem top_small : u64Max < 2^64 := by decide

-- With that window the entry is promised to the stream of a value that occurs in the index.
theorem cover_promised (width : name.ValueLayout value) (same : env.index name = index)
    (stored : entry ∈ index.entries) (lower : name.valueRank (valuePart entry.1) < name.valueRank value)
    (imitated : value.isPrefixOf entry.1 = true) {own : Entry} (present : own ∈ index.entries)
    (occurs : valuePart own.1 = value) {settled : Bool}
    (refilled : refillWindow name (coverOf index value entry).length 0 none env
      (initStream (compositeKey value u64Max)) = (next,settled)) :
    own ∈ coverOf index value entry ∧ settled = true ∧ Promised index entry next := by
  subst same
  have placed := init_placed width top_small
  have ownStorable := (env.index name).storable present
  have ownWithin := (init_scope width top_small ownStorable occurs).mpr (Nat.le_of_lt ownStorable.2)
  have entryStorable := (env.index name).storable stored
  have entryAbove : name.keyRank entry.1 < name.keyRank own.1 := keyRank_lt.mpr (.inl (by rwa [occurs]))
  have covered := mem_cover present ownWithin entryAbove
  have positive : 0 < (coverOf (env.index name) value entry).length := List.length_pos_of_mem covered
  have window := coverOf_window (List.ne_nil_of_mem covered)
  refine ⟨covered,?_⟩
  obtain ⟨last,final⟩ := List.getLast?_isSome.mpr (List.ne_nil_of_mem covered) |> Option.isSome_iff_exists.mp
  have final' := final
  rw [← window] at final'
  obtain ⟨scanned,lastStored,lastWithin⟩ := window_scanned (env.index name) positive final'
  rw [window] at scanned
  have layout := index_layout lastStored
  have guarded : own ∈ (coverOf (env.index name) value entry).takeWhile (initStream (compositeKey value u64Max)).guard := by
    have key : (initStream (compositeKey value u64Max)).keyPrefix = value := by simp [initStream]
    have guards : ∀ x : Entry, valuePart x.1 = value → (initStream (compositeKey value u64Max)).guard x = true :=
      fun x owned => by rw [StreamState.guard,key]; exact own_guarded owned
    refine Window.mem_takeWhile scanned.falling covered (guards own occurs) ?_
    intro x here order
    obtain ⟨known,inside⟩ := scanned.member x here
    have stands := placed.above (occurs.trans key.symm) ((env.index name).storable known) inside (falling_le order)
    exact guards x (stands.1.trans key)
  rw [(@refillWindow_some _ _ _ _ _ _ (coverOf (env.index name) value entry)) window final,(admitted_unbounded _ _).1,
    (admitted_unbounded _ _).2,if_neg (List.ne_nil_of_mem guarded),if_neg (List.ne_nil_of_mem guarded)] at refilled
  obtain ⟨rfl,rfl⟩ := Prod.mk.inj refilled
  have outside : entry ∉ coverOf (env.index name) value entry := by
    intro here
    have apart := List.mem_takeWhile_imp here
    simp at apart
  have entryWithin := placed.scope_down entryStorable ownStorable ownWithin entryAbove.le
  have later := (scanned.covers entry stored entryWithin).resolve_left outside
  refine ⟨rfl,.inr ⟨by simp [StreamState.load,initStream],stored,later,?_⟩⟩
  intro other known ahead above
  have under := (scope_resume (index_layout known) layout).mp ahead
  have otherStorable := (env.index name).storable known
  have inside := placed.scope_down otherStorable ((env.index name).storable lastStored) lastWithin under.le
  rcases above.lt_or_eq with less | equal
  · exact absurd ahead (scanned.past other (mem_cover known inside less))
  · rw [StreamState.guard,← keyRank_injective entryStorable.1 otherStorable.1 equal]
    simpa [StreamState.load,StreamState.moved,initStream] using imitated

end Cover

section Streams
variable {world : World} {index : Index name} {tick after : Nat}

-- A stream that can be popped or is at its end.
def Shown (name : IndexName) (stream : StreamState) : Prop :=
  Placed name stream ∧ (stream.exhausted = true ∨ stream.pending ≠ [])

theorem Promised.peek (promised : Promised index entry stream) (shown : Shown name stream) :
    ∃ head, stream.peek = some head := by
  rw [peek_head,← Option.isSome_iff_exists,List.isSome_head?]
  rcases promised with pending | ⟨active,_⟩
  · exact List.ne_nil_of_mem pending
  · refine shown.2.resolve_left ?_
    simp [active]

theorem advanceStream_shown {since : Nat} {levIdFloor : Floor} (positive : 0 < batchSize) (shown : Shown name stream)
    (stepped : advanceStream name batchSize since levIdFloor world tick stream = (next,after)) : Shown name next := by
  rcases advanceStream_cases stepped with ⟨open_stream,rfl,_⟩ | ⟨active,_,refilled⟩
  · exact ⟨shown.1.consumed,by rwa [consumed_pending]⟩
  · have moved := refilled.advanced positive shown.1.consumed active
    exact ⟨moved.placed,moved.shown rfl⟩

-- A pop of the stream takes the entry or keeps the promise.
theorem advanceStream_promised (fixed : ∀ t, (world t).env.index name = index) (positive : 0 < batchSize)
    (shown : Shown name stream) {head : Triple} (top : stream.peek = some head) (promised : Promised index entry stream)
    (stepped : advanceStream name batchSize 0 none world tick stream = (next,after)) :
    head = triple entry ∨ Promised index entry next := by
  rw [peek_head] at top
  obtain ⟨tail,pending⟩ := List.head?_eq_some_iff.mp top
  rcases advanceStream_cases stepped with ⟨_,rfl,_⟩ | ⟨active,last,refilled⟩
  · rcases promised with member | ahead
    · rw [pending] at member
      rcases List.mem_cons.mp member with same | behind
      · exact .inl same.symm
      · exact .inr (.inl (by rw [consumed_pending,pending]; exact behind))
    · exact .inr (.inr ⟨ahead.1,ahead.2.stored,ahead.2.within,ahead.2.passed⟩)
  · rcases promised with member | ⟨_,imitates⟩
    · rw [pending] at member last
      rw [List.tail_cons] at last
      exact .inl (by simpa [last,eq_comm] using member)
    · refine .inr (refilled.promised fun t settled later window => ?_)
      rw [← fixed t] at imitates ⊢
      exact window_promised positive shown.1.consumed active ⟨imitates.stored,imitates.within,imitates.passed⟩ window

-- A merge emits a promised entry once for every stream that promises it, unless it is cut short.
theorem merge_count (fixed : ∀ t, (world t).env.index name = index) (positive : 0 < batchSize) {state : MergeState}
    (shown : ∀ stream ∈ state.streams, Shown name stream) (emitLimit : Nat) (sources : Finset Nat)
    (promised : ∀ idx ∈ sources, ∃ stream, state.streams[idx]? = some stream ∧ Promised index entry stream) :
    sources.card ≤ (Frontier.drain (mergeFeed name batchSize 0 none world) Triple.sortKey emitLimit state
        (seedHeap state.streams)).1.count (triple entry) ∨
      (Frontier.drain (mergeFeed name batchSize 0 none world) Triple.sortKey emitLimit state
        (seedHeap state.streams)).1.length = emitLimit := by
  refine (@Frontier.drain_count _ _ _ _ (mergeFeed name batchSize 0 none world) Triple.sortKey (fun state => ∀ stream ∈ state.streams, Shown name stream) _ _ (fun state idx => ∃ stream, state.streams[idx]? = some stream ∧ Promised index entry stream))
    ?_ ?_ ?_ ?_ emitLimit state _ shown (seedHeap_heads state) sources promised
  · intro state idx head shown top stream member
    obtain ⟨popped,here,_⟩ := state_peek top
    rcases stepped : advanceStream name batchSize 0 none world state.tick popped with ⟨fresh,later⟩
    change stream ∈ (state.advance name batchSize 0 none world idx).streams at member
    rw [advance_exact here stepped] at member
    rcases List.mem_or_eq_of_mem_set member with prior | rfl
    · exact shown stream prior
    · exact advanceStream_shown positive (shown popped (List.mem_of_getElem? here)) stepped
  · intro state idx other apart
    exact (merge_lawful positive 0).advance_other apart
  · rintro state idx shown ⟨stream,here,promised⟩
    obtain ⟨head,top⟩ := promised.peek (shown stream (List.mem_of_getElem? here))
    exact ⟨head,by simpa [mergeFeed,MergeState.peek,here] using top⟩
  · rintro state idx other head shown top ⟨stream,there,promised⟩
    obtain ⟨popped,here,popping⟩ := state_peek top
    rcases stepped : advanceStream name batchSize 0 none world state.tick popped with ⟨fresh,later⟩
    change _ ∨ ∃ stream, (state.advance name batchSize 0 none world idx).streams[other]? = some stream ∧ _
    rw [advance_exact here stepped]
    by_cases own : other = idx
    · subst own
      rw [here,Option.some.injEq] at there
      rw [← there] at promised
      have known := shown popped (List.mem_of_getElem? here)
      rcases advanceStream_promised fixed positive known popping promised stepped with taken | still
      · exact .inl ⟨rfl,taken⟩
      · exact .inr ⟨fresh,set_here here,still⟩
    · exact .inr ⟨stream,by rw [List.getElem?_set_ne (Ne.symm own)]; exact there,promised⟩

end Streams

theorem wanted_members {index : Index name} {values others : List Bytes} {since untilTs : Nat} {levIdFloor : Floor}
    (same : ∀ value, value ∈ values ↔ value ∈ others) : wantedTriples index values since untilTs levIdFloor =
      wantedTriples index others since untilTs levIdFloor := by
  simp only [wantedTriples,same]

-- What a merge over the start keys of a filter is to return, for every batch size, time range,
-- floor and limit.
def MergeExact (env : Env) (filter : NostrFilter) : Prop :=
  ∀ batchSize since untilTs levIdFloor emitLimit now tick, 0 < batchSize → untilTs < 2^64 →
    FirstOf (mergeWindowed (selectIndex filter).shortName batchSize since levIdFloor (fun _ => ⟨env,now⟩) tick
        (buildStartKeys {filter with untilTs := some untilTs} (selectIndex filter) .Reverse) emitLimit).1
      (wantedTriples (env.index (selectIndex filter).shortName) (startValues filter (selectIndex filter))
        since untilTs levIdFloor) emitLimit

-- Where a lower value's key imitates the value, some window hands it over as an entry of the value.
theorem imitation_refill {index : Index name} {value : Bytes} (width : name.ValueLayout value)
    (mixed : ¬ Separate index value) : ∃ entry ∈ index.entries,
      name.valueRank (valuePart entry.1) < name.valueRank value ∧ ∃ batchSize, 0 < batchSize ∧
      ∀ (env : Env), env.index name = index → ∀ settled next, refillWindow name batchSize 0 none env
        (initStream (compositeKey value u64Max)) = (next,settled) → settled = true ∧ Promised index entry next := by
  obtain ⟨dirty,loud⟩ := not_or.mp mixed
  by_cases occurs : ∃ own ∈ index.entries, valuePart own.1 = value
  · obtain ⟨own,present,owned⟩ := occurs
    simp only [GuardClean,not_forall,Bool.not_eq_false] at dirty
    obtain ⟨entry,stored,lower,imitated⟩ := dirty
    have above : name.keyRank entry.1 < name.keyRank own.1 := keyRank_lt.mpr (.inl (by rwa [owned]))
    have ownStorable := index.storable present
    have covered : own ∈ coverOf index value entry := mem_cover present
      ((init_scope width top_small ownStorable owned).mpr (Nat.le_of_lt ownStorable.2)) above
    refine ⟨entry,stored,lower,_,List.length_pos_of_mem covered,?_⟩
    intro env same settled next refilled
    exact (cover_promised width same stored lower imitated present owned refilled).2
  · have absent : ∀ entry ∈ index.entries, valuePart entry.1 ≠ value := by
      intro entry stored own
      exact occurs ⟨entry,stored,own⟩
    have topmost : ∃ low ∈ index.entries, name.valueRank (valuePart low.1) < name.valueRank value ∧
        value.isPrefixOf low.1 = true ∧ ∀ high ∈ index.entries,
          name.valueRank (valuePart high.1) < name.valueRank value → name.keyRank high.1 ≤ name.keyRank low.1 := by
      by_contra none_top
      refine loud ⟨absent,fun low stored lower imitated => ?_⟩
      by_contra highest
      refine none_top ⟨low,stored,lower,imitated,fun high present under => ?_⟩
      exact not_lt.mp fun above => highest ⟨high,present,under,above⟩
    obtain ⟨low,stored,lower,imitated,top⟩ := topmost
    refine ⟨low,stored,lower,1,one_pos,?_⟩
    intro env same settled next refilled
    subst same
    have placed := init_placed width top_small
    refine window_promised one_pos placed rfl ⟨stored,?_,?_⟩ refilled
    · exact (scope_first width top_small (index_layout stored) ((env.index name).storable stored).2).mpr (.inl lower)
    · intro other present within above
      have storable := (env.index name).storable present
      have under := placed.scope_value storable within
      have own : (initStream (compositeKey value u64Max)).keyPrefix = value := by simp [initStream]
      rw [own] at under
      have less := lt_of_le_of_ne under fun same => absent other present
        (valueRank_injective (layout_value storable.1) width same)
      have equal := le_antisymm above (top other present less)
      rw [StreamState.guard,own,← keyRank_injective (index_layout stored) storable.1 equal]
      exact imitated

section Sources
variable {values : List Bytes} {state : MergeState} {world : World} {index : Index name}

-- A stream of the filled merge, named by its value.
def Source (index : Index name) (values : List Bytes) (state : MergeState) (entry : Entry) (value : Bytes) (idx : Nat) : Prop :=
  values[idx]? = some value ∧ ∃ stream, state.streams[idx]? = some stream ∧ Promised index entry stream

theorem Seeded.shown {since untilTs tick : Nat} {levIdFloor : Floor}
    (seeded : Seeded name batchSize since levIdFloor world tick untilTs values state) (positive : 0 < batchSize)
    (widths : ∀ value ∈ values, name.ValueLayout value) (small : untilTs < 2^64) :
    ∀ stream ∈ state.streams, Shown name stream := by
  intro stream member
  obtain ⟨idx,here⟩ := List.getElem?_of_mem member
  obtain ⟨value,there,_,_,_,_,refilled⟩ := (forall₂_at seeded idx).1 stream here
  have moved := refilled.advanced positive (init_placed (widths value (List.mem_of_getElem? there)) small) rfl
  exact ⟨moved.placed,moved.shown rfl⟩

variable (index) in
theorem Seeded.source {tick untilTs : Nat} {value : Bytes}
    (seeded : Seeded name batchSize 0 none world tick untilTs values state) (known : value ∈ values)
    (promised : ∀ t settled next, refillWindow name batchSize 0 none (world t).env
      (initStream (compositeKey value untilTs)) = (next,settled) → settled = true ∧ Promised index entry next) :
    ∃ idx, Source index values state entry value idx := by
  obtain ⟨idx,there⟩ := List.getElem?_of_mem known
  obtain ⟨stream,here,_,_,_,_,refilled⟩ := (forall₂_at seeded idx).2 value there
  exact ⟨idx,there,stream,here,refilled.promised promised⟩

-- What the first window of one value promises, the merge emits, unless it is cut short.
theorem merge_promised {tick untilTs emitLimit : Nat} {value : Bytes} (fixed : ∀ t, (world t).env.index name = index)
    (positive : 0 < batchSize) (widths : ∀ value ∈ values, name.ValueLayout value) (small : untilTs < 2^64)
    (known : value ∈ values)
    (promised : ∀ t settled next, refillWindow name batchSize 0 none (world t).env
      (initStream (compositeKey value untilTs)) = (next,settled) → settled = true ∧ Promised index entry next) :
    triple entry ∈ (mergeWindowed name batchSize 0 none world tick (values.map (compositeKey · untilTs)) emitLimit).1 ∨
      (mergeWindowed name batchSize 0 none world tick (values.map (compositeKey · untilTs)) emitLimit).1.length = emitLimit := by
  have nonempty : values.map (compositeKey · untilTs) ≠ [] := by
    rw [Ne,List.map_eq_nil_iff]
    exact List.ne_nil_of_mem known
  by_cases zero : emitLimit = 0
  · rw [mergeWindowed,if_pos (.inr zero)]
    exact .inr zero.symm
  rw [mergeWindowed,if_neg (by simpa [zero] using nonempty),List.map_map]
  obtain ⟨_,seeded⟩ := (@initialFill_filled name batchSize 0 none world) tick ((values.map (compositeKey · untilTs)).map initStream)
  rw [List.map_map,List.forall₂_map_left_iff] at seeded
  change Seeded name batchSize 0 none world tick untilTs values _ at seeded
  generalize initialFill name batchSize 0 none world tick (values.map (initStream ∘ (compositeKey · untilTs))) = state at *
  obtain ⟨idx,_,source⟩ := seeded.source index known promised
  have only : ∀ other ∈ ({idx} : Finset Nat), ∃ stream, state.streams[other]? = some stream ∧ Promised index entry stream := by
    intro other same
    rw [Finset.mem_singleton.mp same]
    exact source
  rcases merge_count fixed positive (seeded.shown positive widths small) emitLimit {idx} only with counted | full
  · rw [Finset.card_singleton] at counted
    exact .inl (List.count_pos_iff.mp counted)
  · exact .inr full

-- The stream of an entry's own value promises the entry.
theorem own_promised (width : name.ValueLayout (valuePart entry.1)) (positive : 0 < batchSize)
    (stored : entry ∈ (env.index name).entries) {settled : Bool}
    (refilled : refillWindow name batchSize 0 none env (initStream (compositeKey (valuePart entry.1) u64Max)) = (next,settled)) :
    settled = true ∧ Promised (env.index name) entry next := by
  have placed := init_placed width top_small
  have storable := (env.index name).storable stored
  have own : (initStream (compositeKey (valuePart entry.1) u64Max)).keyPrefix = valuePart entry.1 := by simp [initStream]
  refine window_promised positive placed rfl ⟨stored,?_,?_⟩ refilled
  · exact (init_scope width top_small storable rfl).mpr (Nat.le_of_lt storable.2)
  · intro other present within above
    exact own_guarded (placed.above own.symm ((env.index name).storable present) within above).1

end Sources

-- A result that is exact shows an entry of a requested value once and any other entry never.
variable (entry) in
theorem FirstOf.count {index : Index name} {values : List Bytes} {results : List Triple}
    (first : FirstOf results (wantedTriples index values 0 u64Max none)
      ((wantedTriples index values 0 u64Max none).length + 1)) :
    results.length < (wantedTriples index values 0 u64Max none).length + 1 ∧
      results.count (triple entry) ≤ if valuePart entry.1 ∈ values then 1 else 0 := by
  obtain ⟨ordered,same,_,cut⟩ := first
  have whole : results = ordered := by
    rw [cut,List.take_of_length_le]
    rw [same.length_eq]
    exact Nat.le_succ _
  rw [whole,same.length_eq,same.count_eq]
  refine ⟨Nat.lt_succ_self _,?_⟩
  split
  · exact List.nodup_iff_count_le_one.mp (wanted_nodup index) _
  · rename_i foreign
    rw [Nat.le_zero,List.count_eq_zero]
    intro member
    obtain ⟨other,_,value,known,wanted,_,same⟩ := mem_wanted.mp member
    rw [triple_injective same,wanted.own] at foreign
    exact foreign known

theorem imitation_breaks {env : Env} {filter : NostrFilter} {value : Bytes}
    (given : value ∈ startValues filter (selectIndex filter))
    (mixed : ¬ Separate (env.index (selectIndex filter).shortName) value) : ¬ MergeExact env filter := by
  intro exact
  have width := startValues_layout given
  obtain ⟨entry,stored,lower,batchSize,positive,refills⟩ := imitation_refill width mixed
  have widths : ∀ value ∈ startValues filter (selectIndex filter), (selectIndex filter).shortName.ValueLayout value :=
    fun value known => startValues_layout known
  have first := exact batchSize 0 u64Max none
    ((wantedTriples (env.index (selectIndex filter).shortName) (startValues filter (selectIndex filter)) 0 u64Max none).length + 1)
    0 0 positive top_small
  generalize selectIndex filter = selected at *
  obtain ⟨values,distinct,members,keys⟩ := buildStartKeys_values {filter with untilTs := some u64Max} selected
  change ∀ value, value ∈ values ↔ value ∈ startValues filter selected at members
  change _ = values.map (compositeKey · u64Max) at keys
  have nonempty : values.map (compositeKey · u64Max) ≠ [] := by
    rw [Ne,List.map_eq_nil_iff]
    exact List.ne_nil_of_mem ((members value).mpr given)
  obtain ⟨short,fewer⟩ := first.count entry
  rw [keys,mergeWindowed,if_neg (by simpa using nonempty),List.map_map] at short fewer
  obtain ⟨_,seeded⟩ := (@initialFill_filled selected.shortName batchSize 0 none (fun _ => ⟨env,0⟩)) 0 ((values.map (compositeKey · u64Max)).map initStream)
  rw [List.map_map,List.forall₂_map_left_iff] at seeded
  change Seeded selected.shortName batchSize 0 none (fun _ => ⟨env,0⟩) 0 u64Max values _ at seeded
  generalize initialFill selected.shortName batchSize 0 none (fun _ => ⟨env,0⟩) 0
    (values.map (initStream ∘ (compositeKey · u64Max))) = state at *
  have shown := seeded.shown positive (fun value known => widths value ((members value).mp known)) top_small
  obtain ⟨i,atI,promiseI⟩ := seeded.source (env.index selected.shortName) ((members value).mpr given)
    fun _ => refills env rfl
  have counted : ∀ sources : Finset Nat, (∀ idx ∈ sources, ∃ stream, state.streams[idx]? = some stream ∧
      Promised (env.index selected.shortName) entry stream) → sources.card ≤ if valuePart entry.1 ∈ startValues filter selected then 1 else 0 := by
    intro sources promised
    rcases (@merge_count _ _ _ (fun _ => ⟨env,0⟩)) (fun _ => rfl) positive shown _ sources promised with enough | full
    · exact enough.trans fewer
    · exact absurd full short.ne
  by_cases known : valuePart entry.1 ∈ startValues filter selected
  · obtain ⟨j,atJ,promiseJ⟩ := seeded.source (env.index selected.shortName) ((members _).mpr known)
      fun _ _ _ => own_promised (widths _ known) positive stored
    have apart : i ≠ j := by
      rintro rfl
      rw [atI,Option.some.injEq] at atJ
      rw [atJ] at lower
      exact lt_irrefl _ lower
    have two := counted {i,j} (by simp [promiseI,promiseJ])
    rw [Finset.card_pair apart,if_pos known] at two
    omega
  · have one := counted {i} (by simp [promiseI])
    rw [Finset.card_singleton,if_neg known] at one
    omega

-- The merge is exact for a filter exactly if no requested value is imitated by a lower key.
theorem merge_exactness (env : Env) (filter : NostrFilter) : MergeExact env filter ↔
    ∀ value ∈ startValues filter (selectIndex filter), Separate (env.index (selectIndex filter).shortName) value := by
  constructor
  · intro exact value given
    by_contra mixed
    exact imitation_breaks given mixed exact
  · intro separate batchSize since untilTs levIdFloor emitLimit now tick positive small
    obtain ⟨values,distinct,members,keys⟩ := buildStartKeys_values {filter with untilTs := some untilTs} (selectIndex filter)
    change ∀ value, value ∈ values ↔ value ∈ startValues filter (selectIndex filter) at members
    change _ = values.map (compositeKey · untilTs) at keys
    rw [keys]
    have merged := (@mergeWindowed_merged ((selectIndex filter).shortName) _ since levIdFloor (fun _ => ⟨env,now⟩) _ _ tick emitLimit) positive
      (fun value known => startValues_layout ((members value).mp known)) distinct small
      (fun value known => (separate value ((members value).mp known)).imp (fun clean _ => clean) fun mute _ => mute) rfl
    have first := merged.firstOf fun _ => rfl
    rwa [wanted_members members] at first

-- The key of the value ta at second 98 starts with the bytes of tab, as 98 is the letter b.
abbrev shorterNotes : List NostrEvent := [sampleNote 1 98 [[text "t",text "a"]]]
def shorterSample : StoredEvent (noteCodec shorterNotes) noDicts :=
  sampleEvent shorterNotes 1 98 [[text "t",text "a"]] (by decide) (by decide +kernel)
def shorterSnapshot : Snapshot (noteCodec shorterNotes) noDicts := ⟨[shorterSample],by decide⟩
def longerFilter : NostrFilter := {tags := some [⟨text "t",[text "ab"]⟩]}

-- The only entry of the index is emitted for a value it does not have.
theorem merge_fails :
    (mergeWindowed .Event__tag DEFAULT_WINDOW_SIZE 0 none (fun _ => ⟨shorterSnapshot.env,0⟩) 0
      (buildStartKeys longerFilter (selectIndex longerFilter) .Reverse) 10).1 = [(98,1,compositeKey (text "ta") 98)] ∧
    wantedTriples (shorterSnapshot.env.index .Event__tag) (startValues longerFilter (selectIndex longerFilter)) 0 u64Max none = [] ∧
    ¬ FirstOf (mergeWindowed .Event__tag DEFAULT_WINDOW_SIZE 0 none (fun _ => ⟨shorterSnapshot.env,0⟩) 0
        (buildStartKeys longerFilter (selectIndex longerFilter) .Reverse) 10).1
      (wantedTriples (shorterSnapshot.env.index .Event__tag) (startValues longerFilter (selectIndex longerFilter)) 0 u64Max none) 10 := by
  have emitted : (mergeWindowed .Event__tag DEFAULT_WINDOW_SIZE 0 none (fun _ => ⟨shorterSnapshot.env,0⟩) 0
      (buildStartKeys longerFilter (selectIndex longerFilter) .Reverse) 10).1 = [(98,1,compositeKey (text "ta") 98)] := by
    decide +kernel
  have nothing : wantedTriples (shorterSnapshot.env.index .Event__tag) (startValues longerFilter (selectIndex longerFilter))
      0 u64Max none = [] := by
    decide +kernel
  refine ⟨emitted,nothing,?_⟩
  rw [emitted,nothing]
  rintro ⟨ordered,same,_,cut⟩
  rw [List.perm_nil.mp same] at cut
  cases cut

end DeepFry.Query
