import DeepFry.Query.Refill

namespace DeepFry.Query
open Lmdb Bytes
variable {name : IndexName} {batchSize since : Nat} {levIdFloor : Floor} {world : World}

-- A stream between two pops: its pending entries fall strictly, and whatever its scope still
-- holds of its value lies below them.
structure Ready (name : IndexName) (stream : StreamState) : Prop where
  placed : Placed name stream
  shown : stream.exhausted = true ∨ stream.pending ≠ []
  falling : stream.pending.Pairwise fun a b => b.sortKey < a.sortKey
  below : stream.exhausted = false → ∀ key, Storable name key → valuePart key = stream.keyPrefix →
    stream.scope name key → ∀ x ∈ stream.pending, createdAtFromKey key < x.1

-- What a stream may still emit from a tick on, whatever the index turns into.
def StreamReach (name : IndexName) (since : Nat) (levIdFloor : Floor) (world : World) (tick : Nat)
    (stream : StreamState) (x : Triple) : Prop :=
  x ∈ stream.pending ∨ stream.exhausted = false ∧ ∃ t, tick ≤ t ∧ ∃ entry ∈ ((world t).env.index name).entries,
    Wanted name since levIdFloor stream.keyPrefix entry ∧ stream.scope name entry.1 ∧ x = triple entry

-- What a stream still owes when every read before the horizon shows the entry.
def StreamAhead (name : IndexName) (since : Nat) (levIdFloor : Floor) (world : World) (horizon tick : Nat)
    (stream : StreamState) (x : Triple) : Prop :=
  x ∈ stream.pending ∨ stream.exhausted = false ∧ ∃ entry, Wanted name since levIdFloor stream.keyPrefix entry ∧
    stream.scope name entry.1 ∧ x = triple entry ∧
    ∀ t, tick ≤ t → t < horizon → entry ∈ ((world t).env.index name).entries

theorem peek_head (stream : StreamState) : stream.peek = stream.pending.head? := by
  simp [StreamState.peek,StreamState.pending]

theorem consumed_pending (stream : StreamState) : stream.consumed.pending = stream.pending.tail := by
  simp [StreamState.consumed,StreamState.pending]

theorem needsRefill_exact (stream : StreamState) : stream.needsRefill = true ↔
    stream.exhausted = false ∧ stream.pending = [] := by
  simp [StreamState.needsRefill,StreamState.pending,List.drop_eq_nil_iff]

section Stream
variable {tick after horizon : Nat} {stream next : StreamState} {x a : Triple}

theorem Refilled.ready (refilled : Refilled name batchSize since levIdFloor world tick stream next after)
    (positive : 0 < batchSize) (placed : Placed name stream) (active : stream.exhausted = false)
    (clean : ∀ t, GuardClean ((world t).env.index name) stream.keyPrefix) :
    Ready name next ∧ next.keyPrefix = stream.keyPrefix := by
  have moved := refilled.advanced positive placed active
  obtain ⟨_,_,loaded⟩ := refilled.delivered positive placed active clean
  exact ⟨⟨moved.placed,moved.shown rfl,loaded.falling,loaded.below⟩,moved.value⟩

theorem Refilled.reach (refilled : Refilled name batchSize since levIdFloor world tick stream next after)
    (positive : 0 < batchSize) (placed : Placed name stream) (active : stream.exhausted = false)
    (clean : ∀ t, GuardClean ((world t).env.index name) stream.keyPrefix)
    (reached : StreamReach name since levIdFloor world after next x) :
    ∃ t, tick ≤ t ∧ ∃ entry ∈ ((world t).env.index name).entries,
      Wanted name since levIdFloor stream.keyPrefix entry ∧ stream.scope name entry.1 ∧ x = triple entry := by
  have moved := refilled.advanced positive placed active
  obtain ⟨t,late,loaded⟩ := refilled.delivered positive placed active clean
  rcases reached with pending | ⟨running,t',later,entry,stored,wanted,within,same⟩
  · exact ⟨t,late,loaded.member x pending⟩
  · rw [moved.value] at wanted
    have started := refilled.later
    exact ⟨t',by omega,entry,stored,wanted,moved.narrower running _ wanted.storable within,same⟩

theorem Refilled.ahead (refilled : Refilled name batchSize since levIdFloor world tick stream next after)
    (positive : 0 < batchSize) (placed : Placed name stream) (active : stream.exhausted = false)
    (alive : after ≤ horizon) {entry : Entry} (wanted : Wanted name since levIdFloor stream.keyPrefix entry)
    (within : stream.scope name entry.1)
    (stored : ∀ t, tick ≤ t → t < horizon → entry ∈ ((world t).env.index name).entries) :
    StreamAhead name since levIdFloor world horizon after next (triple entry) := by
  have started := refilled.later
  have moved := refilled.advanced positive placed active
  have seen : ∀ t, tick ≤ t → t < after → entry ∈ ((world t).env.index name).entries :=
    fun t late early => stored t late (by omega)
  refine (refilled.owed positive placed active wanted within seen).imp_right ?_
  rintro ⟨running,inside⟩
  rw [← moved.value] at wanted
  exact ⟨running,entry,wanted,inside,rfl,fun t late early => stored t (by omega) early⟩

theorem Placed.consumed (placed : Placed name stream) : Placed name stream.consumed :=
  ⟨placed.value,placed.start,placed.resumed⟩

theorem advanceStream_cases (stepped : advanceStream name batchSize since levIdFloor world tick stream = (next,after)) :
    (stream.consumed.exhausted = true ∨ stream.pending.tail ≠ []) ∧ next = stream.consumed ∧ after = tick ∨
    stream.exhausted = false ∧ stream.pending.tail = [] ∧
      Refilled name batchSize since levIdFloor world tick stream.consumed next after := by
  unfold advanceStream at stepped
  cases needed : stream.consumed.needsRefill with
  | true =>
    obtain ⟨active,empty⟩ := (needsRefill_exact _).mp needed
    rw [consumed_pending] at empty
    simp only [needed,if_true] at stepped
    refine .inr ⟨active,empty,?_⟩
    have refilled := (@refillStream_refilled name batchSize since levIdFloor world tick stream.consumed)
    rwa [stepped] at refilled
  | false =>
    simp only [needed,Bool.false_eq_true,if_false,Prod.mk.injEq] at stepped
    obtain ⟨rfl,rfl⟩ := stepped
    refine .inl ⟨?_,rfl,rfl⟩
    rw [← consumed_pending]
    by_contra neither
    obtain ⟨active,empty⟩ := not_or.mp neither
    have refill := (needsRefill_exact stream.consumed).mpr ⟨by simpa using active,by simpa using empty⟩
    rw [refill] at needed
    cases needed

theorem Ready.peek_reach (shown : stream.peek = some a) :
    StreamReach name since levIdFloor world tick stream a := by
  rw [peek_head] at shown
  exact .inl (List.mem_of_head? shown)

theorem head_top {pending : List Triple} (falling : pending.Pairwise fun a b => b.sortKey < a.sortKey)
    (shown : pending.head? = some a) (member : x ∈ pending) : x.sortKey ≤ a.sortKey := by
  obtain ⟨tail,rfl⟩ := List.head?_eq_some_iff.mp shown
  rcases List.mem_cons.mp member with rfl | later
  · exact le_refl _
  · exact ((List.pairwise_cons.mp falling).1 x later).le

theorem Ready.wanted_below (ready : Ready name stream) (active : stream.exhausted = false) {entry : Entry}
    (wanted : Wanted name since levIdFloor stream.keyPrefix entry) (within : stream.scope name entry.1)
    (member : x ∈ stream.pending) : (triple entry).sortKey < x.sortKey := by
  rw [Triple.sortKey,Triple.sortKey,Prod.Lex.toLex_lt_toLex]
  exact .inl (ready.below active entry.1 wanted.storable wanted.own within x member)

-- Whatever a stream reaches or owes stands at or below the head it shows.
theorem Ready.head (ready : Ready name stream) (reached : x ∈ stream.pending ∨ stream.exhausted = false ∧
      ∃ entry, Wanted name since levIdFloor stream.keyPrefix entry ∧ stream.scope name entry.1 ∧ x = triple entry) :
    ∃ top, stream.peek = some top ∧ x.sortKey ≤ top.sortKey := by
  rw [peek_head]
  rcases reached with pending | ⟨active,entry,wanted,within,rfl⟩
  · cases shown : stream.pending.head? with
    | none =>
      rw [List.head?_eq_none_iff.mp shown] at pending
      cases pending
    | some top => exact ⟨top,rfl,head_top ready.falling shown pending⟩
  · have some_pending : stream.pending ≠ [] := by
      rcases ready.shown with done | some_pending
      · rw [active] at done
        cases done
      · exact some_pending
    obtain ⟨top,tail,pending⟩ := List.exists_cons_of_ne_nil some_pending
    refine ⟨top,by rw [pending]; rfl,?_⟩
    exact (ready.wanted_below active wanted within (by rw [pending]; simp)).le

theorem advanceStream_ready (positive : 0 < batchSize) (ready : Ready name stream)
    (clean : stream.exhausted = false → ∀ t, GuardClean ((world t).env.index name) stream.keyPrefix)
    (stepped : advanceStream name batchSize since levIdFloor world tick stream = (next,after)) :
    Ready name next ∧ next.keyPrefix = stream.keyPrefix ∧ tick ≤ after := by
  rcases advanceStream_cases stepped with ⟨shown,rfl,rfl⟩ | ⟨active,_,refilled⟩
  · refine ⟨⟨ready.placed.consumed,?_,?_,?_⟩,rfl,le_refl _⟩
    · rwa [consumed_pending]
    · rw [consumed_pending]
      exact ready.falling.sublist (List.tail_sublist _)
    · intro active key storable own within x member
      rw [consumed_pending] at member
      exact ready.below active key storable own within x (List.mem_of_mem_tail member)
  · obtain ⟨fresh,value⟩ := refilled.ready positive ready.placed.consumed active (clean active)
    exact ⟨fresh,value,refilled.later.le⟩

theorem advanceStream_active (stepped : advanceStream name batchSize since levIdFloor world tick stream = (next,after))
    (active : next.exhausted = false) : stream.exhausted = false := by
  rcases advanceStream_cases stepped with ⟨_,rfl,_⟩ | ⟨running,_,_⟩
  · exact active
  · exact running

theorem advanceStream_reach (positive : 0 < batchSize) (ready : Ready name stream)
    (clean : stream.exhausted = false → ∀ t, GuardClean ((world t).env.index name) stream.keyPrefix)
    (stepped : advanceStream name batchSize since levIdFloor world tick stream = (next,after))
    (shown : stream.peek = some a) (reached : StreamReach name since levIdFloor world after next x) :
    StreamReach name since levIdFloor world tick stream x ∧ x.sortKey < a.sortKey := by
  rw [peek_head] at shown
  obtain ⟨tail,pending⟩ := List.head?_eq_some_iff.mp shown
  have top : a ∈ stream.pending := List.mem_of_head? shown
  have stored : ∀ t, tick ≤ t → ∀ entry ∈ ((world t).env.index name).entries, stream.exhausted = false →
      Wanted name since levIdFloor stream.keyPrefix entry → stream.scope name entry.1 →
      StreamReach name since levIdFloor world tick stream (triple entry) ∧ (triple entry).sortKey < a.sortKey := by
    intro t late entry present active wanted within
    exact ⟨.inr ⟨active,t,late,entry,present,wanted,within,rfl⟩,ready.wanted_below active wanted within top⟩
  rcases advanceStream_cases stepped with ⟨_,rfl,rfl⟩ | ⟨active,_,refilled⟩
  · rcases reached with member | ⟨active,t,late,entry,present,wanted,within,rfl⟩
    · rw [consumed_pending,pending] at member
      refine ⟨.inl (by rw [pending]; exact List.mem_cons_of_mem _ member),?_⟩
      have falling := ready.falling
      rw [pending] at falling
      exact (List.pairwise_cons.mp falling).1 x member
    · exact stored t late entry present active wanted within
  · obtain ⟨t,late,entry,present,wanted,within,rfl⟩ :=
      refilled.reach positive ready.placed.consumed active (clean active) reached
    exact stored t late entry present active wanted within

theorem advanceStream_ahead (positive : 0 < batchSize) (placed : Placed name stream)
    (stepped : advanceStream name batchSize since levIdFloor world tick stream = (next,after))
    (alive : after ≤ horizon) (shown : stream.peek = some a)
    (owed : StreamAhead name since levIdFloor world horizon tick stream x) :
    x = a ∨ StreamAhead name since levIdFloor world horizon after next x := by
  rw [peek_head] at shown
  obtain ⟨tail,pending⟩ := List.head?_eq_some_iff.mp shown
  rcases advanceStream_cases stepped with ⟨_,rfl,rfl⟩ | ⟨active,last,refilled⟩
  · rcases owed with member | later
    · rw [pending] at member
      rcases List.mem_cons.mp member with same | behind
      · exact .inl same
      · exact .inr (.inl (by rw [consumed_pending,pending]; exact behind))
    · exact .inr (.inr later)
  · rcases owed with member | ⟨_,entry,wanted,within,rfl,stored⟩
    · rw [pending] at member last
      rw [List.tail_cons] at last
      exact .inl (by simpa [last] using member)
    · exact .inr (refilled.ahead positive placed.consumed active alive wanted within stored)

end Stream

-- The streams of one merge. A stream that may still be refilled has a value no lower key imitates.
def MergeReady (name : IndexName) (world : World) (state : MergeState) : Prop :=
  ∀ stream ∈ state.streams, Ready name stream ∧
    (stream.exhausted = false → ∀ t, GuardClean ((world t).env.index name) stream.keyPrefix)

def MergeReach (name : IndexName) (since : Nat) (levIdFloor : Floor) (world : World) (state : MergeState)
    (idx : Nat) (x : Triple) : Prop :=
  ∃ stream, state.streams[idx]? = some stream ∧ StreamReach name since levIdFloor world state.tick stream x

def MergeAhead (name : IndexName) (since : Nat) (levIdFloor : Floor) (world : World) (horizon : Nat)
    (state : MergeState) (idx : Nat) (x : Triple) : Prop :=
  ∃ stream, state.streams[idx]? = some stream ∧
    StreamAhead name since levIdFloor world horizon state.tick stream x

theorem state_peek {state : MergeState} {idx : Nat} {a : Triple} (shown : state.peek idx = some a) :
    ∃ stream, state.streams[idx]? = some stream ∧ stream.peek = some a := Option.bind_eq_some_iff.mp shown

theorem advance_exact {state : MergeState} {idx : Nat} {stream next : StreamState} {after : Nat}
    (here : state.streams[idx]? = some stream)
    (stepped : advanceStream name batchSize since levIdFloor world state.tick stream = (next,after)) :
    state.advance name batchSize since levIdFloor world idx = ⟨state.streams.set idx next,after⟩ := by
  simp [MergeState.advance,here,stepped]

theorem set_here {streams : List StreamState} {idx : Nat} {stream next : StreamState}
    (here : streams[idx]? = some stream) : (streams.set idx next)[idx]? = some next := by
  rw [List.getElem?_set_self (List.getElem?_eq_some_iff.mp here).1]

theorem merge_lawful (positive : 0 < batchSize) (horizon : Nat) :
    Frontier.Lawful (mergeFeed name batchSize since levIdFloor world) Triple.sortKey (MergeReady name world)
      (fun state => state.tick ≤ horizon) (MergeReach name since levIdFloor world)
      (MergeAhead name since levIdFloor world horizon) where
  peek_reach := by
    intro state idx a ready shown
    obtain ⟨stream,here,head⟩ := state_peek shown
    exact ⟨stream,here,Ready.peek_reach head⟩
  advance_ok := by
    intro state idx a ready shown
    obtain ⟨stream,here,head⟩ := state_peek shown
    rcases stepped : advanceStream name batchSize since levIdFloor world state.tick stream with ⟨next,after⟩
    have known := ready stream (List.mem_of_getElem? here)
    obtain ⟨fresh,value,_⟩ := advanceStream_ready positive known.1 known.2 stepped
    change MergeReady name world (state.advance name batchSize since levIdFloor world idx)
    rw [advance_exact here stepped]
    intro other member
    rcases List.mem_or_eq_of_mem_set member with prior | rfl
    · exact ready other prior
    · exact ⟨fresh,fun active => by rw [value]; exact known.2 (advanceStream_active stepped active)⟩
  advance_other := by
    intro state idx j apart
    change (state.advance name batchSize since levIdFloor world idx).peek j = state.peek j
    unfold MergeState.advance
    split
    · rfl
    · simp [MergeState.peek,List.getElem?_set_ne apart.symm]
  advance_reach := by
    intro state idx a j b ready shown reached
    obtain ⟨stream,here,head⟩ := state_peek shown
    rcases stepped : advanceStream name batchSize since levIdFloor world state.tick stream with ⟨next,after⟩
    have known := ready stream (List.mem_of_getElem? here)
    have later := (advanceStream_ready positive known.1 known.2 stepped).2.2
    change MergeReach name since levIdFloor world (state.advance name batchSize since levIdFloor world idx) j b at reached
    rw [advance_exact here stepped] at reached
    obtain ⟨other,found,within⟩ := reached
    by_cases own : j = idx
    · subst own
      rw [set_here here] at found
      cases found
      obtain ⟨before,less⟩ := advanceStream_reach positive known.1 known.2 stepped head within
      exact ⟨⟨stream,here,before⟩,fun _ => less⟩
    · rw [List.getElem?_set_ne (Ne.symm own)] at found
      refine ⟨⟨other,found,?_⟩,fun same => absurd same own⟩
      refine within.imp_right ?_
      rintro ⟨active,t,late,rest⟩
      exact ⟨active,t,later.trans late,rest⟩
  reach_peek := by
    intro state idx b ready reached
    obtain ⟨stream,here,within⟩ := reached
    obtain ⟨top,shown,under⟩ := (ready stream (List.mem_of_getElem? here)).1.head
      (within.imp_right fun ⟨active,_,_,entry,_,rest⟩ => ⟨active,entry,rest⟩)
    exact ⟨top,by simpa [mergeFeed,MergeState.peek,here] using shown,under⟩
  live_back := by
    intro state idx alive
    change (state.advance name batchSize since levIdFloor world idx).tick ≤ horizon at alive
    unfold MergeState.advance at alive
    split at alive
    · exact alive
    · rename_i stream here
      rcases stepped : advanceStream name batchSize since levIdFloor world state.tick stream with ⟨next,after⟩
      rw [stepped] at alive
      rcases advanceStream_cases stepped with ⟨_,_,rfl⟩ | ⟨_,_,refilled⟩
      · exact alive
      · exact refilled.later.le.trans alive
  ahead_peek := by
    intro state idx b ready owed
    obtain ⟨stream,here,within⟩ := owed
    obtain ⟨top,shown,under⟩ := (ready stream (List.mem_of_getElem? here)).1.head
      (within.imp_right fun ⟨active,entry,wanted,inside,same,_⟩ => ⟨active,entry,wanted,inside,same⟩)
    exact ⟨top,by simpa [mergeFeed,MergeState.peek,here] using shown,under⟩
  ahead_advance := by
    intro state idx a j b ready alive shown owed
    obtain ⟨stream,here,head⟩ := state_peek shown
    rcases stepped : advanceStream name batchSize since levIdFloor world state.tick stream with ⟨next,after⟩
    have known := ready stream (List.mem_of_getElem? here)
    have later := (advanceStream_ready positive known.1 known.2 stepped).2.2
    change (state.advance name batchSize since levIdFloor world idx).tick ≤ horizon at alive
    change _ ∨ MergeAhead name since levIdFloor world horizon (state.advance name batchSize since levIdFloor world idx) j b
    rw [advance_exact here stepped] at alive ⊢
    obtain ⟨other,found,within⟩ := owed
    by_cases own : j = idx
    · subst own
      rw [here] at found
      cases found
      rcases advanceStream_ahead positive known.1.placed stepped alive head within with same | still
      · exact .inl ⟨rfl,same⟩
      · exact .inr ⟨next,set_here here,still⟩
    · refine .inr ⟨other,by rw [List.getElem?_set_ne (Ne.symm own)]; exact found,?_⟩
      refine within.imp_right ?_
      rintro ⟨active,entry,wanted,inside,same,stored⟩
      exact ⟨active,entry,wanted,inside,same,fun t late => stored t (later.trans late)⟩

-- The initial fill refills the streams one after the other.
def FilledBetween (name : IndexName) (batchSize since : Nat) (levIdFloor : Floor) (world : World)
    (tick after : Nat) (stream next : StreamState) : Prop :=
  ∃ start finish, tick ≤ start ∧ finish ≤ after ∧
    Refilled name batchSize since levIdFloor world start stream next finish

theorem initialFill_filled (tick : Nat) (streams : List StreamState) :
    tick ≤ (initialFill name batchSize since levIdFloor world tick streams).tick ∧
    List.Forall₂ (FilledBetween name batchSize since levIdFloor world tick
        (initialFill name batchSize since levIdFloor world tick streams).tick)
      streams (initialFill name batchSize since levIdFloor world tick streams).streams := by
  induction streams generalizing tick with
  | nil => exact ⟨le_refl _,.nil⟩
  | cons stream rest ih =>
    have refilled := (@refillStream_refilled name batchSize since levIdFloor world tick stream)
    rcases filled : refillStream name batchSize since levIdFloor world tick stream with ⟨next,middle⟩
    rw [filled] at refilled
    obtain ⟨later,tail⟩ := ih middle
    have started := refilled.later
    simp only [initialFill,filled]
    refine ⟨by omega,.cons ⟨tick,middle,le_refl _,later,refilled⟩ (tail.imp ?_)⟩
    rintro old new ⟨start,finish,late,early,step⟩
    exact ⟨start,finish,by omega,early,step⟩

theorem seedHeap_heads (state : MergeState) :
    Frontier.Heads (mergeFeed name batchSize since levIdFloor world) state (seedHeap state.streams) := by
  constructor
  · intro head idx
    simp only [seedHeap,List.mem_filterMap,mergeFeed,MergeState.peek,Option.bind_eq_some_iff]
    constructor
    · rintro ⟨⟨stream,place⟩,member,shown⟩
      obtain ⟨top,here,same⟩ := Option.map_eq_some_iff.mp shown
      obtain ⟨rfl,rfl⟩ := Prod.mk.inj same
      exact ⟨stream,List.mem_zipIdx_iff_getElem?.mp member,here⟩
    · rintro ⟨stream,here,shown⟩
      exact ⟨(stream,idx),List.mem_zipIdx_iff_getElem?.mpr here,by simp [shown]⟩
  · rw [seedHeap,List.pairwise_filterMap]
    have places : (state.streams.zipIdx.map Prod.snd).Nodup := by
      rw [List.zipIdx_map_snd]
      exact List.nodup_range'
    refine (List.pairwise_map.mp places).imp ?_
    rintro ⟨_,i⟩ ⟨_,j⟩ apart ⟨a,i'⟩ left ⟨b,j'⟩ right
    obtain ⟨_,_,first⟩ := Option.map_eq_some_iff.mp left
    obtain ⟨_,_,second⟩ := Option.map_eq_some_iff.mp right
    rwa [(Prod.mk.inj first).2,(Prod.mk.inj second).2] at apart

-- What a merge over the given values returns, read against the snapshots it ran over.
structure Merged (name : IndexName) (since untilTs : Nat) (levIdFloor : Floor) (world : World) (tick : Nat)
    (values : List Bytes) (emitLimit : Nat) (results : List Triple) (after : Nat) : Prop where
  later : tick ≤ after
  bounded : results.length ≤ emitLimit
  sound : ∀ x ∈ results, ∃ t, tick ≤ t ∧ ∃ entry ∈ ((world t).env.index name).entries, ∃ value ∈ values,
    Wanted name since levIdFloor value entry ∧ createdAtFromKey entry.1 ≤ untilTs ∧ x = triple entry
  falling : results.Pairwise fun a b => b.sortKey ≤ a.sortKey ∧
    (b.sortKey = a.sortKey → valuePart a.2.2 ≠ valuePart b.2.2)
  complete : ∀ value ∈ values, ∀ entry, Wanted name since levIdFloor value entry →
    createdAtFromKey entry.1 ≤ untilTs →
    (∀ t, tick ≤ t → t < after → entry ∈ ((world t).env.index name).entries) →
    triple entry ∈ results ∨ results.length = emitLimit ∧ ∀ x ∈ results, (triple entry).sortKey ≤ x.sortKey

theorem init_placed {value : Bytes} {ts : Nat} (width : name.ValueLayout value) (small : ts < 2^64) :
    Placed name (initStream (compositeKey value ts)) := by
  refine ⟨by simpa [initStream] using width,fun _ => ⟨ts,small,by simp [initStream]⟩,?_⟩
  intro impossible
  cases impossible

theorem init_scope {value key : Bytes} {ts : Nat} (width : name.ValueLayout value) (small : ts < 2^64)
    (storable : Storable name key) (own : valuePart key = value) :
    (initStream (compositeKey value ts)).scope name key ↔ createdAtFromKey key ≤ ts := by
  change inScope name (compositeKey value ts) true key ↔ _
  rw [scope_first width small storable.1 storable.2,own]
  simp

-- The filled stream at an index is the one of the value at that index, and the other way round.
theorem forall₂_at {α β : Type} {R : α → β → Prop} {left : List α} {right : List β}
    (related : List.Forall₂ R left right) (idx : Nat) :
    (∀ b, right[idx]? = some b → ∃ a, left[idx]? = some a ∧ R a b) ∧
      ∀ a, left[idx]? = some a → ∃ b, right[idx]? = some b ∧ R a b := by
  induction related generalizing idx with
  | nil => simp
  | cons first rest ih =>
    cases idx with
    | zero => simpa using first
    | succ idx => simpa using ih idx

-- No entry of the value is stored, and the highest key below it does not start with its bytes.
def Mute (index : Index name) (value : Bytes) : Prop :=
  (∀ entry ∈ index.entries, valuePart entry.1 ≠ value) ∧
  ∀ low ∈ index.entries, name.valueRank (valuePart low.1) < name.valueRank value → value.isPrefixOf low.1 = true →
    ∃ high ∈ index.entries, name.valueRank (valuePart high.1) < name.valueRank value ∧
      name.keyRank low.1 < name.keyRank high.1

-- Either no key of a lower value starts with the bytes of the value, or the value does not
-- occur and the highest key below it does not start with its bytes.
def Separate (index : Index name) (value : Bytes) : Prop := GuardClean index value ∨ Mute index value

def Separated (name : IndexName) (world : World) (value : Bytes) : Prop :=
  (∀ t, GuardClean ((world t).env.index name) value) ∨ ∀ t, Mute ((world t).env.index name) value

-- The first window of such a value ends its stream.
theorem mute_drained {env : Env} {value : Bytes} {ts : Nat} {next : StreamState} {settled : Bool}
    (positive : 0 < batchSize) (width : name.ValueLayout value) (small : ts < 2^64) (mute : Mute (env.index name) value)
    (refilled : refillWindow name batchSize since levIdFloor env (initStream (compositeKey value ts)) = (next,settled)) :
    settled = true ∧ next.exhausted = true ∧ next.pending = [] := by
  have placed := init_placed width small
  cases final : (collectWindow (env.index name) .Reverse (initStream (compositeKey value ts)).resumeKey
      (initStream (compositeKey value ts)).firstBatch batchSize).getLast? with
  | none =>
    rw [refillWindow_none (List.getLast?_eq_none_iff.mp final)] at refilled
    obtain ⟨rfl,rfl⟩ := Prod.mk.inj refilled
    exact ⟨rfl,rfl,rfl⟩
  | some last =>
    obtain ⟨scanned,lastStored,_⟩ := window_scanned (env.index name) positive final
    rw [refillWindow_some rfl final] at refilled
    generalize collectWindow (env.index name) .Reverse (initStream (compositeKey value ts)).resumeKey
      (initStream (compositeKey value ts)).firstBatch batchSize = batch at *
    obtain ⟨head,tail,rfl⟩ := List.exists_cons_of_ne_nil (show batch ≠ [] by rintro rfl; simp at final)
    have own : (initStream (compositeKey value ts)).keyPrefix = value := by simp [initStream]
    obtain ⟨stored,within⟩ := scanned.member head (by simp)
    have storable := (env.index name).storable stored
    have under := placed.scope_value storable within
    rw [own] at under
    have less : name.valueRank (valuePart head.1) < name.valueRank value :=
      lt_of_le_of_ne under fun same => mute.1 head stored (valueRank_injective (layout_value storable.1) width same)
    have refused : (initStream (compositeKey value ts)).guard head = false := by
      by_contra passed
      rw [StreamState.guard,own,Bool.not_eq_false] at passed
      obtain ⟨high,present,lower,above⟩ := mute.2 head stored less passed
      have inside : inScope name (compositeKey value ts) true high.1 :=
        (scope_first width small (index_layout present) ((env.index name).storable present).2).mpr (.inl lower)
      exact absurd above (not_lt.mpr (scanned.head (index_layout lastStored) present inside))
    rw [List.takeWhile_cons_of_neg (by simp [refused]),if_pos rfl] at refilled
    obtain ⟨rfl,rfl⟩ := Prod.mk.inj refilled
    exact ⟨rfl,rfl,rfl⟩

theorem mute_filled {value : Bytes} {ts start finish : Nat} {next : StreamState} (positive : 0 < batchSize)
    (width : name.ValueLayout value) (small : ts < 2^64) (mute : ∀ t, Mute ((world t).env.index name) value)
    (refilled : Refilled name batchSize since levIdFloor world start (initStream (compositeKey value ts)) next finish) :
    next.exhausted = true ∧ next.pending = [] := by
  cases refilled with
  | first window => exact (mute_drained positive width small (mute start) window).2
  | second floored _ | floored floored _ => cases (mute_drained positive width small (mute start) floored).1

section Seeded
variable {values : List Bytes} {untilTs tick emitLimit : Nat} {state : MergeState}

-- A state whose streams were filled from the start keys of the values, one by one.
def Seeded (name : IndexName) (batchSize since : Nat) (levIdFloor : Floor) (world : World) (tick untilTs : Nat)
    (values : List Bytes) (state : MergeState) : Prop :=
  List.Forall₂ (fun value => FilledBetween name batchSize since levIdFloor world tick state.tick
    (initStream (compositeKey value untilTs))) values state.streams

theorem Seeded.ready (seeded : Seeded name batchSize since levIdFloor world tick untilTs values state)
    (positive : 0 < batchSize) (widths : ∀ value ∈ values, name.ValueLayout value) (small : untilTs < 2^64)
    (separated : ∀ value ∈ values, Separated name world value) : MergeReady name world state := by
  intro stream member
  obtain ⟨idx,here⟩ := List.getElem?_of_mem member
  obtain ⟨value,given,start,finish,_,_,refilled⟩ := (forall₂_at seeded idx).1 stream here
  have known := List.mem_of_getElem? given
  have placed := init_placed (widths value known) small
  have own : (initStream (compositeKey value untilTs)).keyPrefix = value := by simp [initStream]
  rcases separated value known with clean | mute
  · obtain ⟨ready,same⟩ := refilled.ready positive placed rfl (fun t => by rw [own]; exact clean t)
    exact ⟨ready,fun _ t => by rw [same,own]; exact clean t⟩
  · obtain ⟨done,empty⟩ := mute_filled positive (widths value known) small mute refilled
    have ended : ∀ {P : Prop}, stream.exhausted = false → P := fun active => by
      rw [done] at active
      cases active
    exact ⟨⟨(refilled.advanced positive placed rfl).placed,.inl done,by rw [empty]; exact .nil,ended⟩,ended⟩

theorem Seeded.reach (seeded : Seeded name batchSize since levIdFloor world tick untilTs values state)
    (positive : 0 < batchSize) (widths : ∀ value ∈ values, name.ValueLayout value) (small : untilTs < 2^64)
    (separated : ∀ value ∈ values, Separated name world value) {idx : Nat} {x : Triple}
    (reached : MergeReach name since levIdFloor world state idx x) : ∃ value, values[idx]? = some value ∧
      ∃ t, tick ≤ t ∧ ∃ entry ∈ ((world t).env.index name).entries,
        Wanted name since levIdFloor value entry ∧ createdAtFromKey entry.1 ≤ untilTs ∧ x = triple entry := by
  obtain ⟨stream,here,within⟩ := reached
  obtain ⟨value,given,start,finish,late,early,refilled⟩ := (forall₂_at seeded idx).1 stream here
  have known := List.mem_of_getElem? given
  have own : (initStream (compositeKey value untilTs)).keyPrefix = value := by simp [initStream]
  have from_finish : StreamReach name since levIdFloor world finish stream x := by
    refine within.imp_right ?_
    rintro ⟨active,t,later,rest⟩
    exact ⟨active,t,early.trans later,rest⟩
  rcases separated value known with clean | mute
  · obtain ⟨t,later,entry,stored,wanted,inside,same⟩ := refilled.reach positive
      (init_placed (widths value known) small) rfl (fun t => by rw [own]; exact clean t) from_finish
    rw [own] at wanted
    exact ⟨value,given,t,late.trans later,entry,stored,wanted,
      (init_scope (widths value known) small wanted.storable wanted.own).mp inside,same⟩
  · obtain ⟨done,empty⟩ := mute_filled positive (widths value known) small mute refilled
    rcases within with pending | ⟨active,_⟩
    · rw [empty] at pending
      cases pending
    · rw [done] at active
      cases active

theorem Seeded.ahead (seeded : Seeded name batchSize since levIdFloor world tick untilTs values state)
    (positive : 0 < batchSize) (widths : ∀ value ∈ values, name.ValueLayout value) (small : untilTs < 2^64)
    {horizon : Nat} (alive : state.tick ≤ horizon) {value : Bytes} (known : value ∈ values) {entry : Entry}
    (wanted : Wanted name since levIdFloor value entry) (early : createdAtFromKey entry.1 ≤ untilTs)
    (stored : ∀ t, tick ≤ t → t < horizon → entry ∈ ((world t).env.index name).entries) :
    ∃ idx, MergeAhead name since levIdFloor world horizon state idx (triple entry) := by
  obtain ⟨idx,given⟩ := List.getElem?_of_mem known
  obtain ⟨stream,here,start,finish,late,before,refilled⟩ := (forall₂_at seeded idx).2 value given
  have own : (initStream (compositeKey value untilTs)).keyPrefix = value := by simp [initStream]
  rw [← own] at wanted
  have owed := refilled.ahead positive (init_placed (widths value known) small) rfl (before.trans alive) wanted
    ((init_scope (widths value known) small wanted.storable (wanted.own.trans own)).mpr early)
    fun t later inside => stored t (late.trans later) inside
  refine ⟨idx,stream,here,owed.imp_right ?_⟩
  rintro ⟨active,other,fine,within,same,seen⟩
  exact ⟨active,other,fine,within,same,fun t later => seen t (before.trans later)⟩

theorem mergeWindowed_merged (positive : 0 < batchSize) (widths : ∀ value ∈ values, name.ValueLayout value)
    (distinct : values.Nodup) (small : untilTs < 2^64)
    (separated : ∀ value ∈ values, Separated name world value) {results : List Triple} {after : Nat}
    (merged : mergeWindowed name batchSize since levIdFloor world tick
      (values.map (compositeKey · untilTs)) emitLimit = (results,after)) :
    Merged name since untilTs levIdFloor world tick values emitLimit results after := by
  unfold mergeWindowed at merged
  split at merged
  · rename_i trivial
    obtain ⟨rfl,rfl⟩ := Prod.mk.inj merged
    refine ⟨le_refl _,by simp,by simp,.nil,?_⟩
    intro value member entry _ _ _
    rcases trivial with none_given | zero
    · rw [List.isEmpty_iff,List.map_eq_nil_iff] at none_given
      rw [none_given] at member
      cases member
    · exact .inr ⟨zero.symm,by simp⟩
  · obtain ⟨started,seeded⟩ := (@initialFill_filled name batchSize since levIdFloor world) tick ((values.map (compositeKey · untilTs)).map initStream)
    generalize initialFill name batchSize since levIdFloor world tick
      ((values.map (compositeKey · untilTs)).map initStream) = state at *
    rw [List.map_map,List.forall₂_map_left_iff] at seeded
    change Seeded name batchSize since levIdFloor world tick untilTs values state at seeded
    have heads := (@seedHeap_heads name batchSize since levIdFloor world) state
    have fine := seeded.ready positive widths small separated
    rcases drained : Frontier.drain (mergeFeed name batchSize since levIdFloor world) Triple.sortKey emitLimit
      state (seedHeap state.streams) with ⟨emitted,final⟩
    simp only [drained,Prod.mk.injEq] at merged
    obtain ⟨rfl,rfl⟩ := merged
    have law := fun horizon => (@merge_lawful name _ since levIdFloor world) positive horizon
    have through : state.tick ≤ final.tick :=
      Frontier.drain_live (law final.tick) emitLimit state _ (by rw [drained])
    refine ⟨started.trans through,?_,?_,?_,?_⟩
    · have bounded := (@Frontier.drain_length _ _ _ _ (mergeFeed name batchSize since levIdFloor world) Triple.sortKey) emitLimit state (seedHeap state.streams)
      rwa [drained] at bounded
    · intro x member
      obtain ⟨idx,reached⟩ := Frontier.drain_sound (law 0) emitLimit state _ fine heads x (by rwa [drained])
      obtain ⟨value,given,t,late,entry,stored,rest⟩ := seeded.reach positive widths small separated reached
      exact ⟨t,late,entry,stored,value,List.mem_of_getElem? given,rest⟩
    · have sorted := Frontier.drain_sorted (law 0) emitLimit state _ fine heads
      rw [drained] at sorted
      refine sorted.imp ?_
      rintro a b ⟨under,tied⟩
      refine ⟨under,fun equal same => ?_⟩
      obtain ⟨i,j,apart,left,right⟩ := tied equal
      obtain ⟨first,atI,_,_,_,_,wantedI,_,rfl⟩ := seeded.reach positive widths small separated left
      obtain ⟨second,atJ,_,_,_,_,wantedJ,_,rfl⟩ := seeded.reach positive widths small separated right
      have values_same : first = second := wantedI.own.symm.trans (same.trans wantedJ.own)
      rw [values_same] at atI
      exact apart ((List.getElem?_inj (List.getElem?_eq_some_iff.mp atI).1 distinct).mp (atI.trans atJ.symm))
    · intro value known entry wanted early stored
      obtain ⟨idx,owed⟩ := seeded.ahead positive widths small through known wanted early stored
      have found := Frontier.drain_complete (law final.tick) emitLimit state _ fine heads (by rw [drained]) owed
      rwa [drained] at found

end Seeded
end DeepFry.Query
