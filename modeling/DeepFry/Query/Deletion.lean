import DeepFry.Query.Pages

namespace DeepFry.Query
open Lmdb Bytes
variable {name : IndexName} {batchSize since : Nat} {levIdFloor : Floor} {world : World}

section Provenance
variable {first tick after : Nat} {stream next : StreamState} {settled : Bool}

-- The buffered entries were read out of the index between two ticks.
def ReadFrom (name : IndexName) (world : World) (first after : Nat) (x : Triple) : Prop :=
  ∃ t, first ≤ t ∧ t < after ∧ ∃ entry ∈ ((world t).env.index name).entries, x = triple entry

theorem ReadFrom.mono {later : Nat} {x : Triple} (read : ReadFrom name world first after x) (step : after ≤ later) :
    ReadFrom name world first later x := by
  obtain ⟨t,low,high,rest⟩ := read
  exact ⟨t,low,high.trans_le step,rest⟩

theorem refillWindow_stored {env : Env} (positive : 0 < batchSize)
    (refilled : refillWindow name batchSize since levIdFloor env stream = (next,settled)) :
    ∀ x ∈ next.buffer, x ∈ stream.buffer ∨ ∃ entry ∈ (env.index name).entries, x = triple entry := by
  intro x member
  apply (refillWindow_buffer refilled x member).imp_right
  rintro ⟨_,entry,here,rfl⟩
  obtain ⟨scanned,_,_⟩ := window_scanned (env.index name) positive (List.getLast?_eq_some_getLast (List.ne_nil_of_mem here))
  exact ⟨entry,(scanned.member entry here).1,rfl⟩

theorem Refilled.buffer (refilled : Refilled name batchSize since levIdFloor world tick stream next after)
    (positive : 0 < batchSize) (low : first ≤ tick) (known : ∀ x ∈ stream.buffer, ReadFrom name world first tick x) :
    ∀ x ∈ next.buffer, ReadFrom name world first after x := by
  have window : ∀ {t : Nat} {old new : StreamState} {settled : Bool}, first ≤ t →
      refillWindow name batchSize since levIdFloor (world t).env old = (new,settled) →
      (∀ x ∈ old.buffer, ReadFrom name world first t x) → ∀ x ∈ new.buffer, ReadFrom name world first (t + 1) x := by
    intro t old new settled late step prior x member
    rcases refillWindow_stored positive step x member with old | ⟨entry,stored,rfl⟩
    · exact (prior x old).mono (Nat.le_succ t)
    · exact ⟨t,late,Nat.lt_succ_self t,entry,stored,rfl⟩
  cases refilled with
  | first step => exact window low step known
  | second floored step => exact window (low.trans (Nat.le_succ _)) step (window low floored known)
  | floored floored step =>
    intro x member
    cases member

def MergeFrom (name : IndexName) (world : World) (first : Nat) (state : MergeState) : Prop :=
  first ≤ state.tick ∧ ∀ stream ∈ state.streams, ∀ x ∈ stream.buffer, ReadFrom name world first state.tick x

theorem MergeFrom.advance {state : MergeState} (positive : 0 < batchSize) (read : MergeFrom name world first state)
    (idx : Nat) : MergeFrom name world first (state.advance name batchSize since levIdFloor world idx) ∧
      state.tick ≤ (state.advance name batchSize since levIdFloor world idx).tick := by
  unfold MergeState.advance
  split
  · exact ⟨read,le_refl _⟩
  · rename_i stream here
    rcases stepped : advanceStream name batchSize since levIdFloor world state.tick stream with ⟨next,after⟩
    have known := read.2 stream (List.mem_of_getElem? here)
    obtain ⟨later,fresh⟩ : state.tick ≤ after ∧ ∀ x ∈ next.buffer, ReadFrom name world first after x := by
      rcases advanceStream_cases stepped with ⟨_,rfl,rfl⟩ | ⟨_,_,refilled⟩
      · exact ⟨le_refl _,known⟩
      · exact ⟨refilled.later.le,refilled.buffer positive read.1 known⟩
    refine ⟨⟨read.1.trans later,?_⟩,later⟩
    intro other member
    rcases List.mem_or_eq_of_mem_set member with prior | rfl
    · exact fun x inside => (read.2 other prior x inside).mono later
    · exact fresh

-- Every merged entry stood in the index at some read of the merge, whatever the guard lets by.
theorem mergeWindowed_from (positive : 0 < batchSize) {startKeys : List Bytes} {emitLimit : Nat}
    {results : List Triple}
    (merged : mergeWindowed name batchSize since levIdFloor world tick startKeys emitLimit = (results,after)) :
    tick ≤ after ∧ ∀ x ∈ results, ReadFrom name world tick after x := by
  unfold mergeWindowed at merged
  split at merged
  · obtain ⟨rfl,rfl⟩ := Prod.mk.inj merged
    exact ⟨le_refl _,by simp⟩
  · obtain ⟨started,filled⟩ := (@initialFill_filled name batchSize since levIdFloor world) tick (startKeys.map initStream)
    generalize initialFill name batchSize since levIdFloor world tick (startKeys.map initStream) = state at *
    have read : MergeFrom name world tick state := by
      refine ⟨started,fun stream member => ?_⟩
      obtain ⟨idx,here⟩ := List.getElem?_of_mem member
      obtain ⟨fresh,given,start,finish,late,early,refilled⟩ := (forall₂_at filled idx).1 stream here
      obtain ⟨key,_,rfl⟩ := List.mem_map.mp (List.mem_of_getElem? given)
      exact fun x inside => (refilled.buffer positive late (by simp [initStream]) x inside).mono early
    have heads := (@seedHeap_heads name batchSize since levIdFloor world) state
    have peeked : ∀ {s : MergeState} {i : Nat} {a : Triple}, MergeFrom name world tick s → s.peek i = some a →
        ReadFrom name world tick s.tick a := by
      intro s i a fine shown
      obtain ⟨stream,here,head⟩ := state_peek shown
      exact fine.2 stream (List.mem_of_getElem? here) a (List.mem_of_getElem? head)
    obtain ⟨last,emitted⟩ := (@Frontier.drain_shows _ _ _ _ _ (mergeFeed name batchSize since levIdFloor world) Triple.sortKey (MergeFrom name world tick) (fun s => ReadFrom name world tick s.tick))
      peeked (fun fine => (fine.advance positive _).1) (fun fine read => read.mono (fine.advance positive _).2)
      emitLimit state (seedHeap state.streams) read
      (fun pair member => peeked read ((heads.1 pair.1 pair.2).mp member))
    rcases drained : Frontier.drain (mergeFeed name batchSize since levIdFloor world) Triple.sortKey emitLimit
      state (seedHeap state.streams) with ⟨out,final⟩
    rw [drained] at emitted last
    simp only [drained,Prod.mk.injEq] at merged
    obtain ⟨rfl,rfl⟩ := merged
    exact ⟨last.1,fun x member => emitted x (.inl member)⟩

end Provenance
section Execute
variable {codec : Codec} {dictCache : DictCache} {history : History codec dictCache} {filter : NostrFilter}
  {limit tick after : Nat} {error : QueryError}

-- The one failure of a query: a levId listed by a scan whose event was gone when its payload
-- was read.
def LostAfter (history : History codec dictCache) (first : Nat) (error : QueryError) : Prop :=
  ∃ levId listed read, error = .Payload (.LevIdNotFound levId) ∧ first ≤ listed ∧ listed < read ∧
    (∃ event ∈ (history.snapshot listed).events, event.levId = levId) ∧
    ∀ event ∈ (history.snapshot read).events, event.levId ≠ levId

theorem LostAfter.earlier {first start : Nat} (lost : LostAfter history first error) (early : start ≤ first) :
    LostAfter history start error := by
  obtain ⟨levId,listed,read,same,late,rest⟩ := lost
  exact ⟨levId,listed,read,same,early.trans late,rest⟩

theorem payload_none {snapshot : Snapshot codec dictCache} {levId : LevId} (missing : snapshot.payload levId = none) :
    ∀ event ∈ snapshot.events, event.levId ≠ levId := by
  intro event stored same
  have found := payload_exact stored
  rw [same,missing] at found
  cases found

theorem hydrateLevIds_error {levIds : List LevId}
    (failed : hydrateLevIds codec dictCache history.world tick levIds = .error error) :
    ∃ levId ∈ levIds, ∃ read, tick ≤ read ∧ error = .Payload (.LevIdNotFound levId) ∧
      ∀ event ∈ (history.snapshot read).events, event.levId ≠ levId := by
  induction levIds generalizing tick with
  | nil => cases failed
  | cons levId rest ih =>
    unfold hydrateLevIds at failed
    cases found : (history.snapshot tick).payload levId with
    | none =>
      simp only [getEventPayload,History.world,Snapshot.env,found,Except.error.injEq] at failed
      exact ⟨levId,by simp,tick,le_refl _,failed.symm,payload_none found⟩
    | some raw =>
      simp only [getEventPayload,History.world,Snapshot.env,found] at failed
      change (hydrateLevIds codec dictCache history.world (tick + 1) rest >>= _) = _ at failed
      cases tail : hydrateLevIds codec dictCache history.world (tick + 1) rest with
      | error cause =>
        rw [tail] at failed
        cases failed
        obtain ⟨lost,member,read,late,facts⟩ := ih tail
        exact ⟨lost,List.mem_cons_of_mem _ member,read,by omega,facts⟩
      | ok pair =>
        rw [tail] at failed
        cases decoded : decodeEventPayloadWithCache codec raw dictCache <;>
          · simp only [bind,Except.bind,decoded] at failed
            cases failed

theorem listed_stored {first : Nat} {x : Triple} (read : ReadFrom filter.indexName history.world first after x) :
    ∃ t, first ≤ t ∧ t < after ∧ ∃ event ∈ (history.snapshot t).events, event.position = (x.1,x.2.1) := by
  obtain ⟨t,low,high,entry,stored,rfl⟩ := read
  obtain ⟨event,present,value,_,rfl⟩ := mem_history_index.mp stored
  exact ⟨t,low,high,event,present,by rw [position_triple]; rfl⟩

variable {state : QueryState}

theorem queryRound_error (positive : 0 < batchSize)
    (failed : queryRound codec dictCache history.world filter batchSize limit state = .error error) :
    LostAfter history state.tick error := by
  unfold queryRound at failed
  simp only [List.isEmpty_iff] at failed
  split at failed
  · cases failed
  · rcases merged : mergeWindowed filter.indexName batchSize (filter.since.getD 0) state.roundBoundary history.world
      state.tick (roundStartKeys filter state.roundBoundary) (emitLimitOf limit) with ⟨results,middle⟩
    rw [merged] at failed
    obtain ⟨started,listed⟩ := mergeWindowed_from positive merged
    change (hydrateAndAdmit codec dictCache history.world filter limit middle state.valid
        ((positions results).filter fun position => !excludedBy state.roundBoundary position) >>= _) = _ at failed
    unfold hydrateAndAdmit at failed
    split at failed
    · cases failed
    · cases read : hydrateLevIds codec dictCache history.world middle
          (((positions results).filter fun position => !excludedBy state.roundBoundary position).map Prod.snd) with
      | ok pair =>
        rw [read] at failed
        cases failed
      | error cause =>
        rw [read] at failed
        cases failed
        obtain ⟨levId,member,t,late,same,gone⟩ := hydrateLevIds_error read
        obtain ⟨position,inside,rfl⟩ := List.mem_map.mp member
        obtain ⟨x,here,rfl⟩ := List.mem_map.mp (List.mem_filter.mp inside).1
        obtain ⟨s,low,high,event,stored,place⟩ := listed_stored (listed x here)
        exact ⟨_,s,t,same,low,by omega,⟨event,stored,congrArg Prod.snd place⟩,gone⟩

-- The positions a query lists for hydration, in this round or in a later one, with the ticks
-- between which that round hydrates them and looks at the clock.
inductive Scans (codec : Codec) (dictCache : DictCache) (world : World) (filter : NostrFilter) (batchSize limit : Nat) :
    QueryState → Position → Nat → Nat → Prop where
  | now {state position results middle outcome} (some_keys : roundStartKeys filter state.roundBoundary ≠ [])
      (merged : mergeWindowed filter.indexName batchSize (filter.since.getD 0) state.roundBoundary world state.tick
        (roundStartKeys filter state.roundBoundary) (emitLimitOf limit) = (results,middle))
      (listed : position ∈ (positions results).filter fun position => !excludedBy state.roundBoundary position)
      (round : queryRound codec dictCache world filter batchSize limit state = .ok outcome) :
      Scans codec dictCache world filter batchSize limit state position middle outcome.state.tick
  | later {state next position first last}
      (round : queryRound codec dictCache world filter batchSize limit state = .ok (.again next))
      (scans : Scans codec dictCache world filter batchSize limit next position first last) :
      Scans codec dictCache world filter batchSize limit state position first last

-- An event that was stored at some time, passes the residual and is unexpired from one tick to
-- another. Whether it still stands at its hydration is for the call to find out.
structure Fitting (history : History codec dictCache) (filter : NostrFilter) (first last : Nat)
    (event : StoredEvent codec dictCache) (decoded : DecodedEvent) : Prop where
  stored : ∃ t, event ∈ (history.snapshot t).events
  decodes : event.decode = .ok decoded
  fits : residual filter decoded.event = true
  unexpired : ∀ t, first ≤ t → t < last → isExpired (history.now t) decoded.event = false

def ReadAfter (history : History codec dictCache) (first : Nat) (survivor : Survivor) : Prop :=
  ∃ t, first ≤ t ∧ ∃ event ∈ (history.snapshot t).events, event.levId = survivor.1.2 ∧ event.decode = .ok survivor.2

def Returned (valid : List Survivor) (event : StoredEvent codec dictCache) (decoded : DecodedEvent) : Prop :=
  ∃ survivor ∈ valid, survivor.1.2 = event.levId ∧ survivor.2 = decoded

theorem hydrateAndAdmit_fitting {middle : Nat} {valid final : List Survivor} {listed : List Position}
    (ran : hydrateAndAdmit codec dictCache history.world filter limit middle valid listed = .ok (final,after)) :
    middle ≤ after ∧ (valid.length ≤ limit → final.length ≤ limit) ∧
      (∃ fresh, final = valid ++ fresh ∧ ∀ survivor ∈ fresh, ReadAfter history middle survivor) ∧
      ∀ event decoded, Fitting history filter middle after event decoded → event.position ∈ listed →
        Returned final event decoded ∨ limit ≤ final.length := by
  rcases hydrateAndAdmit_cases ran with ⟨rfl,rfl,rfl⟩ | ⟨pairs,tick,read,ran⟩
  · exact ⟨le_refl _,id,⟨[],by simp,by simp⟩,by simp⟩
  · have hydrated := hydrateLevIds_hydrated read
    have first := hydrated.later
    obtain ⟨fresh,finish,run,admitted⟩ := (@admitBatch_admitted history.world filter limit (fun _ _ => True) listed)
      (List.pairwise_iff_getElem.mpr fun _ _ _ _ _ => trivial) tick (hydratedMap pairs) valid
    have second := admitted.later
    obtain ⟨rfl,rfl⟩ := Prod.mk.inj (ran.symm.trans run)
    refine ⟨by omega,admitted.bounded,⟨fresh,rfl,?_⟩,?_⟩
    · intro survivor member
      exact hydrated.stored _ (hydrated.map_exact.mp (admitted.checked survivor member).1)
    · intro event decoded fitting member
      obtain ⟨t,stored⟩ := fitting.stored
      have pair := hydrated.kept t event stored decoded (List.mem_map_of_mem member) fitting.decodes
      rcases admitted.complete _ member decoded (hydrated.map_exact.mpr pair) fitting.fits
        (fun t late early => fitting.unexpired t (by omega) early) with ⟨survivor,inside,facts⟩ | ⟨full,_⟩
      · exact .inl ⟨survivor,List.mem_append_right _ inside,facts⟩
      · exact .inr full

-- What any prefix of the loop keeps, whatever is deleted meanwhile.
structure Kept (history : History codec dictCache) (start limit : Nat) (state : QueryState) : Prop where
  later : start ≤ state.tick
  bounded : state.valid.length ≤ limit
  read : ∀ survivor ∈ state.valid, ReadAfter history start survivor

variable {start : Nat} {outcome : RoundOutcome}

theorem queryRound_kept (positive : 0 < batchSize) (kept : Kept history start limit state)
    (ran : queryRound codec dictCache history.world filter batchSize limit state = .ok outcome) :
    Kept history start limit outcome.state ∧ state.tick ≤ outcome.state.tick ∧
      (∃ fresh, outcome.state.valid = state.valid ++ fresh) ∧
      ∀ event decoded results middle, roundStartKeys filter state.roundBoundary ≠ [] →
        mergeWindowed filter.indexName batchSize (filter.since.getD 0) state.roundBoundary history.world state.tick
          (roundStartKeys filter state.roundBoundary) (emitLimitOf limit) = (results,middle) →
        (event.position ∈ (positions results).filter fun position => !excludedBy state.roundBoundary position) →
        Fitting history filter middle outcome.state.tick event decoded →
        Returned outcome.state.valid event decoded ∨ limit ≤ outcome.state.valid.length := by
  rcases queryRound_cases ran with ⟨empty,rfl⟩ | ⟨results,middle,valid,after,merged,admitted,rfl⟩
  · refine ⟨kept,le_refl _,⟨[],by simp [RoundOutcome.state]⟩,?_⟩
    intro event decoded _ _ some_keys
    exact absurd empty some_keys
  · obtain ⟨same_valid,same_tick⟩ := (@concludeRound_state limit) (positions results).getLast?
      ⟨valid,state.roundBoundary,state.rounds + 1,decide (results.length < emitLimitOf limit),
        (positions results).getLast?.or state.deepestScanned,after⟩
    obtain ⟨started,_⟩ := mergeWindowed_from positive merged
    obtain ⟨later,bounded,⟨fresh,rfl,read⟩,complete⟩ := hydrateAndAdmit_fitting admitted
    have begun := kept.later
    refine ⟨⟨by rw [same_tick]; change _ ≤ after; omega,by rw [same_valid]; exact bounded kept.bounded,?_⟩,
      by rw [same_tick]; change _ ≤ after; omega,⟨fresh,same_valid⟩,?_⟩
    · rw [same_valid]
      intro survivor member
      rcases List.mem_append.mp member with prior | new
      · exact kept.read survivor prior
      · obtain ⟨t,late,rest⟩ := read survivor new
        exact ⟨t,by omega,rest⟩
    · intro event decoded others begins _ again member fitting
      obtain ⟨rfl,rfl⟩ := Prod.mk.inj (merged.symm.trans again)
      rw [same_tick] at fitting
      rw [same_valid]
      exact complete event decoded fitting member

theorem queryLoop_kept (positive : 0 < batchSize) {fuel : Nat} (kept : Kept history start limit state)
    (budget : state.rounds + fuel = MAX_ROUNDS) (pending : state.rounds < MAX_ROUNDS) :
    (∀ error, queryLoop codec dictCache history.world filter batchSize limit fuel state = .error error →
      LostAfter history start error) ∧
    ∀ final, queryLoop codec dictCache history.world filter batchSize limit fuel state = .ok final →
      Kept history start limit final ∧ state.tick ≤ final.tick ∧
      (∃ fresh, final.valid = state.valid ++ fresh) ∧
      ∀ event decoded first last, Scans codec dictCache history.world filter batchSize limit state event.position first last →
        Fitting history filter first last event decoded →
        Returned final.valid event decoded ∨ limit ≤ final.valid.length := by
  induction fuel generalizing state with
  | zero => omega
  | succ fuel ih =>
    cases round : queryRound codec dictCache history.world filter batchSize limit state with
    | error cause =>
      have looped : queryLoop codec dictCache history.world filter batchSize limit (fuel + 1) state = .error cause := by
        simp only [queryLoop,round,bind,Except.bind]
      rw [looped]
      refine ⟨?_,by simp⟩
      rintro error ⟨⟩
      exact (queryRound_error positive round).earlier kept.later
    | ok outcome =>
      obtain ⟨next_kept,forward,grown,admits⟩ := queryRound_kept positive kept round
      cases outcome with
      | stop last =>
        have looped : queryLoop codec dictCache history.world filter batchSize limit (fuel + 1) state = .ok last := by
          simp only [queryLoop,round,bind,Except.bind]
          rfl
        rw [looped]
        refine ⟨by simp,?_⟩
        rintro final ⟨⟩
        refine ⟨next_kept,forward,grown,?_⟩
        intro event decoded first stop scans fitting
        cases scans with
        | now some_keys merged listed other =>
          cases round.symm.trans other
          exact admits event decoded _ _ some_keys merged listed fitting
        | later other _ =>
          rw [round] at other
          cases other
      | again next =>
        have looped : queryLoop codec dictCache history.world filter batchSize limit (fuel + 1) state =
            queryLoop codec dictCache history.world filter batchSize limit fuel next := by
          simp only [queryLoop,round,bind,Except.bind]
        obtain ⟨count,more⟩ : next.rounds = state.rounds + 1 ∧ next.rounds < MAX_ROUNDS := by
          rcases queryRound_cases round with ⟨_,impossible⟩ | ⟨results,middle,valid,after,_,_,same⟩
          · cases impossible
          · obtain ⟨continues,_,_,room⟩ := concludeRound_again same.symm
            rw [continues] at room ⊢
            exact ⟨rfl,room⟩
        rw [looped]
        change Kept history start limit next at next_kept
        change state.tick ≤ next.tick at forward
        have reached := ih next_kept (by omega) more
        refine ⟨reached.1,?_⟩
        intro final finished
        obtain ⟨last_kept,onward,further,complete⟩ := reached.2 final finished
        obtain ⟨fresh,split⟩ := grown
        obtain ⟨others,extended⟩ := further
        change next.valid = state.valid ++ fresh at split
        refine ⟨last_kept,by omega,⟨fresh ++ others,by rw [extended,split,List.append_assoc]⟩,?_⟩
        intro event decoded first stop scans fitting
        cases scans with
        | now some_keys merged listed other =>
          cases round.symm.trans other
          have early := admits event decoded _ _ some_keys merged listed fitting
          change Returned next.valid event decoded ∨ limit ≤ next.valid.length at early
          rw [extended]
          rcases early with ⟨survivor,inside,facts⟩ | full
          · exact .inl ⟨survivor,List.mem_append_left _ inside,facts⟩
          · exact .inr (full.trans (by simp))
        | later other deeper =>
          rw [round] at other
          cases other
          exact complete event decoded _ _ deeper fitting

variable {cursor : Option PageCursor}

theorem executeQuery_kept (positive : 0 < batchSize) :
    (∀ error, executeQueryInternal codec dictCache history.world filter tick cursor batchSize = .error error →
      LostAfter history tick error) ∧
    ∀ page, executeQueryInternal codec dictCache history.world filter tick cursor batchSize = .ok page →
      (∀ survivor ∈ page.valid, ReadAfter history tick survivor) ∧
      ∀ event decoded first last, Scans codec dictCache history.world filter batchSize (effectiveLimit filter)
          (queryStart tick cursor) event.position first last →
        Fitting history filter first last event decoded →
        Returned page.valid event decoded ∨ page.valid.length = effectiveLimit filter := by
  have kept : Kept history tick (effectiveLimit filter) (queryStart tick cursor) :=
    ⟨le_refl _,Nat.zero_le _,by simp [queryStart]⟩
  obtain ⟨fails,returns⟩ := (@queryLoop_kept _ codec dictCache _ filter _ _ _ positive MAX_ROUNDS) kept rfl (Nat.zero_lt_succ _)
  cases looped : queryLoop codec dictCache history.world filter batchSize (effectiveLimit filter) MAX_ROUNDS
      (queryStart tick cursor) with
  | error cause =>
    have result : executeQueryInternal codec dictCache history.world filter tick cursor batchSize = .error cause := by
      simp only [executeQueryInternal,looped,bind,Except.bind]
    rw [result]
    refine ⟨?_,by simp⟩
    rintro error ⟨⟩
    exact fails _ looped
  | ok final =>
    obtain ⟨last,_,_,complete⟩ := returns final looped
    have whole : final.valid.take (effectiveLimit filter) = final.valid := List.take_of_length_le last.bounded
    have result : executeQueryInternal codec dictCache history.world filter tick cursor batchSize =
        .ok ⟨final.valid,nextCursorOf (effectiveLimit filter) final final.valid,final.tick⟩ := by
      simp only [executeQueryInternal,looped,bind,Except.bind,whole]
      rfl
    rw [result]
    refine ⟨by simp,?_⟩
    rintro page ⟨⟩
    refine ⟨last.read,fun event decoded first stop scans fitting => ?_⟩
    exact (complete event decoded first stop scans fitting).imp_right (le_antisymm last.bounded)

end Execute

section Latest
variable {codec : Codec} {dictCache : DictCache} {history : History codec dictCache} {error : QueryError}
  {kind perAuthor tick after first : Nat} {pubkey : Bytes}

theorem batchGet_cases (snapshot : Snapshot codec dictCache) (levIds : List LevId) :
    (∃ levId ∈ levIds, batchGetEventPayloads snapshot.env levIds = .error (.LevIdNotFound levId) ∧
      ∀ event ∈ snapshot.events, event.levId ≠ levId) ∨
    ∃ raws, batchGetEventPayloads snapshot.env levIds = .ok raws ∧
      (∀ pair ∈ raws, snapshot.payload pair.1 = some pair.2) ∧
      ∀ levId ∈ levIds, ∃ raw, (levId,raw) ∈ raws := by
  induction levIds with
  | nil => exact .inr ⟨[],rfl,by simp,by simp⟩
  | cons levId rest ih =>
    unfold batchGetEventPayloads
    cases found : snapshot.payload levId with
    | none =>
      refine .inl ⟨levId,by simp,?_,payload_none found⟩
      simp only [getEventPayload,Snapshot.env,found]
      rfl
    | some raw =>
      simp only [getEventPayload,show snapshot.env.eventPayload levId = some raw from found]
      rcases ih with ⟨lost,member,failed,gone⟩ | ⟨raws,read,stored,listed⟩
      · refine .inl ⟨lost,List.mem_cons_of_mem _ member,?_,gone⟩
        rw [failed]
        rfl
      · refine .inr ⟨(levId,raw) :: raws,by rw [read]; rfl,?_,?_⟩
        · intro pair member
          rcases List.mem_cons.mp member with rfl | later
          · exact found
          · exact stored pair later
        · intro other member
          rcases List.mem_cons.mp member with rfl | later
          · exact ⟨raw,by simp⟩
          · obtain ⟨value,inside⟩ := listed other later
            exact ⟨value,List.mem_cons_of_mem _ inside⟩

theorem hydrateBatch_cases (snapshot : Snapshot codec dictCache) (levIds : List LevId) :
    (∃ levId ∈ levIds, hydrateLevIdsBatch codec dictCache snapshot.env levIds =
        .error (.Payload (.LevIdNotFound levId)) ∧ ∀ event ∈ snapshot.events, event.levId ≠ levId) ∨
    ∃ pairs, hydrateLevIdsBatch codec dictCache snapshot.env levIds = .ok pairs ∧
      (∀ pair ∈ pairs, ∃ event ∈ snapshot.events, event.levId = pair.1 ∧ event.decode = .ok pair.2) ∧
      (∀ levId ∈ levIds, ∃ event ∈ snapshot.events, event.levId = levId) ∧
      ∀ event ∈ snapshot.events, ∀ decoded, event.levId ∈ levIds → event.decode = .ok decoded →
        (event.levId,decoded) ∈ pairs := by
  unfold hydrateLevIdsBatch
  by_cases empty : levIds.isEmpty
  · rw [if_pos empty,List.isEmpty_iff.mp empty]
    exact .inr ⟨[],rfl,by simp,by simp,by simp⟩
  · rw [if_neg empty]
    rcases batchGet_cases snapshot levIds with ⟨lost,member,failed,gone⟩ | ⟨raws,read,stored,listed⟩
    · exact .inl ⟨lost,member,by rw [failed],gone⟩
    · refine .inr ⟨_,by rw [read],?_,?_,?_⟩
      · intro pair member
        obtain ⟨⟨levId,raw⟩,inside,decoded⟩ := List.mem_filterMap.mp member
        obtain ⟨event,present,named,payload⟩ := payload_some (stored _ inside)
        simp only at decoded
        split at decoded
        · rename_i value decodes
          cases decoded
          exact ⟨event,present,named,by rw [StoredEvent.decode,payload]; exact decodes⟩
        · cases decoded
      · intro levId member
        obtain ⟨raw,inside⟩ := listed levId member
        obtain ⟨event,present,named,_⟩ := payload_some (stored _ inside)
        exact ⟨event,present,named⟩
      · intro event present decoded member decodes
        obtain ⟨raw,inside⟩ := listed event.levId member
        have same := stored _ inside
        rw [payload_exact present] at same
        cases same
        refine List.mem_filterMap.mpr ⟨_,inside,?_⟩
        simp only
        rw [StoredEvent.decode] at decodes
        rw [decodes]

-- What the bucket of one author holds after the scan at a tick. The hydration is the next read, the
-- clock is read from then on.
structure Answers (history : History codec dictCache) (kind perAuthor first scan after : Nat) (pubkey : Bytes)
    (events : List DecodedEvent) : Prop where
  read : ∀ decoded ∈ events, ∃ t, first ≤ t ∧ ∃ event ∈ (history.snapshot t).events, event.decode = .ok decoded
  complete : ∀ t, ∀ event ∈ (history.snapshot t).events, ∀ decoded,
    event.levId ∈ latestMatching (history.world scan).env kind perAuthor pubkey → event.decode = .ok decoded →
    (∀ t, scan + 2 ≤ t → t < after → isExpired (history.now t) decoded.event = false) → decoded ∈ events

theorem latestMatching_stored {snapshot : Snapshot codec dictCache} {levId : LevId} (positive : 0 < perAuthor)
    (member : levId ∈ latestMatching snapshot.env kind perAuthor pubkey) :
    ∃ event ∈ snapshot.events, event.levId = levId := by
  obtain ⟨entry,inside,rfl⟩ := List.mem_map.mp member
  have scanned := (List.mem_filter.mp inside).1
  rw [scanIndexBounded,if_neg positive.ne'] at scanned
  have stored := (mem_revRange.mp (List.mem_of_mem_take scanned)).1
  obtain ⟨event,present,_,_,rfl⟩ := mem_listing.mp stored
  exact ⟨event,present,rfl⟩

theorem latestForAuthor_cases (positive : 0 < perAuthor) (low : first ≤ tick) :
    (∃ error, latestForAuthor codec dictCache history.world kind perAuthor tick pubkey = .error error ∧
      LostAfter history first error) ∨
    ∃ events after, latestForAuthor codec dictCache history.world kind perAuthor tick pubkey = .ok (events,after) ∧
      tick ≤ after ∧ Answers history kind perAuthor first tick after pubkey events := by
  unfold latestForAuthor
  by_cases empty : (latestMatching (history.world tick).env kind perAuthor pubkey).isEmpty
  · simp only [if_pos empty]
    refine .inr ⟨[],tick + 1,rfl,Nat.le_succ _,by simp,?_⟩
    intro t event present decoded member
    rw [List.isEmpty_iff.mp empty] at member
    cases member
  · simp only [if_neg empty]
    rcases hydrateBatch_cases (history.snapshot (tick + 1)) (latestMatching (history.world tick).env kind perAuthor pubkey)
      with ⟨levId,member,failed,gone⟩ | ⟨pairs,read,stored,found,complete⟩
    · have ran : hydrateLevIdsBatch codec dictCache (history.world (tick + 1)).env
          (latestMatching (history.world tick).env kind perAuthor pubkey) = .error (.Payload (.LevIdNotFound levId)) :=
        failed
      rw [ran]
      refine .inl ⟨_,rfl,levId,tick,tick + 1,rfl,low,Nat.lt_succ_self _,?_,gone⟩
      exact latestMatching_stored positive member
    · have ran : hydrateLevIdsBatch codec dictCache (history.world (tick + 1)).env
          (latestMatching (history.world tick).env kind perAuthor pubkey) = .ok pairs := read
      rw [ran]
      refine .inr ⟨_,_,rfl,by omega,?_,?_⟩
      · intro decoded member
        obtain ⟨⟨pair,offset⟩,inside,rfl⟩ := List.mem_map.mp member
        have listed := (List.mem_filter.mp inside).1
        obtain ⟨event,present,_,decodes⟩ := stored pair (List.mem_of_getElem? (List.mem_zipIdx_iff_getElem?.mp listed))
        exact ⟨tick + 1,by omega,event,present,decodes⟩
      · intro t event present decoded member decodes unexpired
        obtain ⟨other,still_there,named⟩ := found event.levId member
        have same : event = other := history.named t (tick + 1) event present other still_there named.symm
        obtain ⟨offset,here⟩ := List.getElem?_of_mem (complete event (by rw [same]; exact still_there) decoded member decodes)
        refine List.mem_map.mpr ⟨((event.levId,decoded),offset),List.mem_filter.mpr ⟨?_,?_⟩,rfl⟩
        · exact List.mem_zipIdx_iff_getElem?.mpr here
        · have inside := (List.getElem?_eq_some_iff.mp here).1
          have fresh := unexpired (tick + 2 + offset) (by omega) (by omega)
          simpa [History.world] using fresh

-- The ticks between which the last scan of an author in the list is hydrated and looked over.
inductive ScansAuthor (codec : Codec) (dictCache : DictCache) (world : World) (kind perAuthor : Nat) :
    Nat → List Str → Str → Nat → Nat → Prop where
  | now {tick hex rest pubkey events after} (last : hex ∉ rest) (decoded : decodeHex32 hex = some pubkey)
      (read : latestForAuthor codec dictCache world kind perAuthor tick pubkey = .ok (events,after)) :
      ScansAuthor codec dictCache world kind perAuthor tick (hex :: rest) hex tick after
  | skipped {tick hex rest other scan stop} (undecoded : decodeHex32 hex = none)
      (scans : ScansAuthor codec dictCache world kind perAuthor tick rest other scan stop) :
      ScansAuthor codec dictCache world kind perAuthor tick (hex :: rest) other scan stop
  | later {tick hex rest other scan stop pubkey events after} (decoded : decodeHex32 hex = some pubkey)
      (read : latestForAuthor codec dictCache world kind perAuthor tick pubkey = .ok (events,after))
      (scans : ScansAuthor codec dictCache world kind perAuthor after rest other scan stop) :
      ScansAuthor codec dictCache world kind perAuthor tick (hex :: rest) other scan stop

theorem ScansAuthor.listed {world : World} {authors : List Str} {hex : Str} {scan stop : Nat}
    (scans : ScansAuthor codec dictCache world kind perAuthor tick authors hex scan stop) : hex ∈ authors := by
  induction scans with
  | now => exact List.mem_cons_self
  | skipped _ _ ih => exact List.mem_cons_of_mem _ ih
  | later _ _ _ ih => exact List.mem_cons_of_mem _ ih

-- A decodable author of the list is answered by his last scan; nobody else's bucket changes.
structure Latest (history : History codec dictCache) (kind perAuthor first tick : Nat) (authors : List Str)
    (before buckets : AuthorBuckets) : Prop where
  other : ∀ hex, hex ∉ authors → buckets hex = before hex
  read : ∀ hex events, buckets hex = some events → before hex = some events ∨
    ∀ decoded ∈ events, ∃ t, first ≤ t ∧ ∃ event ∈ (history.snapshot t).events, event.decode = .ok decoded
  scanned : ∀ hex ∈ authors, ∀ pubkey, decodeHex32 hex = some pubkey → ∃ scan stop, tick ≤ scan ∧
    ScansAuthor codec dictCache history.world kind perAuthor tick authors hex scan stop
  complete : ∀ hex pubkey scan stop, decodeHex32 hex = some pubkey →
    ScansAuthor codec dictCache history.world kind perAuthor tick authors hex scan stop →
    ∀ t, ∀ event ∈ (history.snapshot t).events, ∀ decoded,
      event.levId ∈ latestMatching (history.world scan).env kind perAuthor pubkey → event.decode = .ok decoded →
      (∀ t, scan + 2 ≤ t → t < stop → isExpired (history.now t) decoded.event = false) →
      ∃ events, buckets hex = some events ∧ decoded ∈ events

section Step
variable {hex : Str} {rest : List Str} {before buckets : AuthorBuckets}

theorem Latest.skipped (undecoded : decodeHex32 hex = none) (latest : Latest history kind perAuthor first tick rest before buckets) :
    Latest history kind perAuthor first tick (hex :: rest) before buckets := by
  refine ⟨fun other absent => latest.other other fun later => absent (List.mem_cons_of_mem _ later),latest.read,?_,?_⟩
  · intro other member pubkey given
    rcases List.mem_cons.mp member with rfl | later
    · rw [undecoded] at given
      cases given
    · obtain ⟨scan,stop,low,scans⟩ := latest.scanned other later pubkey given
      exact ⟨scan,stop,low,.skipped undecoded scans⟩
  · intro other pubkey scan stop given scans
    cases scans with
    | now _ decoded _ =>
      rw [undecoded] at decoded
      cases decoded
    | skipped _ scans => exact latest.complete other pubkey scan stop given scans
    | later decoded _ _ =>
      rw [undecoded] at decoded
      cases decoded

-- One author is scanned and his bucket set, if there is something to put into it.
theorem Latest.cons {events : List DecodedEvent} (decoded : decodeHex32 hex = some pubkey) (forward : tick ≤ after)
    (ran : latestForAuthor codec dictCache history.world kind perAuthor tick pubkey = .ok (events,after))
    (answers : Answers history kind perAuthor first tick after pubkey events)
    (latest : Latest history kind perAuthor first after rest
      (if events.isEmpty then before else Function.update before hex (some events)) buckets) :
    Latest history kind perAuthor first tick (hex :: rest) before buckets := by
  refine ⟨?_,?_,?_,?_⟩
  · intro other absent
    rw [latest.other other fun later => absent (List.mem_cons_of_mem _ later)]
    split
    · rfl
    · exact Function.update_of_ne (fun same => absent (List.mem_cons.mpr (.inl same))) _ _
  · intro other bucket given
    rcases latest.read other bucket given with prior | fresh
    · split at prior
      · exact .inl prior
      · by_cases own : other = hex
        · rw [own,Function.update_self] at prior
          cases prior
          exact .inr answers.read
        · rw [Function.update_of_ne own] at prior
          exact .inl prior
    · exact .inr fresh
  · intro other member key given
    by_cases later : other ∈ rest
    · obtain ⟨scan,stop,low,scans⟩ := latest.scanned other later key given
      exact ⟨scan,stop,forward.trans low,.later decoded ran scans⟩
    · obtain rfl := (List.mem_cons.mp member).resolve_right later
      exact ⟨tick,after,le_refl _,.now later decoded ran⟩
  · intro other key scan stop given scans
    cases scans with
    | now last own read =>
      cases own.symm.trans given
      cases decoded.symm.trans given
      cases ran.symm.trans read
      intro t event present value listed decodes unexpired
      have inside := answers.complete t event present value listed decodes unexpired
      have some_events : ¬ events.isEmpty = true := by
        rw [List.isEmpty_iff]
        exact List.ne_nil_of_mem inside
      exact ⟨events,by rw [latest.other hex last,if_neg some_events,Function.update_self],inside⟩
    | skipped undecoded _ =>
      rw [decoded] at undecoded
      cases undecoded
    | later own read scans =>
      cases decoded.symm.trans own
      cases ran.symm.trans read
      exact latest.complete other key scan stop given scans

end Step

theorem latestPerAuthorLoop_cases (positive : 0 < perAuthor) (low : first ≤ tick) (before : AuthorBuckets)
    (authors : List Str) :
    (∃ error, latestPerAuthorLoop codec dictCache history.world kind perAuthor tick before authors = .error error ∧
      LostAfter history first error) ∨
    ∃ buckets, latestPerAuthorLoop codec dictCache history.world kind perAuthor tick before authors = .ok buckets ∧
      Latest history kind perAuthor first tick authors before buckets := by
  induction authors generalizing tick before with
  | nil =>
    refine .inr ⟨before,rfl,fun _ _ => rfl,fun _ _ same => .inl same,by simp,?_⟩
    intro hex pubkey scan stop _ scans
    cases scans.listed
  | cons hex rest ih =>
    unfold latestPerAuthorLoop
    cases decoded : decodeHex32 hex with
    | none =>
      refine (ih low before).imp_right ?_
      rintro ⟨buckets,ran,latest⟩
      exact ⟨buckets,ran,latest.skipped decoded⟩
    | some pubkey =>
      simp only
      rcases (@latestForAuthor_cases _ _ _ kind _ _ _ pubkey) positive low with
        ⟨error,failed,lost⟩ | ⟨events,after,read,forward,answers⟩
      · exact .inl ⟨error,by rw [failed]; rfl,lost⟩
      · rw [read]
        change (∃ error, latestPerAuthorLoop codec dictCache history.world kind perAuthor after
            (if events.isEmpty then before else Function.update before hex (some events)) rest = .error error ∧ _) ∨
          ∃ buckets, latestPerAuthorLoop codec dictCache history.world kind perAuthor after
            (if events.isEmpty then before else Function.update before hex (some events)) rest = .ok buckets ∧ _
        refine (ih (low.trans forward) _).imp_right ?_
        rintro ⟨buckets,ran,latest⟩
        exact ⟨buckets,ran,latest.cons decoded forward read answers⟩

end Latest
-- A levId that vanished before its payload was read fails the call; any other call succeeds, and
-- what it scanned it still found and returns, unless it was seen expired.
theorem deletion_outcome {codec : Codec} {dictCache : DictCache} (history : History codec dictCache)
    (filter : NostrFilter) (cursor : Option PageCursor) (tick kind perAuthor : Nat) (authors : List Str) :
    ((∃ error, executeQuery codec dictCache history.world filter tick cursor = .error error ∧
        LostAfter history tick error) ∨
      ∃ page, executeQuery codec dictCache history.world filter tick cursor = .ok page ∧
        (∀ survivor ∈ page.valid, ReadAfter history tick survivor) ∧
        ∀ event decoded first last, Scans codec dictCache history.world filter DEFAULT_WINDOW_SIZE (effectiveLimit filter)
            (queryStart tick cursor) event.position first last →
          Fitting history filter first last event decoded →
          Returned page.valid event decoded ∨ page.valid.length = effectiveLimit filter) ∧
    ((∃ error, latestPerAuthor codec dictCache history.world tick kind perAuthor authors = .error error ∧
        LostAfter history tick error) ∨
      ∃ buckets, latestPerAuthor codec dictCache history.world tick kind perAuthor authors = .ok buckets ∧
        (∀ hex events, buckets hex = some events → ∀ decoded ∈ events,
          ∃ t, tick ≤ t ∧ ∃ event ∈ (history.snapshot t).events, event.decode = .ok decoded) ∧
        (0 < perAuthor → ∀ hex ∈ authors, ∀ pubkey, decodeHex32 hex = some pubkey →
          (∃ scan stop, tick ≤ scan ∧ ScansAuthor codec dictCache history.world kind perAuthor tick authors hex scan stop) ∧
          ∀ scan stop, ScansAuthor codec dictCache history.world kind perAuthor tick authors hex scan stop →
            ∀ t, ∀ event ∈ (history.snapshot t).events, ∀ decoded,
              event.levId ∈ latestMatching (history.world scan).env kind perAuthor pubkey → event.decode = .ok decoded →
              (∀ t, scan + 2 ≤ t → t < stop → isExpired (history.now t) decoded.event = false) →
              ∃ events, buckets hex = some events ∧ decoded ∈ events)) := by
  refine ⟨?_,?_⟩
  · have window : 0 < DEFAULT_WINDOW_SIZE := by decide
    obtain ⟨fails,returns⟩ := (@executeQuery_kept _ codec dictCache history filter tick cursor) window
    unfold executeQuery
    cases ran : executeQueryInternal codec dictCache history.world filter tick cursor DEFAULT_WINDOW_SIZE with
    | error error => exact .inl ⟨error,rfl,fails error ran⟩
    | ok page => exact .inr ⟨page,rfl,returns page ran⟩
  · unfold latestPerAuthor
    by_cases zero : perAuthor = 0
    · rw [if_pos zero]
      refine .inr ⟨_,rfl,by simp,?_⟩
      intro positive
      omega
    · rw [if_neg zero]
      have positive := Nat.pos_of_ne_zero zero
      refine ((@latestPerAuthorLoop_cases codec dictCache _ kind) positive (le_refl tick)
        (fun _ => none) authors).imp_right ?_
      rintro ⟨buckets,ran,latest⟩
      refine ⟨buckets,ran,?_,fun _ hex member pubkey decoded =>
        ⟨latest.scanned hex member pubkey decoded,fun scan stop => latest.complete hex pubkey scan stop decoded⟩⟩
      intro hex events given
      rcases latest.read hex events given with impossible | fresh
      · cases impossible
      · exact fresh

def failure {ε α : Type} : Except ε α → Option ε
  | .error error => some error
  | .ok _ => none

theorem failure_exact {ε α : Type} {result : Except ε α} {error : ε} :
    failure result = some error ↔ result = .error error := by
  cases result <;> simp [failure]

theorem pruned_shrinks (deletion s t : Nat) (later : s ≤ t) :
    ∀ event ∈ ((pruned deletion).snapshot t).events, event ∈ ((pruned deletion).snapshot s).events := by
  intro event member
  simp only [pruned] at member ⊢
  by_cases gone : t < deletion
  · rw [if_pos gone] at member
    rwa [if_pos (later.trans_lt gone)]
  · rw [if_neg gone] at member
    split
    · exact List.mem_cons.mpr (.inl (List.mem_singleton.mp member))
    · exact member

-- The second note goes between the scan and its hydration, and takes the whole response with it.
theorem deletion_fails :
    (∀ s t, s ≤ t → ∀ event ∈ ((pruned 2).snapshot t).events, event ∈ ((pruned 2).snapshot s).events) ∧
    executeQuery (noteCodec sampleNotes) noDicts (pruned 2).world {} 0 none = .error (.Payload (.LevIdNotFound 2)) ∧
    (∀ s t, s ≤ t → ∀ event ∈ ((pruned 1).snapshot t).events, event ∈ ((pruned 1).snapshot s).events) ∧
    latestPerAuthor (noteCodec sampleNotes) noDicts (pruned 1).world 0 1 10 [hexEncode (List.replicate 32 7)] =
      .error (.Payload (.LevIdNotFound 2)) :=
  ⟨pruned_shrinks 2,failure_exact.mp (by decide +kernel),pruned_shrinks 1,failure_exact.mp (by decide +kernel)⟩

end DeepFry.Query
