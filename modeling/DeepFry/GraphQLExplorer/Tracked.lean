import DeepFry.GraphQLExplorer.LatestPerAuthor

namespace DeepFry.GraphQLExplorer

variable {Event : Type}

theorem chunkSize_some : 0 < chunkSize := by decide

theorem slices_flatten {hexes : List Str} {size : Nat} (some : 0 < size) (fuel i : Nat) (enough : hexes.length ≤ i + fuel) :
    (slices hexes size fuel i).flatten = hexes.drop i := by
  induction fuel generalizing i with
  | zero => simpa [slices] using (List.drop_eq_nil_iff.mpr enough).symm
  | succ fuel ih =>
    unfold slices
    split
    · rw [List.flatten_cons,ih (i + size) (by omega),← List.drop_drop,List.take_append_drop]
    · rename_i past
      rw [List.drop_eq_nil_iff.mpr (by omega)]
      rfl

theorem chunks_flatten (hexes : List Str) : (chunkAuthors hexes chunkSize).flatten = hexes := by
  unfold chunkAuthors
  rw [slices_flatten chunkSize_some hexes.length 0 (by omega),List.drop_zero]

theorem slices_some {hexes chunk : List Str} {size : Nat} (some : 0 < size) (fuel i : Nat)
    (member : chunk ∈ slices hexes size fuel i) : chunk ≠ [] := by
  induction fuel generalizing i with
  | zero => cases member
  | succ fuel ih =>
    unfold slices at member
    split at member
    · rcases List.mem_cons.mp member with same | later
      · intro empty
        rw [same,List.take_eq_nil_iff,List.drop_eq_nil_iff] at empty
        omega
      · exact ih (i + size) later
    · cases member

theorem chunk_some {hexes chunk : List Str} (member : chunk ∈ chunkAuthors hexes chunkSize) : chunk ≠ [] :=
  slices_some chunkSize_some _ _ member

-- The Map of the merge holds a list of events only for a group of that author.
theorem byAuthor_group {groups : List (AuthorGroup Event)} {hex : Str} {events : List Event}
    (found : byAuthor groups hex = some events) : ⟨hex,events⟩ ∈ groups := by
  induction groups using List.reverseRecOn with
  | nil => cases found
  | append_singleton groups g ih =>
    unfold byAuthor at found ih
    rw [List.foldl_append,List.foldl_cons,List.foldl_nil] at found
    by_cases same : hex = g.author
    · rw [same,Function.update_self] at found
      cases found
      rw [same]
      simp
    · rw [Function.update_of_ne same] at found
      exact List.mem_append_left _ (ih found)

theorem mergeByAuthor_authors (inputHexes : List Str) (groups : List (AuthorGroup Event)) :
    (mergeByAuthor inputHexes groups).map (·.author) = inputHexes := by
  simp [mergeByAuthor,Function.comp_def]

theorem mergeByAuthor_events {inputHexes : List Str} {groups : List (AuthorGroup Event)} {row : TriageRow Event}
    (member : row ∈ mergeByAuthor inputHexes groups) : row.events = [] ∨ ⟨row.author,row.events⟩ ∈ groups := by
  obtain ⟨hex,_,rfl⟩ := List.mem_map.mp member
  cases found : byAuthor groups hex with
  | none => exact .inl rfl
  | some events => exact .inr (byAuthor_group found)

-- What holds of a fetch that is in flight.
structure Live (runId : Nat) (inputHexes : List Str) (told : List (Told Event)) (f : Fetch Event) : Prop where
  past : f.myRun ≤ runId
  sound : Sound f.chunk f.stack
  same : ∀ r ∈ told, r.fetch = f.id → r.myRun = f.myRun
  within : f.myRun = runId → ∀ a ∈ scope f.chunk f.stack, a ∈ inputHexes
  held : f.myRun = runId → ∀ a, a ∈ held f.stack ↔ ∃ r ∈ told, r.fetch = f.id ∧ a ∈ r.result.gained r.asked
  groups : f.myRun = runId → ∀ g ∈ heldGroups f.stack, ∃ r ∈ told, r.myRun = runId ∧ g ∈ r.result.success.getD []

-- The request succeeded, in a fetch that has returned.
def Counted (s : Session Event) (a : Str) : Prop :=
  ∃ r ∈ s.told, r.myRun = s.hook.runId ∧ a ∈ r.result.gained r.asked ∧ ∀ f ∈ s.flight, f.id ≠ r.fetch

structure Tracked (s : Session Event) : Prop where
  rows : s.hook.rows = mergeByAuthor s.hook.inputHexes s.hook.accumulated
  count : s.hook.triagedCount = s.hook.coveredAuthors.card
  chunks : s.hook.chunkAuthorsByIndex = chunkAuthors s.hook.inputHexes chunkSize
  distinct : s.hook.inputHexes.Nodup
  groups : ∀ g ∈ s.hook.accumulated, ∃ r ∈ s.told, r.myRun = s.hook.runId ∧ g ∈ r.result.success.getD []
  covered : ∀ a, a ∈ s.hook.coveredAuthors ↔ Counted s a
  within : ∀ a ∈ s.hook.coveredAuthors, a ∈ s.hook.inputHexes
  single : ∀ f ∈ s.flight, ∀ g ∈ s.flight, f.id = g.id → f = g
  fresh : ∀ f ∈ s.flight, f.id < s.fetches
  known : ∀ r ∈ s.told, r.fetch < s.fetches ∧ r.myRun ≤ s.hook.runId
  live : ∀ f ∈ s.flight, Live s.hook.runId s.hook.inputHexes s.told f

theorem initial_tracked : Tracked (Session.initial : Session Event) where
  rows := rfl
  count := rfl
  chunks := rfl
  distinct := List.nodup_nil
  groups := by
    intro g member
    cases member
  covered := by simp [Session.initial,Hook.initial,Counted]
  within := by simp [Session.initial,Hook.initial]
  single := by
    intro f member
    cases member
  fresh := by
    intro f member
    cases member
  known := by
    intro r member
    cases member
  live := by
    intro f member
    cases member

section Operations
variable {s : Session Event}

-- A new run supersedes every fetch there is.
theorem begin_tracked (good : Tracked s) {dedupedInputHexes : List Str} (distinct : dedupedInputHexes.Nodup) :
    Tracked { s with hook := s.hook.begin dedupedInputHexes } where
  rows := rfl
  count := rfl
  chunks := rfl
  distinct := distinct
  groups := by
    intro g member
    cases member
  covered := by
    intro a
    constructor
    · intro member
      cases member
    · intro counted
      obtain ⟨r,member,current,-⟩ := counted
      have past := (good.known r member).2
      simp only [Hook.begin] at current
      omega
  within := by
    intro a member
    cases member
  single := good.single
  fresh := good.fresh
  known := by
    intro r member
    have known := good.known r member
    exact ⟨known.1,by simp only [Hook.begin]; omega⟩
  live := by
    intro f member
    have live := good.live f member
    have past := live.past
    have superseded : f.myRun ≠ (s.hook.begin dedupedInputHexes).runId := by
      simp only [Hook.begin]
      omega
    refine ⟨?_,live.sound,live.same,fun current => absurd current superseded,fun current => absurd current superseded,
      fun current => absurd current superseded⟩
    simp only [Hook.begin]
    omega

theorem fetchChunk_tracked (good : Tracked s) (caller : Caller) {chunk : List Str} (some : chunk ≠ [])
    (within : ∀ a ∈ chunk, a ∈ s.hook.inputHexes) : Tracked (s.fetchChunk caller chunk) where
  rows := good.rows
  count := good.count
  chunks := good.chunks
  distinct := good.distinct
  groups := good.groups
  covered := by
    intro a
    rw [show (s.fetchChunk caller chunk).hook = s.hook from rfl,good.covered a]
    constructor
    · intro counted
      obtain ⟨r,member,current,gained,apart⟩ := counted
      refine ⟨r,member,current,gained,?_⟩
      intro f flying
      rcases List.mem_append.mp flying with old | new
      · exact apart f old
      · have known := (good.known r member).1
        rw [List.mem_singleton.mp new]
        dsimp only
        omega
    · intro counted
      obtain ⟨r,member,current,gained,apart⟩ := counted
      exact ⟨r,member,current,gained,fun f flying => apart f (List.mem_append_left _ flying)⟩
  within := good.within
  single := by
    intro f first g second same
    rcases List.mem_append.mp first with old | new
    · rcases List.mem_append.mp second with old' | new'
      · exact good.single f old g old' same
      · have fresh := good.fresh f old
        rw [List.mem_singleton.mp new'] at same
        dsimp only at same
        omega
    · rcases List.mem_append.mp second with old' | new'
      · have fresh := good.fresh g old'
        rw [List.mem_singleton.mp new] at same
        dsimp only at same
        omega
      · rw [List.mem_singleton.mp new,List.mem_singleton.mp new']
  fresh := by
    intro f member
    have bound : f.id < s.fetches + 1 := by
      rcases List.mem_append.mp member with old | new
      · have fresh := good.fresh f old
        omega
      · rw [List.mem_singleton.mp new]
        exact Nat.lt_succ_self _
    exact bound
  known := by
    intro r member
    have known := good.known r member
    exact ⟨Nat.lt_succ_of_lt known.1,known.2⟩
  live := by
    intro f member
    rcases List.mem_append.mp member with old | new
    · exact good.live f old
    · rw [List.mem_singleton.mp new]
      refine ⟨Nat.le_refl _,⟨some,fun inside => by cases inside⟩,?_,?_,?_,?_⟩
      · intro r told same
        have known := (good.known r told).1
        dsimp only at same
        omega
      · intro _ a inside
        exact within a (by simpa [scope,held,remaining] using inside)
      · intro _ a
        constructor
        · intro inside
          cases inside
        · intro shown
          obtain ⟨r,told,same,-⟩ := shown
          have known := (good.known r told).1
          dsimp only at same
          omega
      · intro _ g inside
        cases inside

theorem Live.told {runId : Nat} {inputHexes : List Str} {told : List (Told Event)} {g : Fetch Event}
    (live : Live runId inputHexes told g) {r : Told Event} (apart : r.fetch ≠ g.id) :
    Live runId inputHexes (told ++ [r]) g := by
  refine ⟨live.past,live.sound,?_,live.within,?_,?_⟩
  · intro other member same
    rcases List.mem_append.mp member with old | new
    · exact live.same other old same
    · rw [List.mem_singleton.mp new] at same
      exact absurd same apart
  · intro current a
    rw [live.held current a]
    constructor
    · intro shown
      obtain ⟨other,member,facts⟩ := shown
      exact ⟨other,List.mem_append_left _ member,facts⟩
    · intro shown
      obtain ⟨other,member,same,gained⟩ := shown
      rcases List.mem_append.mp member with old | new
      · exact ⟨other,old,same,gained⟩
      · rw [List.mem_singleton.mp new] at same
        exact absurd same apart
  · intro current group inside
    obtain ⟨other,member,facts⟩ := live.groups current group inside
    exact ⟨other,List.mem_append_left _ member,facts⟩

theorem mem_land {f g : Fetch Event} (result : Result Event) (member : g ∈ (s.land f result).flight) :
    g ∈ s.flight ∧ g.id ≠ f.id := by
  simpa [Session.land] using member

theorem land_mem {f g : Fetch Event} (result : Result Event) (member : g ∈ s.flight) (apart : g.id ≠ f.id) :
    g ∈ (s.land f result).flight := by
  simpa [Session.land] using ⟨member,apart⟩

theorem land_known (good : Tracked s) {f : Fetch Event} (flying : f ∈ s.flight) (result : Result Event) :
    ∀ r ∈ (s.land f result).told, r.fetch < s.fetches ∧ r.myRun ≤ s.hook.runId := by
  intro r member
  rcases List.mem_append.mp member with old | new
  · exact good.known r old
  · rw [List.mem_singleton.mp new]
    exact ⟨good.fresh f flying,(good.live f flying).past⟩

theorem land_live (good : Tracked s) {f g : Fetch Event} (result : Result Event) (member : g ∈ (s.land f result).flight) :
    Live s.hook.runId s.hook.inputHexes (s.land f result).told g := by
  obtain ⟨old,apart⟩ := mem_land result member
  exact (good.live g old).told fun same => apart same.symm

theorem land_stale_counted (good : Tracked s) {f : Fetch Event} (flying : f ∈ s.flight) (stale : f.myRun ≠ s.hook.runId)
    (result : Result Event) (a : Str) : Counted (s.land f result) a ↔ Counted s a := by
  constructor
  · intro counted
    obtain ⟨r,member,current,gained,apart⟩ := counted
    rcases List.mem_append.mp member with old | new
    · refine ⟨r,old,current,gained,?_⟩
      intro g inside same
      by_cases one : g.id = f.id
      · have run := (good.live f flying).same r old (same.symm.trans one)
        exact stale (run.symm.trans current)
      · exact apart g (land_mem result inside one) same
    · rw [List.mem_singleton.mp new] at current
      exact absurd current stale
  · intro counted
    obtain ⟨r,member,current,gained,apart⟩ := counted
    exact ⟨r,List.mem_append_left _ member,current,gained,fun g inside => apart g (mem_land result inside).1⟩

theorem land_stale_tracked (good : Tracked s) {f : Fetch Event} (flying : f ∈ s.flight) (stale : f.myRun ≠ s.hook.runId)
    (result : Result Event) : Tracked (s.land f result) where
  rows := good.rows
  count := good.count
  chunks := good.chunks
  distinct := good.distinct
  groups := by
    intro g member
    obtain ⟨r,told,facts⟩ := good.groups g member
    exact ⟨r,List.mem_append_left _ told,facts⟩
  covered := fun a => (good.covered a).trans (land_stale_counted good flying stale result a).symm
  within := good.within
  single := fun g first h second => good.single g (mem_land result first).1 h (mem_land result second).1
  fresh := fun g member => good.fresh g (mem_land result member).1
  known := land_known good flying result
  live := fun _ member => land_live good result member

-- The fetch goes on with a part of its chunk.
def Session.goOn (s : Session Event) (f : Fetch Event) (result : Result Event) (part : List Str) (next : List (Frame Event)) :
    Session Event :=
  { s.land f result with flight := (s.land f result).flight ++ [{ f with chunk := part, stack := next }] }

theorem mem_goOn {f g : Fetch Event} {result : Result Event} {part : List Str} {next : List (Frame Event)}
    (member : g ∈ (s.goOn f result part next).flight) : g ∈ (s.land f result).flight ∨ g = { f with chunk := part, stack := next } := by
  rcases List.mem_append.mp member with old | new
  · exact .inl old
  · exact .inr (List.mem_singleton.mp new)

theorem goOn_counted {f : Fetch Event} (flying : f ∈ s.flight) (result : Result Event) (part : List Str)
    (next : List (Frame Event)) (a : Str) : Counted (s.goOn f result part next) a ↔ Counted s a := by
  constructor
  · intro counted
    obtain ⟨r,member,current,gained,apart⟩ := counted
    have other := apart _ (List.mem_append_right _ (List.mem_singleton_self _))
    rcases List.mem_append.mp member with old | new
    · refine ⟨r,old,current,gained,?_⟩
      intro g inside same
      by_cases one : g.id = f.id
      · exact other (one.symm.trans same)
      · exact apart g (List.mem_append_left _ (land_mem result inside one)) same
    · rw [List.mem_singleton.mp new] at other
      exact absurd rfl other
  · intro counted
    obtain ⟨r,member,current,gained,apart⟩ := counted
    refine ⟨r,List.mem_append_left _ member,current,gained,?_⟩
    intro g inside
    rcases mem_goOn inside with old | same
    · exact apart g (mem_land result old).1
    · rw [same]
      exact apart f flying

-- What the requests of a fetch have gained, with what the last one gains.
theorem told_gained (f : Fetch Event) (result : Result Event) (a : Str) :
    ((∃ r ∈ s.told, r.fetch = f.id ∧ a ∈ r.result.gained r.asked) ∨ a ∈ result.gained f.chunk) ↔
      ∃ r ∈ (s.land f result).told, r.fetch = f.id ∧ a ∈ r.result.gained r.asked := by
  constructor
  · intro either
    rcases either with shown | gained
    · obtain ⟨r,told,facts⟩ := shown
      exact ⟨r,List.mem_append_left _ told,facts⟩
    · exact ⟨_,List.mem_append_right _ (List.mem_singleton_self _),rfl,gained⟩
  · intro shown
    obtain ⟨r,told,equal,gained⟩ := shown
    rcases List.mem_append.mp told with old | last
    · exact .inl ⟨r,old,equal,gained⟩
    · rw [List.mem_singleton.mp last] at gained
      exact .inr gained

theorem goOn_tracked (good : Tracked s) {f : Fetch Event} (flying : f ∈ s.flight) (current : f.myRun = s.hook.runId)
    {result : Result Event} {part : List Str} {next : List (Frame Event)}
    (kept : held next = held f.stack ++ result.gained f.chunk)
    (keptGroups : heldGroups next = heldGroups f.stack ++ result.success.getD [])
    (same : ∀ a, a ∈ scope part next ↔ a ∈ scope f.chunk f.stack) (sound : Sound part next) :
    Tracked (s.goOn f result part next) where
  rows := good.rows
  count := good.count
  chunks := good.chunks
  distinct := good.distinct
  groups := by
    intro g member
    obtain ⟨r,told,facts⟩ := good.groups g member
    exact ⟨r,List.mem_append_left _ told,facts⟩
  covered := fun a => (good.covered a).trans (goOn_counted flying result part next a).symm
  within := good.within
  single := by
    intro g first h second equal
    rcases mem_goOn first with old | new
    · rcases mem_goOn second with old' | new'
      · exact good.single g (mem_land result old).1 h (mem_land result old').1 equal
      · rw [new'] at equal
        exact absurd equal (mem_land result old).2
    · rcases mem_goOn second with old' | new'
      · rw [new] at equal
        exact absurd equal.symm (mem_land result old').2
      · rw [new,new']
  fresh := by
    intro g member
    rcases mem_goOn member with old | new
    · exact good.fresh g (mem_land result old).1
    · rw [new]
      exact good.fresh f flying
  known := land_known good flying result
  live := by
    intro g member
    rcases mem_goOn member with old | new
    · exact land_live good result old
    · have live := good.live f flying
      rw [new]
      refine ⟨live.past,sound,?_,?_,?_,?_⟩
      · intro r inside equal
        rcases List.mem_append.mp inside with old | last
        · exact live.same r old equal
        · rw [List.mem_singleton.mp last]
      · intro _ a inside
        exact live.within current a ((same a).mp inside)
      · intro _ a
        rw [show held ({ f with chunk := part, stack := next } : Fetch Event).stack = held f.stack ++ result.gained f.chunk from kept,
          List.mem_append,live.held current a]
        exact told_gained f result a
      · intro _ group inside
        have inside : group ∈ heldGroups f.stack ++ result.success.getD [] := keptGroups ▸ inside
        rcases List.mem_append.mp inside with old | last
        · obtain ⟨r,told,facts⟩ := live.groups current group old
          exact ⟨r,List.mem_append_left _ told,facts⟩
        · exact ⟨_,List.mem_append_right _ (List.mem_singleton_self _),current,last⟩

theorem absorb_eq (good : Tracked s) (outcome : ChunkOutcome Event) :
    s.hook.absorb outcome = { s.hook with
      accumulated := s.hook.accumulated ++ outcome.groups
      coveredAuthors := s.hook.coveredAuthors ∪ outcome.covered.toFinset
      rows := mergeByAuthor s.hook.inputHexes (s.hook.accumulated ++ outcome.groups)
      triagedCount := (s.hook.coveredAuthors ∪ outcome.covered.toFinset).card } := by
  unfold Hook.absorb
  split
  · rfl
  · rename_i nothing
    have groups : outcome.groups = [] := List.length_eq_zero_iff.mp (by omega)
    have covered : outcome.covered = [] := List.length_eq_zero_iff.mp (by omega)
    rw [groups,covered,List.append_nil,List.toFinset_nil,Finset.union_empty,← good.rows,← good.count]

-- The fetch has returned, and its outcome is absorbed.
theorem absorb_tracked (good : Tracked s) {f : Fetch Event} (flying : f ∈ s.flight) (current : f.myRun = s.hook.runId)
    {result : Result Event} {outcome : ChunkOutcome Event} (covered : outcome.covered = held f.stack ++ result.gained f.chunk)
    (groups : outcome.groups = heldGroups f.stack ++ result.success.getD []) :
    Tracked { s.land f result with hook := s.hook.absorb outcome } := by
  have live := good.live f flying
  have member (a : Str) : a ∈ outcome.covered ↔ ∃ r ∈ (s.land f result).told, r.fetch = f.id ∧ a ∈ r.result.gained r.asked := by
    rw [covered,List.mem_append,live.held current a]
    exact told_gained f result a
  rw [absorb_eq good]
  refine ⟨rfl,rfl,good.chunks,good.distinct,?_,?_,?_,?_,?_,land_known good flying result,?_⟩
  · intro g inside
    rcases List.mem_append.mp inside with old | new
    · obtain ⟨r,told,facts⟩ := good.groups g old
      exact ⟨r,List.mem_append_left _ told,facts⟩
    · rw [groups] at new
      rcases List.mem_append.mp new with old | last
      · obtain ⟨r,told,facts⟩ := live.groups current g old
        exact ⟨r,List.mem_append_left _ told,facts⟩
      · exact ⟨_,List.mem_append_right _ (List.mem_singleton_self _),current,last⟩
  · intro a
    rw [Finset.mem_union,List.mem_toFinset,member a,good.covered a]
    constructor
    · intro either
      rcases either with counted | shown
      · obtain ⟨r,told,latest,gained,apart⟩ := counted
        refine ⟨r,List.mem_append_left _ told,latest,gained,?_⟩
        intro g inside
        exact apart g (mem_land result inside).1
      · obtain ⟨r,told,equal,gained⟩ := shown
        refine ⟨r,told,?_,gained,?_⟩
        · rcases List.mem_append.mp told with old | last
          · exact (live.same r old equal).trans current
          · rw [List.mem_singleton.mp last]
            exact current
        · intro g inside same
          exact (mem_land result inside).2 (same.trans equal)
    · intro counted
      obtain ⟨r,told,latest,gained,apart⟩ := counted
      by_cases mine : r.fetch = f.id
      · exact .inr ⟨r,told,mine,gained⟩
      · rcases List.mem_append.mp told with old | last
        · refine .inl ⟨r,old,latest,gained,?_⟩
          intro g inside same
          have other : g.id ≠ f.id := fun equal => mine (same.symm.trans equal)
          exact apart g (land_mem result inside other) same
        · rw [List.mem_singleton.mp last] at mine
          exact absurd rfl mine
  · intro a inside
    rcases Finset.mem_union.mp inside with old | new
    · exact good.within a old
    · rw [List.mem_toFinset,covered] at new
      apply live.within current a
      rcases List.mem_append.mp new with old | gained
      · exact List.mem_append_left _ old
      · apply List.mem_append_right
        apply List.mem_append_left
        unfold Result.gained at gained
        split at gained
        · exact gained
        · cases gained
  · intro g first h second
    exact good.single g (mem_land result first).1 h (mem_land result second).1
  · intro g inside
    exact good.fresh g (mem_land result inside).1
  · intro g inside
    exact land_live good result inside

theorem errors_tracked (good : Tracked s) (loading : Bool) (chunkErrors : List ChunkError) :
    Tracked { s with hook := { s.hook with loading, chunkErrors } } :=
  ⟨good.rows,good.count,good.chunks,good.distinct,good.groups,good.covered,good.within,good.single,good.fresh,good.known,good.live⟩

theorem note_tracked (good : Tracked s) (index : Nat) (outcome : ChunkOutcome Event) :
    Tracked { s with hook := s.hook.note index outcome } := by
  unfold Hook.note
  split
  · exact errors_tracked good s.hook.loading _
  · exact good

theorem loop_tracked (good : Tracked s) (index : Nat) : Tracked (s.loop index) := by
  unfold Session.loop
  split
  · rename_i chunk found
    have member := List.mem_of_getElem? found
    rw [good.chunks] at member
    apply fetchChunk_tracked good _ (chunk_some member)
    intro a inside
    rw [← chunks_flatten s.hook.inputHexes]
    exact List.mem_flatten.mpr ⟨chunk,member,inside⟩
  · exact errors_tracked good false s.hook.chunkErrors

theorem retryChunk_tracked (good : Tracked s) (index : Nat) : Tracked (s.retryChunk index) := by
  unfold Session.retryChunk
  split
  · exact good
  · rename_i chunk found
    have member := List.mem_of_getElem? found
    rw [good.chunks] at member
    dsimp only
    split
    · exact errors_tracked good s.hook.loading _
    · rename_i some
      apply fetchChunk_tracked (errors_tracked good true (s.hook.chunkErrors.filter (·.index ≠ index)))
      · intro empty
        exact some (List.length_eq_zero_iff.mpr empty)
      · intro a inside
        have whole := chunks_flatten s.hook.inputHexes
        change a ∈ s.hook.inputHexes
        rw [← whole]
        exact List.mem_flatten.mpr ⟨chunk,member,(List.mem_filter.mp inside).1⟩

theorem returned_tracked {outcome : ChunkOutcome Event} (good : Tracked { s with hook := s.hook.absorb outcome }) (caller : Caller) :
    Tracked (s.returned caller outcome) := by
  have noted := note_tracked good caller.index outcome
  cases caller with
  | loop index => exact loop_tracked noted (index + 1)
  | retry index => exact errors_tracked noted false _

-- The ways of a reply.
theorem reply_cases (good : Tracked s) {f : Fetch Event} (flying : f ∈ s.flight) (result : Result Event) :
    (f.myRun ≠ s.hook.runId ∧ s.reply f result = s.land f result) ∨
    (f.myRun = s.hook.runId ∧ ∃ part next, s.reply f result = s.goOn f result part next ∧
      Answered result f.chunk f.stack (.asks part next)) ∨
    (f.myRun = s.hook.runId ∧ ∃ outcome, s.reply f result = (s.land f result).returned f.caller outcome ∧
      Answered result f.chunk f.stack (.returns outcome)) := by
  by_cases current : f.myRun = s.hook.runId
  · have all : Answered result f.chunk f.stack (answer ⟨true,result⟩ f.chunk f.stack) := answer_answered (good.live f flying).sound
    refine .inr ?_
    unfold Session.reply
    rw [decide_eq_true current]
    cases progress : answer ⟨true,result⟩ f.chunk f.stack with
    | asks part next =>
      rw [progress] at all
      exact .inl ⟨current,part,next,rfl,all⟩
    | returns outcome =>
      rw [progress] at all
      exact .inr ⟨current,outcome,if_pos current,all⟩
  · refine .inl ⟨current,?_⟩
    obtain ⟨final,returned⟩ := answer_stale result f.chunk f.stack
    unfold Session.reply
    rw [decide_eq_false current,returned]
    exact if_neg current

theorem reply_tracked (good : Tracked s) {f : Fetch Event} (flying : f ∈ s.flight) (result : Result Event) :
    Tracked (s.reply f result) := by
  rcases reply_cases good flying result with stale | goes | returns
  · rw [stale.2]
    exact land_stale_tracked good flying stale.1 result
  · obtain ⟨current,part,next,equal,all⟩ := goes
    rw [equal]
    cases all with
    | asks kept keptGroups same less sound => exact goOn_tracked good flying current kept keptGroups same sound
  · obtain ⟨current,outcome,equal,all⟩ := returns
    rw [equal]
    cases all with
    | returns covered groups done => exact returned_tracked (absorb_tracked good flying current covered groups) f.caller

theorem step_reply {id : Nat} {result : Result Event} {next : Session Event} (moved : step s (.reply id result) = some next) :
    ∃ f ∈ s.flight, f.id = id ∧ next = s.reply f result := by
  obtain ⟨f,found,rfl⟩ := Option.map_eq_some_iff.mp moved
  exact ⟨f,List.mem_of_find?_eq_some found,by simpa using List.find?_some found,rfl⟩

theorem step_tracked (good : Tracked s) {action : Action Event} {next : Session Event} (allowed : deduped s action)
    (moved : step s action = some next) : Tracked next := by
  cases action with
  | run dedupedInputHexes =>
    cases moved
    exact loop_tracked (begin_tracked good allowed) 0
  | retryChunk index =>
    cases moved
    exact retryChunk_tracked good index
  | reply id result =>
    obtain ⟨f,flying,-,rfl⟩ := step_reply moved
    exact reply_tracked good flying result

theorem reached_tracked (path : Reached s) : Tracked s := 
  path.invariant Tracked initial_tracked fun good allowed moved => step_tracked good allowed moved

end Operations

end DeepFry.GraphQLExplorer
