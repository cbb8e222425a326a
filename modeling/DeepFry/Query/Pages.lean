import DeepFry.Query.Round

namespace DeepFry.Query
open Lmdb Bytes
variable {codec : Codec} {dictCache : DictCache} {history : History codec dictCache} {filter : NostrFilter}

def RoundOutcome.state : RoundOutcome → QueryState
  | .stop state | .again state => state

section Round
variable {batchSize limit start : Nat} {origin : Option Position} {state : QueryState} {outcome : RoundOutcome}

theorem emitLimit_positive (limit : Nat) : 0 < emitLimitOf limit := by
  simp only [emitLimitOf,saturatingAdd,DEFAULT_WINDOW_SIZE,usizeMax]
  omega

theorem effectiveLimit_positive (filter : NostrFilter) : 0 < effectiveLimit filter := by
  unfold effectiveLimit
  split
  · decide
  · omega

-- A round without start keys stops at once. Any other merges, hydrates and admits one batch.
theorem queryRound_cases (ran : queryRound codec dictCache history.world filter batchSize limit state = .ok outcome) :
    roundStartKeys filter state.roundBoundary = [] ∧ outcome = .stop state ∨
    ∃ results middle valid after, mergeWindowed filter.indexName batchSize (filter.since.getD 0) state.roundBoundary
        history.world state.tick (roundStartKeys filter state.roundBoundary) (emitLimitOf limit) = (results,middle) ∧
      hydrateAndAdmit codec dictCache history.world filter limit middle state.valid
        ((positions results).filter fun position => !excludedBy state.roundBoundary position) = .ok (valid,after) ∧
      outcome = concludeRound limit (positions results).getLast?
        ⟨valid,state.roundBoundary,state.rounds + 1,decide (results.length < emitLimitOf limit),
          (positions results).getLast?.or state.deepestScanned,after⟩ := by
  unfold queryRound at ran
  simp only [List.isEmpty_iff] at ran
  split at ran
  · rename_i empty
    exact .inl ⟨empty,(Except.ok.inj ran).symm⟩
  · refine .inr ?_
    rcases merged : mergeWindowed filter.indexName batchSize (filter.since.getD 0) state.roundBoundary history.world
      state.tick (roundStartKeys filter state.roundBoundary) (emitLimitOf limit) with ⟨results,middle⟩
    rw [merged] at ran
    change (hydrateAndAdmit codec dictCache history.world filter limit middle state.valid
        ((positions results).filter fun position => !excludedBy state.roundBoundary position) >>= _) = _ at ran
    cases admitted : hydrateAndAdmit codec dictCache history.world filter limit middle state.valid
        ((positions results).filter fun position => !excludedBy state.roundBoundary position) with
    | error error =>
      rw [admitted] at ran
      cases ran
    | ok pair =>
      obtain ⟨valid,after⟩ := pair
      rw [admitted] at ran
      exact ⟨results,middle,valid,after,rfl,admitted,(Except.ok.inj ran).symm⟩

-- A loop that ends has made a round, and ended with it or gone on from it.
theorem queryLoop_cases {fuel : Nat} {final : QueryState}
    (ran : queryLoop codec dictCache history.world filter batchSize limit (fuel + 1) state = .ok final) :
    queryRound codec dictCache history.world filter batchSize limit state = .ok (.stop final) ∨
      ∃ next, queryRound codec dictCache history.world filter batchSize limit state = .ok (.again next) ∧
        queryLoop codec dictCache history.world filter batchSize limit fuel next = .ok final := by
  unfold queryLoop at ran
  cases round : queryRound codec dictCache history.world filter batchSize limit state with
  | error error =>
    rw [round] at ran
    cases ran
  | ok outcome =>
    rw [round] at ran
    cases outcome with
    | stop last =>
      cases ran
      exact .inl rfl
    | again next => exact .inr ⟨next,rfl,ran⟩

theorem executeQueryInternal_ran {tick : Nat} {cursor : Option PageCursor} {page : QueryPage}
    (ran : executeQueryInternal codec dictCache history.world filter tick cursor batchSize = .ok page) :
    ∃ final, queryLoop codec dictCache history.world filter batchSize (effectiveLimit filter) MAX_ROUNDS (queryStart tick cursor) = .ok final ∧
      page = ⟨final.valid.take (effectiveLimit filter),
        nextCursorOf (effectiveLimit filter) final (final.valid.take (effectiveLimit filter)),final.tick⟩ := by
  unfold executeQueryInternal at ran
  dsimp only at ran
  cases looped : queryLoop codec dictCache history.world filter batchSize (effectiveLimit filter) MAX_ROUNDS
      (queryStart tick cursor) with
  | error error =>
    rw [looped] at ran
    cases ran
  | ok final =>
    rw [looped] at ran
    cases ran
    exact ⟨final,rfl,rfl⟩

variable {listed : List Position} {fresh : List Survivor} {middle after : Nat}

theorem last_below (listing : Listed history filter state.roundBoundary (emitLimitOf limit) state.tick listed middle)
    {last position : Position} (final : listed.getLast? = some last) (member : position ∈ listed) :
    last.rank ≤ position.rank := by
  obtain ⟨front,rfl⟩ := List.getLast?_eq_some_iff.mp final
  rcases List.mem_append.mp member with earlier | here
  · exact (List.pairwise_append.mp listing.falling).2.2 position earlier last (by simp)
  · rw [List.mem_singleton.mp here]

-- What one batch makes of an open state. The three ways an event it had to find is accounted for:
-- it was admitted, the page is full above it, or the batch is full above it.
structure Progress (history : History codec dictCache) (filter : NostrFilter) (origin : Option Position)
    (start limit : Nat) (state : QueryState) (listed : List Position) (valid : List Survivor) (after : Nat) : Prop where
  later : start ≤ after
  bounded : valid.length ≤ limit
  falling : valid.Pairwise fun a b => b.1.rank < a.1.rank
  inside : ∀ survivor ∈ valid, Below origin survivor.1
  genuine : ∀ survivor ∈ valid, Genuine history filter start survivor
  above : ∀ survivor ∈ valid, ∀ last, listed.getLast? = some last → last.rank ≤ survivor.1.rank
  scanned : ∀ last, listed.getLast? = some last → Below state.roundBoundary last ∧ last.1 ≤ filter.upper
  covered : ∀ event decoded, Lasting history filter start after event decoded → Below origin event.position →
    (event.position,decoded) ∈ valid ∨ (∀ survivor ∈ valid, event.position.rank < survivor.1.rank) ∧
      (valid.length = limit ∨ listed.length = emitLimitOf limit ∧
        ∀ position ∈ listed, event.position.rank < position.rank)

theorem Open.progress (opened : Open history filter origin start limit state)
    (listing : Listed history filter state.roundBoundary (emitLimitOf limit) state.tick listed middle)
    (survived : Survived history filter limit state.tick middle listed state.valid fresh after) :
    Progress history filter origin start limit state listed (state.valid ++ fresh) after := by
  have first := opened.later
  have second := listing.later
  have third := survived.later
  have bounded := survived.bounded opened.short.le
  refine ⟨by omega,bounded,?_,?_,?_,?_,?_,?_⟩
  · refine List.pairwise_append.mpr ⟨opened.falling,survived.falling,?_⟩
    intro old prior new member
    exact opened.above old prior new.1 (listing.below _ (survived.member new member))
  · intro survivor member
    rcases List.mem_append.mp member with prior | new
    · exact opened.inside survivor prior
    · exact opened.descended _ (listing.below _ (survived.member survivor new))
  · intro survivor member
    rcases List.mem_append.mp member with prior | new
    · exact opened.genuine survivor prior
    · exact (survived.genuine survivor new).earlier opened.later
  · intro survivor member last final
    rcases List.mem_append.mp member with prior | new
    · exact (opened.above survivor prior last (listing.below last (List.mem_of_getLast? final))).le
    · exact last_below listing final (survived.member survivor new)
  · intro last final
    have member := List.mem_of_getLast? final
    obtain ⟨_,_,event,_,place,_,early,_⟩ := listing.stored last member
    refine ⟨listing.below last member,?_⟩
    rw [← place]
    exact early
  · intro event decoded lasting below
    rcases opened.covered event decoded (lasting.narrow (le_refl _) (by omega)) below with found | missing
    · exact .inl (List.mem_append_left _ found)
    · have beyond : ∀ survivor ∈ state.valid, event.position.rank < survivor.1.rank :=
        fun survivor prior => opened.above survivor prior _ missing
      have join : (∀ survivor ∈ fresh, event.position.rank < survivor.1.rank) →
          ∀ survivor ∈ state.valid ++ fresh, event.position.rank < survivor.1.rank := by
        intro new survivor member
        exact (List.mem_append.mp member).elim (beyond survivor) (new survivor)
      rcases listing.complete event decoded (lasting.narrow (by omega) (by omega)) missing with here | ⟨full,under⟩
      · rcases survived.complete event decoded (lasting.narrow (by omega) (le_refl _)) here with found | ⟨full,before⟩
        · exact .inl (List.mem_append_right _ found)
        · exact .inr ⟨join before,.inl (le_antisymm bounded full)⟩
      · exact .inr ⟨join fun survivor member => under _ (survived.member survivor member),.inr ⟨full,under⟩⟩

theorem concludeRound_cases {last : Option Position} {next : QueryState} :
    concludeRound limit last next = .stop next ∧
      (limit ≤ next.valid.length ∨ next.exhausted = true ∨ MAX_ROUNDS ≤ next.rounds) ∨
    last = next.roundBoundary ∧ next.exhausted = false ∨
    concludeRound limit last next = .again {next with roundBoundary := last} ∧
      next.valid.length < limit ∧ next.exhausted = false ∧ next.rounds < MAX_ROUNDS := by
  unfold concludeRound
  by_cases done : limit ≤ next.valid.length ∨ next.exhausted ∨ MAX_ROUNDS ≤ next.rounds
  · exact .inl ⟨by rw [if_pos done],done⟩
  · have active : next.exhausted = false := by
      cases value : next.exhausted with
      | false => rfl
      | true => exact absurd (.inr (.inl value)) done
    rw [if_neg done]
    by_cases stalled : last = next.roundBoundary
    · exact .inr (.inl ⟨stalled,active⟩)
    · rw [if_neg stalled]
      refine .inr (.inr ⟨rfl,?_,active,?_⟩)
      · exact not_le.mp fun full => done (.inl full)
      · exact not_le.mp fun spent => done (.inr (.inr spent))

theorem concludeRound_again {last : Option Position} {next again : QueryState}
    (continues : concludeRound limit last next = .again again) : again = {next with roundBoundary := last} ∧
      again.valid.length < limit ∧ again.exhausted = false ∧ again.rounds < MAX_ROUNDS := by
  unfold concludeRound at continues
  split at continues
  · cases continues
  · rename_i pending
    split at continues
    · split at continues <;> cases continues
    · cases continues
      simp only [not_or,not_le,Bool.not_eq_true] at pending
      exact ⟨rfl,pending.1,pending.2.1,pending.2.2⟩

theorem concludeRound_state (last : Option Position) (next : QueryState) :
    (concludeRound limit last next).state.valid = next.valid ∧ (concludeRound limit last next).state.tick = next.tick := by
  unfold concludeRound
  split
  · exact ⟨rfl,rfl⟩
  · split
    · split <;> exact ⟨rfl,rfl⟩
    · exact ⟨rfl,rfl⟩

-- One round keeps the loop invariant, or leaves a state from which the page is right. The
-- no-progress exit is never taken: a full batch ends strictly below the boundary it started from.
theorem queryRound_step (positive : 0 < batchSize) (clean : Clean history filter) (small : filter.upper < 2^64)
    (room : 0 < limit) (opened : Open history filter origin start limit state)
    (ran : queryRound codec dictCache history.world filter batchSize limit state = .ok outcome) :
    (∃ final, outcome = .stop final ∧ Stopped history filter origin start limit final) ∨
      ∃ next, outcome = .again next ∧ Open history filter origin start limit next ∧
        next.rounds = state.rounds + 1 ∧ next.rounds < MAX_ROUNDS := by
  rcases queryRound_cases ran with ⟨empty,rfl⟩ | ⟨results,middle,valid,after,merged,admitted,rfl⟩
  · refine .inl ⟨state,rfl,opened.later,opened.short.le,opened.falling,opened.inside,opened.genuine,opened.scanned,?_⟩
    intro event decoded lasting below
    obtain ⟨value,known,_⟩ := lasting.routed
    obtain ⟨values,_,same,keys⟩ := roundStartKeys_values filter state.roundBoundary
    rw [empty,eq_comm,List.map_eq_nil_iff] at keys
    rw [← same,keys] at known
    cases known
  · have listing := merge_listed positive clean small opened.upper merged
    have whole : (positions results).filter (fun position => !excludedBy state.roundBoundary position) =
        positions results := by
      refine List.filter_eq_self.mpr fun position member => ?_
      rw [excludedBy_exact.mpr (listing.below position member)]
      rfl
    rw [whole] at admitted
    obtain ⟨fresh,rfl,survived⟩ := hydrateAndAdmit_survived listing admitted
    have progress := opened.progress listing survived
    have count : (positions results).length = results.length := by simp [positions]
    generalize positions results = listed at *
    have deeper : ∀ deepest, listed.getLast?.or state.deepestScanned = some deepest →
        Below origin deepest ∧ deepest.1 ≤ filter.upper := by
      intro deepest scanned
      cases final : listed.getLast? with
      | none => exact opened.scanned deepest (by simpa [final] using scanned)
      | some last =>
        rw [final] at scanned
        cases scanned
        obtain ⟨below,upper⟩ := progress.scanned deepest final
        exact ⟨opened.descended deepest below,upper⟩
    rcases (@concludeRound_cases limit listed.getLast? ⟨state.valid ++ fresh,state.roundBoundary,state.rounds + 1, decide (results.length < emitLimitOf limit),listed.getLast?.or state.deepestScanned,after⟩)
      with ⟨stops,_⟩ | ⟨stalled,running⟩ | ⟨continues,short,running,budget⟩
    · refine .inl ⟨_,stops,progress.later,progress.bounded,progress.falling,progress.inside,progress.genuine,deeper,?_⟩
      intro event decoded lasting below
      refine (progress.covered event decoded lasting below).imp_right ?_
      rintro ⟨under,cut⟩
      refine ⟨cut.imp_right fun full => by simp [← count,full.1],under,?_⟩
      intro empty
      have none_valid : (state.valid ++ fresh).length = 0 := by simpa using empty
      rcases cut with full | ⟨full,beneath⟩
      · rw [none_valid] at full
        omega
      · have some_listed : listed ≠ [] := by
          rintro rfl
          have := emitLimit_positive limit
          simp at full
          omega
        refine ⟨listed.getLast some_listed,by simp [List.getLast?_eq_some_getLast some_listed],?_⟩
        exact beneath _ (List.getLast_mem some_listed)
    · exfalso
      have some_listed : listed ≠ [] := by
        rintro rfl
        have := emitLimit_positive limit
        simp only [decide_eq_false_iff_not] at running
        simp at count
        omega
      have final := List.getLast?_eq_some_getLast some_listed
      have below := (progress.scanned _ final).1
      exact lt_irrefl _ (below _ (stalled.symm.trans final))
    · have some_listed : listed ≠ [] := by
        rintro rfl
        have := emitLimit_positive limit
        simp only [decide_eq_false_iff_not] at running
        simp at count
        omega
      have final := List.getLast?_eq_some_getLast some_listed
      obtain ⟨lower,upper⟩ := progress.scanned _ final
      refine .inr ⟨_,continues,⟨progress.later,running,short,progress.falling,progress.inside,progress.genuine,
        ?_,?_,?_,deeper,?_⟩,rfl,budget⟩
      · intro survivor member position below
        exact (below _ final).trans_le (progress.above survivor member _ final)
      · intro position below
        exact (opened.descended _ lower).trans (below _ final).le
      · intro bound same
        rw [← Option.some.inj (final.symm.trans same)]
        exact upper
      · intro event decoded lasting below
        refine (progress.covered event decoded lasting below).imp_right ?_
        rintro ⟨_,full | ⟨_,beneath⟩⟩
        · simp only at short
          omega
        · intro bound same
          rw [← Option.some.inj (final.symm.trans same)]
          exact beneath _ (List.getLast_mem some_listed)

theorem queryLoop_stopped (positive : 0 < batchSize) (clean : Clean history filter) (small : filter.upper < 2^64)
    (room : 0 < limit) {fuel : Nat} {final : QueryState} (opened : Open history filter origin start limit state)
    (budget : state.rounds + fuel = MAX_ROUNDS) (pending : state.rounds < MAX_ROUNDS)
    (ran : queryLoop codec dictCache history.world filter batchSize limit fuel state = .ok final) :
    Stopped history filter origin start limit final := by
  induction fuel generalizing state with
  | zero => omega
  | succ fuel ih =>
    rcases queryLoop_cases ran with round | ⟨next,round,ran⟩
    · rcases queryRound_step positive clean small room opened round with ⟨last,same,stopped⟩ | ⟨next,other,_⟩
      · cases same
        exact stopped
      · cases other
    · rcases queryRound_step positive clean small room opened round with ⟨last,other,_⟩ | ⟨next,same,fine,count,more⟩
      · cases other
      · cases same
        exact ih fine (by omega) more ran

end Round
section Query
variable {batchSize tick : Nat} {cursor : Option PageCursor} {page : QueryPage}

def PageCursor.position (cursor : PageCursor) : Position := (cursor.createdAt,cursor.levId)

-- A cursor handed out by an earlier page lies inside the filter's range.
def InRange (filter : NostrFilter) (cursor : Option PageCursor) : Prop :=
  ∀ place, cursor = some place → place.createdAt ≤ filter.upper

theorem executeQuery_page (positive : 0 < batchSize) (clean : Clean history filter) (small : filter.upper < 2^64)
    (inside : InRange filter cursor)
    (ran : executeQueryInternal codec dictCache history.world filter tick cursor batchSize = .ok page) :
    PageOf history filter (cursor.map PageCursor.position) tick page := by
  obtain ⟨final,looped,rfl⟩ := executeQueryInternal_ran ran
  have room := effectiveLimit_positive filter
  have opened : Open history filter (cursor.map PageCursor.position) tick (effectiveLimit filter)
      (queryStart tick cursor) := by
    refine ⟨le_refl _,rfl,room,.nil,by simp [queryStart],by simp [queryStart],by simp [queryStart],
      fun _ below => below,?_,by simp [queryStart],?_⟩
    · intro bound same
      obtain ⟨place,given,rfl⟩ := Option.map_eq_some_iff.mp same
      exact inside place given
    · intro event decoded _ below
      exact .inr below
  exact (queryLoop_stopped positive clean small room opened rfl (Nat.zero_lt_succ _) looped).page room

-- The survivors of a walk over the pages, and the tick its last page ended on.
def survivors (pages : List QueryPage) : List Survivor := pages.flatMap QueryPage.valid

def finish (tick : Nat) (pages : List QueryPage) : Nat := (pages.getLast?.map QueryPage.tick).getD tick

structure WalkOf (history : History codec dictCache) (filter : NostrFilter) (origin : Option Position)
    (start : Nat) (pages : List QueryPage) : Prop where
  later : start ≤ finish start pages
  falling : (survivors pages).Pairwise fun a b => b.1.rank < a.1.rank
  inside : ∀ survivor ∈ survivors pages, Below origin survivor.1
  genuine : ∀ survivor ∈ survivors pages, Genuine history filter start survivor
  complete : ∀ event decoded, Lasting history filter start (finish start pages) event decoded →
    Below origin event.position → (event.position,decoded) ∈ survivors pages

theorem PageOf.walk {origin : Option Position} {start : Nat} (paged : PageOf history filter origin start page)
    (ended : page.nextCursor = none) : WalkOf history filter origin start [page] := by
  have whole : survivors [page] = page.valid := by simp [survivors]
  refine ⟨paged.later,?_,?_,?_,?_⟩ <;> rw [whole]
  · exact paged.falling
  · exact paged.inside
  · exact paged.genuine
  · intro event decoded lasting below
    rcases paged.complete event decoded lasting below with found | ⟨cursor,given,_⟩
    · exact found
    · rw [ended] at given
      cases given

theorem PageOf.extend {origin : Option Position} {start : Nat} (paged : PageOf history filter origin start page)
    {next : PageCursor} (given : page.nextCursor = some next) {pages : List QueryPage} (some_pages : pages ≠ [])
    (walked : WalkOf history filter (some next.position) page.tick pages) :
    WalkOf history filter origin start (page :: pages) := by
  obtain ⟨lower,upper,under⟩ := paged.descends next given
  have first := paged.later
  have second := walked.later
  have ending : finish start (page :: pages) = finish page.tick pages := by
    obtain ⟨last,final⟩ : ∃ last, pages.getLast? = some last :=
      ⟨_,List.getLast?_eq_some_getLast some_pages⟩
    have extended : (page :: pages).getLast? = some last := by
      rw [List.getLast?_cons,final]
      rfl
    rw [finish,finish,final,extended]
    rfl
  have split : survivors (page :: pages) = page.valid ++ survivors pages := by simp [survivors]
  refine ⟨by omega,?_,?_,?_,?_⟩
  · rw [split]
    refine List.pairwise_append.mpr ⟨paged.falling,walked.falling,?_⟩
    intro old prior new member
    exact (walked.inside new member _ rfl).trans_le (under old prior)
  · intro survivor member
    rw [split] at member
    rcases List.mem_append.mp member with prior | new
    · exact paged.inside survivor prior
    · exact lower.trans (walked.inside survivor new _ rfl).le
  · intro survivor member
    rw [split] at member
    rcases List.mem_append.mp member with prior | new
    · exact paged.genuine survivor prior
    · exact (walked.genuine survivor new).earlier first
  · intro event decoded lasting below
    rw [ending] at lasting
    rw [split]
    rcases paged.complete event decoded (lasting.narrow (le_refl _) second) below with found | ⟨other,same,deeper⟩
    · exact List.mem_append_left _ found
    · rw [given] at same
      cases same
      refine List.mem_append_right _ (walked.complete event decoded (lasting.narrow first (le_refl _)) ?_)
      rintro bound ⟨⟩
      exact deeper

-- One page of a walk: the walk ends with it, or goes on below the cursor it hands out.
theorem paginateAll_page {world : World} {maxPages : Nat}
    (read : executeQueryInternal codec dictCache world filter tick cursor batchSize = .ok page) :
    (page.nextCursor = none →
      paginateAll codec dictCache world filter batchSize (maxPages + 1) tick cursor = .ok (some [page])) ∧
    ∀ next, page.nextCursor = some next →
      paginateAll codec dictCache world filter batchSize (maxPages + 1) tick cursor =
        (paginateAll codec dictCache world filter batchSize maxPages page.tick (some next)).map
          (Option.map (page :: ·)) := by
  constructor
  · intro ended
    simp only [paginateAll,read,bind,Except.bind,ended]
    rfl
  · intro next given
    simp only [paginateAll,read,bind,Except.bind,given]
    cases paginateAll codec dictCache world filter batchSize maxPages page.tick (some next) with
    | error error => rfl
    | ok rest => cases rest <;> rfl

theorem paginateAll_walk (positive : 0 < batchSize) (clean : Clean history filter) (small : filter.upper < 2^64)
    {maxPages : Nat} {pages : List QueryPage} (inside : InRange filter cursor)
    (ran : paginateAll codec dictCache history.world filter batchSize maxPages tick cursor = .ok (some pages)) :
    pages ≠ [] ∧ WalkOf history filter (cursor.map PageCursor.position) tick pages := by
  induction maxPages generalizing tick cursor pages with
  | zero => cases ran
  | succ maxPages ih =>
    cases read : executeQueryInternal codec dictCache history.world filter tick cursor batchSize with
    | error error =>
      rw [paginateAll,read] at ran
      cases ran
    | ok page =>
      have paged := executeQuery_page positive clean small inside read
      obtain ⟨ends,continues⟩ := (@paginateAll_page _ _ _ _ _ _ _ _ maxPages) read
      cases given : page.nextCursor with
      | none =>
        rw [ends given] at ran
        cases ran
        exact ⟨by simp,paged.walk given⟩
      | some next =>
        rw [continues next given] at ran
        cases rest : paginateAll codec dictCache history.world filter batchSize maxPages page.tick (some next) with
        | error error =>
          rw [rest] at ran
          cases ran
        | ok tail =>
          rw [rest] at ran
          cases tail with
          | none => cases ran
          | some others =>
            cases ran
            have deeper : InRange filter (some next) := by
              rintro place ⟨⟩
              exact (paged.descends next given).2.1
            obtain ⟨some_pages,walked⟩ := ih deeper rest
            exact ⟨by simp,paged.extend given some_pages walked⟩

section Ends
variable {world : World}

-- No query of the walk fails, however far it is followed.
def Succeeds (codec : Codec) (dictCache : DictCache) (world : World) (filter : NostrFilter) (batchSize tick : Nat)
    (cursor : Option PageCursor) : Prop :=
  ∀ maxPages error, paginateAll codec dictCache world filter batchSize maxPages tick cursor ≠ .error error

theorem Succeeds.read (succeeds : Succeeds codec dictCache world filter batchSize tick cursor) :
    ∃ page, executeQueryInternal codec dictCache world filter tick cursor batchSize = .ok page := by
  cases read : executeQueryInternal codec dictCache world filter tick cursor batchSize with
  | ok page => exact ⟨page,rfl⟩
  | error error =>
    refine absurd ?_ (succeeds 1 error)
    rw [paginateAll,read]
    rfl

theorem Succeeds.further (succeeds : Succeeds codec dictCache world filter batchSize tick cursor)
    (read : executeQueryInternal codec dictCache world filter tick cursor batchSize = .ok page) {next : PageCursor}
    (given : page.nextCursor = some next) : Succeeds codec dictCache world filter batchSize page.tick (some next) := by
  intro maxPages error failed
  refine succeeds (maxPages + 1) error ?_
  rw [(paginateAll_page read).2 next given,failed]
  rfl

theorem walked_cons {page : QueryPage} {walk : Except QueryError (Option (List QueryPage))} {pages : List QueryPage}
    (ran : walk.map (Option.map (page :: ·)) = .ok (some pages)) : ∃ tail, walk = .ok (some tail) ∧ pages = page :: tail := by
  cases walk with
  | error error => cases ran
  | ok found =>
    cases found with
    | none => cases ran
    | some tail =>
      cases ran
      exact ⟨tail,rfl,rfl⟩

-- A walk fails past a page only if it fails from that page's cursor on.
theorem paginateAll_failed (read : executeQueryInternal codec dictCache world filter tick cursor batchSize = .ok page)
    {maxPages : Nat} {error : QueryError}
    (failed : paginateAll codec dictCache world filter batchSize (maxPages + 1) tick cursor = .error error) :
    ∃ next, page.nextCursor = some next ∧
      paginateAll codec dictCache world filter batchSize maxPages page.tick (some next) = .error error := by
  obtain ⟨ends,continues⟩ := (@paginateAll_page _ _ _ _ _ _ _ _ maxPages) read
  cases given : page.nextCursor with
  | none =>
    rw [ends given] at failed
    cases failed
  | some next =>
    rw [continues next given] at failed
    refine ⟨next,rfl,?_⟩
    cases rest : paginateAll codec dictCache world filter batchSize maxPages page.tick (some next) with
    | error other =>
      rw [rest] at failed
      exact failed
    | ok tail =>
      rw [rest] at failed
      cases failed

theorem succeeds_of_reads
    (reads : ∀ tick cursor, ∃ page, executeQueryInternal codec dictCache world filter tick cursor batchSize = .ok page) :
    Succeeds codec dictCache world filter batchSize tick cursor := by
  intro maxPages error failed
  induction maxPages generalizing tick cursor with
  | zero => cases failed
  | succ maxPages ih =>
    obtain ⟨page,read⟩ := reads tick cursor
    obtain ⟨next,_,rest⟩ := paginateAll_failed read failed
    exact ih rest

theorem paginateAll_goes (read : executeQueryInternal codec dictCache world filter tick cursor batchSize = .ok page)
    (rest : ∀ next, page.nextCursor = some next → ∃ maxPages pages,
      paginateAll codec dictCache world filter batchSize maxPages page.tick (some next) = .ok (some pages)) :
    ∃ maxPages pages, paginateAll codec dictCache world filter batchSize maxPages tick cursor = .ok (some pages) := by
  cases given : page.nextCursor with
  | none => exact ⟨1,_,(paginateAll_page read).1 given⟩
  | some next =>
    obtain ⟨maxPages,pages,others⟩ := rest next given
    refine ⟨maxPages + 1,page :: pages,?_⟩
    rw [(paginateAll_page read).2 next given,others]
    rfl

theorem paginateAll_first {maxPages : Nat} {pages : List QueryPage}
    (ran : paginateAll codec dictCache world filter batchSize maxPages tick cursor = .ok (some pages))
    (read : executeQueryInternal codec dictCache world filter tick cursor batchSize = .ok page) : page ∈ pages := by
  cases maxPages with
  | zero => cases ran
  | succ maxPages =>
    cases given : page.nextCursor with
    | none =>
      rw [(paginateAll_page read).1 given] at ran
      cases ran
      exact List.mem_singleton_self _
    | some next =>
      rw [(paginateAll_page read).2 next given] at ran
      obtain ⟨tail,_,rfl⟩ := walked_cons ran
      exact List.mem_cons_self

-- Walks that end, end with the same pages.
theorem paginateAll_unique {maxPages budget : Nat} {pages others : List QueryPage}
    (ran : paginateAll codec dictCache world filter batchSize maxPages tick cursor = .ok (some pages))
    (again : paginateAll codec dictCache world filter batchSize budget tick cursor = .ok (some others)) : pages = others := by
  induction maxPages generalizing budget tick cursor pages others with
  | zero => cases ran
  | succ maxPages ih =>
    cases budget with
    | zero => cases again
    | succ budget =>
      cases read : executeQueryInternal codec dictCache world filter tick cursor batchSize with
      | error error =>
        rw [paginateAll,read] at ran
        cases ran
      | ok page =>
        cases given : page.nextCursor with
        | none =>
          rw [(paginateAll_page read).1 given] at ran again
          cases ran
          cases again
          rfl
        | some next =>
          rw [(paginateAll_page read).2 next given] at ran again
          obtain ⟨tail,walked,rfl⟩ := walked_cons ran
          obtain ⟨rest,rewalked,rfl⟩ := walked_cons again
          rw [ih walked rewalked]

-- A walk that ended never fails, whatever its budget.
theorem succeeds_of_ran {maxPages : Nat} {pages : List QueryPage}
    (ran : paginateAll codec dictCache world filter batchSize maxPages tick cursor = .ok (some pages)) :
    Succeeds codec dictCache world filter batchSize tick cursor := by
  induction maxPages generalizing tick cursor pages with
  | zero => cases ran
  | succ maxPages ih =>
    intro budget error failed
    cases budget with
    | zero => cases failed
    | succ budget =>
      cases read : executeQueryInternal codec dictCache world filter tick cursor batchSize with
      | error other =>
        rw [paginateAll,read] at ran
        cases ran
      | ok page =>
        obtain ⟨next,given,rest⟩ := paginateAll_failed read failed
        rw [(paginateAll_page read).2 next given] at ran
        obtain ⟨tail,walked,_⟩ := walked_cons ran
        exact ih walked budget error rest

end Ends

-- Cursors fall, so a walk all of whose queries succeed ends.
theorem paginateAll_ends (positive : 0 < batchSize) (clean : Clean history filter) (small : filter.upper < 2^64)
    (succeeds : Succeeds codec dictCache history.world filter batchSize tick cursor) (inside : InRange filter cursor) :
    ∃ maxPages pages, paginateAll codec dictCache history.world filter batchSize maxPages tick cursor = .ok (some pages) := by
  have below : ∀ rank : Nat ×ₗ Nat, ∀ tick place, Position.rank (PageCursor.position place) = rank →
      InRange filter (some place) → Succeeds codec dictCache history.world filter batchSize tick (some place) →
      ∃ maxPages pages, paginateAll codec dictCache history.world filter batchSize maxPages tick (some place) = .ok (some pages) := by
    intro rank
    induction rank using WellFoundedLT.induction with
    | ind rank ih =>
      rintro tick place rfl range succeeds
      obtain ⟨page,read⟩ := succeeds.read
      have paged := executeQuery_page positive clean small range read
      refine paginateAll_goes read fun next given => ?_
      obtain ⟨lower,upper,_⟩ := paged.descends next given
      exact ih _ (lower _ rfl) page.tick next rfl (by rintro _ ⟨⟩; exact upper) (succeeds.further read given)
  obtain ⟨page,read⟩ := succeeds.read
  have paged := executeQuery_page positive clean small inside read
  refine paginateAll_goes read fun next given => ?_
  exact below _ page.tick next rfl (by rintro _ ⟨⟩; exact (paged.descends next given).2.1) (succeeds.further read given)

end Query
end DeepFry.Query
