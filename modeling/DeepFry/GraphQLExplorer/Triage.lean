import DeepFry.GraphQLExplorer.Tracked

namespace DeepFry.GraphQLExplorer

variable {Event : Type}

-- Where an author of a chunk is; what the loop has still to come to is ahead.
def Placed (s : Session Event) (ahead : Nat → Prop) (index : Nat) (a : Str) : Prop :=
  a ∈ s.hook.coveredAuthors ∨ (∃ e ∈ s.hook.chunkErrors, e.index = index) ∨
    (∃ f ∈ s.flight, f.myRun = s.hook.runId ∧ f.caller.index = index ∧ a ∈ scope f.chunk f.stack) ∨
    (∃ f ∈ s.flight, f.myRun = s.hook.runId ∧ ∃ i, f.caller = .loop i ∧ i < index) ∨ ahead index

def Accounted (s : Session Event) (ahead : Nat → Prop) : Prop :=
  ∀ index chunk, s.hook.chunkAuthorsByIndex[index]? = some chunk → ∀ a ∈ chunk, Placed s ahead index a

-- Nothing is ahead of a loop but what its fetch in flight stands for.
def nowhere : Nat → Prop := fun _ => False

section Accounting
variable {s : Session Event}

theorem fetchChunk_placed {ahead : Nat → Prop} {index : Nat} {a : Str} (caller : Caller) (chunk : List Str)
    (placed : Placed s ahead index a) : Placed (s.fetchChunk caller chunk) ahead index a := by
  rcases placed with covered | listed | awaited | before | ahead
  · exact .inl covered
  · exact .inr (.inl listed)
  · obtain ⟨f,flying,facts⟩ := awaited
    exact .inr (.inr (.inl ⟨f,List.mem_append_left _ flying,facts⟩))
  · obtain ⟨f,flying,facts⟩ := before
    exact .inr (.inr (.inr (.inl ⟨f,List.mem_append_left _ flying,facts⟩)))
  · exact .inr (.inr (.inr (.inr ahead)))

theorem fetched_placed {ahead : Nat → Prop} {a : Str} (caller : Caller) {chunk : List Str} (member : a ∈ chunk) :
    Placed (s.fetchChunk caller chunk) ahead caller.index a := by
  refine .inr (.inr (.inl ⟨_,List.mem_append_right _ (List.mem_singleton_self _),rfl,rfl,?_⟩))
  simpa [scope,held,remaining] using member

theorem loop_accounted {from_ : Nat} (placed : Accounted s fun index => from_ ≤ index) : Accounted (s.loop from_) nowhere := by
  unfold Session.loop
  cases found : s.hook.chunkAuthorsByIndex[from_]? with
  | some chunk =>
    intro index other here a member
    rcases placed index other here a member with covered | listed | awaited | before | ahead
    · exact fetchChunk_placed _ _ (.inl covered)
    · exact fetchChunk_placed _ _ (.inr (.inl listed))
    · exact fetchChunk_placed _ _ (.inr (.inr (.inl awaited)))
    · exact fetchChunk_placed _ _ (.inr (.inr (.inr (.inl before))))
    · rcases Nat.eq_or_lt_of_le ahead with same | less
      · subst same
        cases found.symm.trans here
        exact fetched_placed (.loop from_) member
      · exact .inr (.inr (.inr (.inl ⟨_,List.mem_append_right _ (List.mem_singleton_self _),rfl,from_,rfl,less⟩)))
  | none =>
    intro index other here a member
    rcases placed index other here a member with covered | listed | awaited | before | ahead
    · exact .inl covered
    · exact .inr (.inl listed)
    · exact .inr (.inr (.inl awaited))
    · exact .inr (.inr (.inr (.inl before)))
    · have past := List.getElem?_eq_none_iff.mp found
      have short : index < s.hook.chunkAuthorsByIndex.length := (List.getElem?_eq_some_iff.mp here).1
      omega

theorem retryChunk_accounted (placed : Accounted s nowhere) (index : Nat) : Accounted (s.retryChunk index) nowhere := by
  unfold Session.retryChunk
  cases found : s.hook.chunkAuthorsByIndex[index]? with
  | none => exact placed
  | some chunk =>
    dsimp only
    -- An entry of another chunk stays.
    have others (i : Nat) (other : List Str) (here : s.hook.chunkAuthorsByIndex[i]? = some other) (a : Str) (member : a ∈ other) :
        Placed { s with hook := s.hook.dismiss index } (· = index) i a := by
      rcases placed i other here a member with covered | listed | awaited | before | ahead
      · exact .inl covered
      · by_cases same : i = index
        · exact .inr (.inr (.inr (.inr same)))
        · obtain ⟨e,inside,at_⟩ := listed
          refine .inr (.inl ⟨e,?_,at_⟩)
          apply List.mem_filter.mpr
          refine ⟨inside,decide_eq_true ?_⟩
          intro equal
          exact same (at_.symm.trans equal)
      · exact .inr (.inr (.inl awaited))
      · exact .inr (.inr (.inr (.inl before)))
      · exact absurd ahead id
    split
    · rename_i nothing
      intro i other here a member
      rcases others i other here a member with covered | listed | awaited | before | same
      · exact .inl covered
      · exact .inr (.inl listed)
      · exact .inr (.inr (.inl awaited))
      · exact .inr (.inr (.inr (.inl before)))
      · subst same
        cases found.symm.trans here
        have none := List.filter_eq_nil_iff.mp (List.length_eq_zero_iff.mp nothing) a member
        have covered : a ∈ s.hook.coveredAuthors := by simpa using none
        exact .inl covered
    · intro i other here a member
      rcases others i other here a member with covered | listed | awaited | before | same
      · exact fetchChunk_placed _ _ (.inl covered)
      · exact fetchChunk_placed _ _ (.inr (.inl listed))
      · exact fetchChunk_placed _ _ (.inr (.inr (.inl awaited)))
      · exact fetchChunk_placed _ _ (.inr (.inr (.inr (.inl before))))
      · subst same
        cases found.symm.trans here
        by_cases covered : a ∈ s.hook.coveredAuthors
        · exact .inl covered
        · exact fetched_placed (.retry i) (List.mem_filter.mpr ⟨member,decide_eq_true covered⟩)

theorem absorb_more (hook : Hook Event) (outcome : ChunkOutcome Event) :
    (hook.absorb outcome).runId = hook.runId ∧ (hook.absorb outcome).inputHexes = hook.inputHexes ∧
      (hook.absorb outcome).chunkAuthorsByIndex = hook.chunkAuthorsByIndex ∧
      (hook.absorb outcome).chunkErrors = hook.chunkErrors ∧
      ∀ a, a ∈ (hook.absorb outcome).coveredAuthors ↔ a ∈ hook.coveredAuthors ∨ a ∈ outcome.covered := by
  unfold Hook.absorb
  split
  · exact ⟨rfl,rfl,rfl,rfl,fun a => by simp⟩
  · rename_i nothing
    have covered : outcome.covered = [] := List.length_eq_zero_iff.mp (by omega)
    exact ⟨rfl,rfl,rfl,rfl,fun a => by simp [covered]⟩

theorem note_more (hook : Hook Event) (index : Nat) (outcome : ChunkOutcome Event) :
    (hook.note index outcome).runId = hook.runId ∧ (hook.note index outcome).inputHexes = hook.inputHexes ∧
      (hook.note index outcome).chunkAuthorsByIndex = hook.chunkAuthorsByIndex ∧
      (hook.note index outcome).coveredAuthors = hook.coveredAuthors ∧
      (hook.note index outcome).triagedCount = hook.triagedCount ∧
      (∀ e ∈ hook.chunkErrors, e ∈ (hook.note index outcome).chunkErrors) ∧
      (outcome.error ≠ none → ∃ e ∈ (hook.note index outcome).chunkErrors, e.index = index) := by
  unfold Hook.note
  cases bad : outcome.error with
  | none => exact ⟨rfl,rfl,rfl,rfl,rfl,fun e member => member,fun wrong => absurd rfl wrong⟩
  | some error =>
    exact ⟨rfl,rfl,rfl,rfl,rfl,fun e member => List.mem_append_left _ member,
      fun _ => ⟨_,List.mem_append_right _ (List.mem_singleton_self _),rfl⟩⟩

-- What the caller of a fetch has still to come to.
def Caller.after : Caller → Nat → Prop
  | .loop i,index => i + 1 ≤ index
  | .retry _,_ => False

-- The hook has taken up an outcome.
def Session.settle (s : Session Event) (index : Nat) (outcome : ChunkOutcome Event) : Session Event :=
  { s with hook := (s.hook.absorb outcome).note index outcome }

theorem settle_accounted (good : Tracked s) (placed : Accounted s nowhere) {f : Fetch Event} (flying : f ∈ s.flight)
    (result : Result Event) {outcome : ChunkOutcome Event} (done : outcome.error = none → ∀ a ∈ scope f.chunk f.stack, a ∈ outcome.covered) :
    Accounted ((s.land f result).settle f.caller.index outcome) f.caller.after := by
  obtain ⟨run,-,chunks,errors,covers⟩ := absorb_more s.hook outcome
  obtain ⟨run',-,chunks',covers',-,errors',noted⟩ := note_more (s.hook.absorb outcome) f.caller.index outcome
  have latest : ((s.hook.absorb outcome).note f.caller.index outcome).runId = s.hook.runId := run'.trans run
  have more (a : Str) : a ∈ s.hook.coveredAuthors ∨ a ∈ outcome.covered →
      a ∈ ((s.hook.absorb outcome).note f.caller.index outcome).coveredAuthors := by
    rw [covers']
    exact (covers a).mpr
  intro index chunk here a member
  have here : s.hook.chunkAuthorsByIndex[index]? = some chunk := by
    rw [← chunks,← chunks']
    exact here
  rcases placed index chunk here a member with covered | listed | awaited | before | ahead
  · exact .inl (more a (.inl covered))
  · obtain ⟨e,inside,at_⟩ := listed
    refine .inr (.inl ⟨e,errors' e ?_,at_⟩)
    rw [errors]
    exact inside
  · obtain ⟨g,inside,current,at_,inScope⟩ := awaited
    by_cases same : g.id = f.id
    · rw [good.single g inside f flying same] at at_ inScope
      by_cases clean : outcome.error = none
      · exact .inl (more a (.inr (done clean a inScope)))
      · obtain ⟨e,listed,equal⟩ := noted clean
        exact .inr (.inl ⟨e,listed,equal.trans at_⟩)
    · exact .inr (.inr (.inl ⟨g,land_mem result inside same,current.trans latest.symm,at_,inScope⟩))
  · obtain ⟨g,inside,current,i,calls,less⟩ := before
    by_cases same : g.id = f.id
    · rw [good.single g inside f flying same] at calls
      refine .inr (.inr (.inr (.inr ?_)))
      rw [calls]
      exact less
    · exact .inr (.inr (.inr (.inl ⟨g,land_mem result inside same,current.trans latest.symm,i,calls,less⟩)))
  · exact absurd ahead id

theorem stale_accounted (placed : Accounted s nowhere) {f : Fetch Event} (good : Tracked s) (flying : f ∈ s.flight)
    (stale : f.myRun ≠ s.hook.runId) (result : Result Event) : Accounted (s.land f result) nowhere := by
  have other {g : Fetch Event} (inside : g ∈ s.flight) (current : g.myRun = s.hook.runId) : g ∈ (s.land f result).flight := by
    apply land_mem result inside
    intro same
    rw [good.single g inside f flying same] at current
    exact stale current
  intro index chunk here a member
  rcases placed index chunk here a member with covered | listed | awaited | before | ahead
  · exact .inl covered
  · exact .inr (.inl listed)
  · obtain ⟨g,inside,current,facts⟩ := awaited
    exact .inr (.inr (.inl ⟨g,other inside current,current,facts⟩))
  · obtain ⟨g,inside,current,facts⟩ := before
    exact .inr (.inr (.inr (.inl ⟨g,other inside current,current,facts⟩)))
  · exact absurd ahead id

theorem goOn_accounted (good : Tracked s) (placed : Accounted s nowhere) {f : Fetch Event} (flying : f ∈ s.flight)
    (current : f.myRun = s.hook.runId) {result : Result Event} {part : List Str} {next : List (Frame Event)}
    (same : ∀ a, a ∈ scope part next ↔ a ∈ scope f.chunk f.stack) : Accounted (s.goOn f result part next) nowhere := by
  have mine : ({ f with chunk := part, stack := next } : Fetch Event) ∈ (s.goOn f result part next).flight :=
    List.mem_append_right _ (List.mem_singleton_self _)
  intro index chunk here a member
  rcases placed index chunk here a member with covered | listed | awaited | before | ahead
  · exact .inl covered
  · exact .inr (.inl listed)
  · obtain ⟨g,inside,latest,at_,inScope⟩ := awaited
    by_cases one : g.id = f.id
    · rw [good.single g inside f flying one] at at_ inScope
      exact .inr (.inr (.inl ⟨_,mine,current,at_,(same a).mpr inScope⟩))
    · exact .inr (.inr (.inl ⟨g,List.mem_append_left _ (land_mem result inside one),latest,at_,inScope⟩))
  · obtain ⟨g,inside,latest,i,calls,less⟩ := before
    by_cases one : g.id = f.id
    · rw [good.single g inside f flying one] at calls
      exact .inr (.inr (.inr (.inl ⟨_,mine,current,i,calls,less⟩)))
    · exact .inr (.inr (.inr (.inl ⟨g,List.mem_append_left _ (land_mem result inside one),latest,i,calls,less⟩)))
  · exact absurd ahead id

theorem reply_accounted (good : Tracked s) (placed : Accounted s nowhere) {f : Fetch Event} (flying : f ∈ s.flight)
    (result : Result Event) : Accounted (s.reply f result) nowhere := by
  rcases reply_cases good flying result with stale | goes | returns
  · rw [stale.2]
    exact stale_accounted placed good flying stale.1 result
  · obtain ⟨current,part,next,equal,all⟩ := goes
    rw [equal]
    cases all with
    | asks _ _ same _ _ => exact goOn_accounted good placed flying current same
  · obtain ⟨current,outcome,equal,all⟩ := returns
    rw [equal]
    cases all with
    | returns _ _ done =>
      have settled := settle_accounted good placed flying result done
      unfold Session.returned
      cases calls : f.caller with
      | loop index =>
        rw [calls] at settled
        exact loop_accounted settled
      | retry index =>
        rw [calls] at settled
        exact settled

theorem step_accounted (good : Tracked s) (placed : Accounted s nowhere) {action : Action Event} {next : Session Event}
    (moved : step s action = some next) : Accounted next nowhere := by
  cases action with
  | run dedupedInputHexes =>
    cases moved
    apply loop_accounted
    intro index _ _ _ _
    exact .inr (.inr (.inr (.inr (Nat.zero_le index))))
  | retryChunk index =>
    cases moved
    exact retryChunk_accounted placed index
  | reply id result =>
    obtain ⟨f,flying,-,rfl⟩ := step_reply moved
    exact reply_accounted good placed flying result

theorem reached_accounted (path : Reached s) : Accounted s nowhere := by
  have both : Tracked s ∧ Accounted s nowhere := by
    apply path.invariant fun s => Tracked s ∧ Accounted s nowhere
    · refine ⟨initial_tracked,?_⟩
      intro index chunk here
      cases here
    · intro s action next good allowed moved
      exact ⟨step_tracked good.1 allowed moved,step_accounted good.1 good.2 moved⟩
  exact both.2

end Accounting

section Ending
variable {s : Session Event}

-- The requests that the chunks from an index on can still make, and one more for each.
def toCome (chunks : List (List Str)) (index : Nat) : Nat := ((chunks.drop index).map fun chunk => 2 * chunk.length).sum

def Fetch.cost (hook : Hook Event) (f : Fetch Event) : Nat :=
  budget f.chunk f.stack +
    if f.myRun = hook.runId then match f.caller with
      | .loop index => toCome hook.chunkAuthorsByIndex (index + 1)
      | .retry _ => 0
    else 0

def Session.cost (s : Session Event) : Nat := (s.flight.map (Fetch.cost s.hook)).sum

theorem toCome_next {chunks : List (List Str)} {index : Nat} {chunk : List Str} (found : chunks[index]? = some chunk) :
    toCome chunks index = 2 * chunk.length + toCome chunks (index + 1) := by
  obtain ⟨short,same⟩ := List.getElem?_eq_some_iff.mp found
  unfold toCome
  rw [List.drop_eq_getElem_cons short,same,List.map_cons,List.sum_cons]

theorem cost_congr {hook hook' : Hook Event} (run : hook'.runId = hook.runId)
    (chunks : hook'.chunkAuthorsByIndex = hook.chunkAuthorsByIndex) : Fetch.cost hook' = Fetch.cost hook := by
  funext f
  unfold Fetch.cost
  rw [run,chunks]

theorem settle_chunks (s : Session Event) (index : Nat) (outcome : ChunkOutcome Event) :
    (s.settle index outcome).hook.chunkAuthorsByIndex = s.hook.chunkAuthorsByIndex :=
  (note_more (s.hook.absorb outcome) index outcome).2.2.1.trans (absorb_more s.hook outcome).2.2.1

theorem settle_run (s : Session Event) (index : Nat) (outcome : ChunkOutcome Event) :
    (s.settle index outcome).hook.runId = s.hook.runId :=
  (note_more (s.hook.absorb outcome) index outcome).1.trans (absorb_more s.hook outcome).1

theorem settle_cost (s : Session Event) (index : Nat) (outcome : ChunkOutcome Event) :
    (s.settle index outcome).cost = s.cost := by
  unfold Session.cost
  rw [cost_congr (settle_run s index outcome) (settle_chunks s index outcome)]
  rfl

theorem filter_cost (cost : Fetch Event → Nat) {flight : List (Fetch Event)} {f : Fetch Event} (flying : f ∈ flight) :
    cost f + ((flight.filter (·.id ≠ f.id)).map cost).sum ≤ (flight.map cost).sum := by
  induction flight with
  | nil => cases flying
  | cons g flight ih =>
    have less : ((flight.filter (·.id ≠ f.id)).map cost).sum ≤ (flight.map cost).sum :=
      (List.Sublist.map cost List.filter_sublist).sum_le_sum fun _ _ => Nat.zero_le _
    rcases List.mem_cons.mp flying with same | later
    · subst same
      simp only [ne_eq,not_true_eq_false,decide_false,List.filter_cons_of_neg,Bool.false_eq_true,not_false_eq_true,List.map_cons,
        List.sum_cons]
      simpa using less
    · have rest := ih later
      by_cases one : g.id = f.id
      · rw [List.filter_cons_of_neg (by simpa using one),List.map_cons,List.sum_cons]
        omega
      · rw [List.filter_cons_of_pos (by simpa using one),List.map_cons,List.map_cons,List.sum_cons,List.sum_cons]
        omega

theorem loop_cost (good : Tracked s) (index : Nat) :
    (s.loop index).cost = s.cost ∨ (s.loop index).cost < s.cost + toCome s.hook.chunkAuthorsByIndex index := by
  unfold Session.loop
  cases found : s.hook.chunkAuthorsByIndex[index]? with
  | none => exact .inl rfl
  | some chunk =>
    have member := List.mem_of_getElem? found
    rw [good.chunks] at member
    have long : 0 < chunk.length := List.length_pos_iff.mpr (chunk_some member)
    refine .inr ?_
    simp only [Session.cost,Session.fetchChunk,List.map_append,List.sum_append,List.map_cons,List.map_nil,List.sum_cons,List.sum_nil,
      Fetch.cost,if_true,budget,toCome_next found]
    omega

theorem reply_cost (good : Tracked s) {f : Fetch Event} (flying : f ∈ s.flight) (result : Result Event) :
    (s.reply f result).cost < s.cost := by
  have rest := filter_cost (Fetch.cost s.hook) flying
  have some := (good.live f flying).sound.budget_some
  rcases reply_cases good flying result with stale | goes | returns
  · rw [stale.2]
    simp only [Session.cost,Session.land]
    have mine : budget f.chunk f.stack ≤ f.cost s.hook := Nat.le_add_right _ _
    omega
  · obtain ⟨current,part,next,equal,all⟩ := goes
    rw [equal]
    cases all with
    | asks _ _ _ less _ =>
      simp only [Session.cost,Session.goOn,Session.land,List.map_append,List.sum_append,List.map_cons,List.map_nil,List.sum_cons,
        List.sum_nil]
      have mine : Fetch.cost s.hook { f with chunk := part, stack := next } < f.cost s.hook := by
        unfold Fetch.cost
        dsimp only
        omega
      omega
  · obtain ⟨current,outcome,equal,all⟩ := returns
    rw [equal]
    cases all with
    | returns covered groups done =>
      have settled : Tracked ((s.land f result).settle f.caller.index outcome) :=
        note_tracked (absorb_tracked good flying current covered groups) f.caller.index outcome
      have rested := settle_cost (s.land f result) f.caller.index outcome
      have held : (s.land f result).cost = ((s.flight.filter (·.id ≠ f.id)).map (Fetch.cost s.hook)).sum := rfl
      cases calls : f.caller with
      | retry index =>
        rw [calls] at rested
        have returned : ((s.land f result).returned (.retry index) outcome).cost =
            ((s.land f result).settle (Caller.retry index).index outcome).cost := rfl
        have mine : budget f.chunk f.stack ≤ f.cost s.hook := Nat.le_add_right _ _
        rw [returned,rested,held]
        unfold Session.cost
        omega
      | loop index =>
        rw [calls] at rested settled
        have next := loop_cost settled (index + 1)
        have returned : (s.land f result).returned (.loop index) outcome =
            ((s.land f result).settle (Caller.loop index).index outcome).loop (index + 1) := rfl
        have mine : f.cost s.hook = budget f.chunk f.stack + toCome s.hook.chunkAuthorsByIndex (index + 1) := by
          unfold Fetch.cost
          rw [if_pos current,calls]
        rw [settle_chunks,rested,held,show (s.land f result).hook = s.hook from rfl] at next
        rw [returned]
        unfold Session.cost at next ⊢
        omega

-- No call comes any more, only replies to what is in flight.
def onlyReplies : Session Event → Action Event → Prop
  | _,.reply _ _ => True
  | _,_ => False

theorem replies_end (good : Tracked s) : Machine.Inevitable step onlyReplies (fun s => s.flight = []) s := by
  apply Machine.Inevitable.of_measure Tracked Session.cost
  · intro s action next good allowed moved
    cases action with
    | reply id result =>
      have free : deduped s (.reply id result) := trivial
      exact step_tracked good free moved
    | run dedupedInputHexes => cases allowed
    | retryChunk index => cases allowed
  · intro s action next good allowed moved
    cases action with
    | reply id result =>
      obtain ⟨f,flying,-,rfl⟩ := step_reply moved
      exact reply_cost good flying result
    | run dedupedInputHexes => cases allowed
    | retryChunk index => cases allowed
  · intro s good busy
    obtain ⟨f,rest,flight⟩ := List.exists_cons_of_ne_nil busy
    refine ⟨.reply f.id .THREW,s.reply f .THREW,trivial,?_⟩
    simp [step,flight]
  · exact good

end Ending

section Growth
variable {s : Session Event}

theorem loop_hook (s : Session Event) (index : Nat) :
    (s.loop index).hook.runId = s.hook.runId ∧ (s.loop index).hook.coveredAuthors = s.hook.coveredAuthors := by
  unfold Session.loop
  split <;> exact ⟨rfl,rfl⟩

theorem retryChunk_hook (s : Session Event) (index : Nat) :
    (s.retryChunk index).hook.runId = s.hook.runId ∧ (s.retryChunk index).hook.coveredAuthors = s.hook.coveredAuthors := by
  unfold Session.retryChunk
  split
  · exact ⟨rfl,rfl⟩
  · dsimp only
    split <;> exact ⟨rfl,rfl⟩

theorem settle_covered (s : Session Event) (index : Nat) (outcome : ChunkOutcome Event) :
    s.hook.coveredAuthors ⊆ (s.settle index outcome).hook.coveredAuthors := by
  have noted := (note_more (s.hook.absorb outcome) index outcome).2.2.2.1
  have absorbed := (absorb_more s.hook outcome).2.2.2.2
  intro a member
  have more : a ∈ (s.hook.absorb outcome).coveredAuthors := (absorbed a).mpr (.inl member)
  rwa [← noted] at more

theorem reply_grows (good : Tracked s) {f : Fetch Event} (flying : f ∈ s.flight) (result : Result Event) :
    (s.reply f result).hook.runId = s.hook.runId ∧ s.hook.coveredAuthors ⊆ (s.reply f result).hook.coveredAuthors := by
  rcases reply_cases good flying result with stale | goes | returns
  · rw [stale.2]
    exact ⟨rfl,Finset.Subset.refl _⟩
  · obtain ⟨-,part,next,equal,-⟩ := goes
    rw [equal]
    exact ⟨rfl,Finset.Subset.refl _⟩
  · obtain ⟨-,outcome,equal,-⟩ := returns
    rw [equal]
    have run := settle_run (s.land f result) f.caller.index outcome
    have covered := settle_covered (s.land f result) f.caller.index outcome
    cases calls : f.caller with
    | retry index =>
      rw [calls] at run covered
      exact ⟨run,covered⟩
    | loop index =>
      rw [calls] at run covered
      obtain ⟨same,kept⟩ := loop_hook ((s.land f result).settle (Caller.loop index).index outcome) (index + 1)
      exact ⟨same.trans run,kept ▸ covered⟩

theorem step_grows (good : Tracked s) {action : Action Event} {next : Session Event} (moved : step s action = some next) :
    s.hook.runId ≤ next.hook.runId ∧ (next.hook.runId = s.hook.runId → s.hook.coveredAuthors ⊆ next.hook.coveredAuthors) := by
  cases action with
  | run dedupedInputHexes =>
    cases moved
    obtain ⟨run,-⟩ := loop_hook { s with hook := s.hook.begin dedupedInputHexes } 0
    have later : (s.run dedupedInputHexes).hook.runId = s.hook.runId + 1 := run
    exact ⟨by omega,fun same => by omega⟩
  | retryChunk index =>
    cases moved
    obtain ⟨run,covered⟩ := retryChunk_hook s index
    exact ⟨run.ge,fun _ => covered ▸ Finset.Subset.refl _⟩
  | reply id result =>
    obtain ⟨f,flying,-,rfl⟩ := step_reply moved
    obtain ⟨run,covered⟩ := reply_grows good flying result
    exact ⟨run.ge,fun _ => covered⟩

theorem run_grows (good : Tracked s) {later : Session Event} (path : Machine.Reached step deduped s later) :
    Tracked later ∧ s.hook.runId ≤ later.hook.runId ∧
      (later.hook.runId = s.hook.runId → s.hook.coveredAuthors ⊆ later.hook.coveredAuthors) := by
  induction path with
  | refl => exact ⟨good,Nat.le_refl _,fun _ => Finset.Subset.refl _⟩
  | step _ allowed moved ih =>
    obtain ⟨middle,before,grown⟩ := ih
    obtain ⟨after,more⟩ := step_grows middle moved
    refine ⟨step_tracked middle allowed moved,before.trans after,?_⟩
    intro same
    exact (grown (by omega)).trans (more (by omega))

end Growth

section Claims
variable {s : Session Event}

-- A request of the latest run for this author has succeeded.
def succeeded (s : Session Event) (a : Str) : Bool :=
  s.told.any fun r => decide (r.myRun = s.hook.runId ∧ a ∈ r.result.gained r.asked)

-- It belongs to a fetch, of the loop or of a retry, that has returned.
def triaged (s : Session Event) (a : Str) : Bool :=
  s.told.any fun r => decide (r.myRun = s.hook.runId ∧ a ∈ r.result.gained r.asked ∧ ∀ f ∈ s.flight, f.id ≠ r.fetch)

theorem triaged_counted (a : Str) : triaged s a = true ↔ Counted s a := by
  simp [triaged,Counted]

theorem triaged_covered (good : Tracked s) (a : Str) : triaged s a = true ↔ a ∈ s.hook.coveredAuthors :=
  (triaged_counted a).trans (good.covered a).symm

theorem triaged_count (good : Tracked s) : s.hook.triagedCount = (s.hook.inputHexes.filter (triaged s)).length := by
  have same : s.hook.coveredAuthors = (s.hook.inputHexes.filter (triaged s)).toFinset := by
    ext a
    rw [List.mem_toFinset,List.mem_filter,triaged_covered good]
    exact ⟨fun member => ⟨good.within a member,member⟩,fun both => both.2⟩
  rw [good.count,same]
  exact List.toFinset_card_of_nodup (good.distinct.filter _)

theorem rest_succeeded (good : Tracked s) (rest : ∀ f ∈ s.flight, f.myRun ≠ s.hook.runId) (a : Str) :
    triaged s a = succeeded s a := by
  rw [Bool.eq_iff_iff,triaged_counted]
  simp only [succeeded,List.any_eq_true,decide_eq_true_eq]
  constructor
  · intro counted
    obtain ⟨r,told,current,gained,-⟩ := counted
    exact ⟨r,told,current,gained⟩
  · intro shown
    obtain ⟨r,told,current,gained⟩ := shown
    refine ⟨r,told,current,gained,?_⟩
    intro f flying same
    have mine := (good.live f flying).same r told same.symm
    exact rest f flying (mine.symm.trans current)

theorem triage_accounts (path : Reached s) :
    s.hook.rows.map (·.author) = s.hook.inputHexes ∧ s.hook.inputHexes.Nodup ∧
    (∀ row ∈ s.hook.rows, row.events = [] ∨
      ∃ r ∈ s.told, r.myRun = s.hook.runId ∧ ⟨row.author,row.events⟩ ∈ r.result.success.getD []) ∧
    s.hook.triagedCount = (s.hook.inputHexes.filter (triaged s)).length ∧
    (∀ later, Machine.Reached step deduped s later → later.hook.runId = s.hook.runId → s.hook.triagedCount ≤ later.hook.triagedCount) ∧
    (∀ f ∈ s.flight, f.myRun ≠ s.hook.runId → ∀ result, ∃ next, step s (.reply f.id result) = some next ∧ next.hook = s.hook ∧
      next.flight = s.flight.filter (·.id ≠ f.id)) ∧
    Machine.Inevitable step onlyReplies (fun s => s.flight = []) s ∧
    ((∀ f ∈ s.flight, f.myRun ≠ s.hook.runId) →
      s.hook.triagedCount = (s.hook.inputHexes.filter (succeeded s)).length ∧
      ∀ a ∈ s.hook.inputHexes, triaged s a = true ∨
        ∃ e ∈ s.hook.chunkErrors, ∃ chunk, s.hook.chunkAuthorsByIndex[e.index]? = some chunk ∧ a ∈ chunk) := by
  have good := reached_tracked path
  refine ⟨?_,good.distinct,?_,triaged_count good,?_,?_,replies_end good,?_⟩
  · rw [good.rows]
    exact mergeByAuthor_authors _ _
  · intro row member
    rw [good.rows] at member
    rcases mergeByAuthor_events member with empty | grouped
    · exact .inl empty
    · exact .inr (good.groups _ grouped)
  · intro later after same
    obtain ⟨tracked,-,grown⟩ := run_grows good after
    rw [good.count,tracked.count]
    exact Finset.card_le_card (grown same)
  · intro f flying stale result
    cases found : s.flight.find? (·.id = f.id) with
    | none =>
      have missing := List.find?_eq_none.mp found f flying
      simp at missing
    | some g =>
      have inside := List.mem_of_find?_eq_some found
      have equal : g.id = f.id := by simpa using List.find?_some found
      rw [good.single g inside f flying equal] at found
      refine ⟨s.reply f result,by simp [step,found],?_⟩
      rcases reply_cases good flying result with same | goes | returns
      · rw [same.2]
        exact ⟨rfl,rfl⟩
      · exact absurd goes.1 stale
      · exact absurd returns.1 stale
  · intro rest
    refine ⟨?_,?_⟩
    · rw [triaged_count good,List.filter_congr fun a _ => rest_succeeded good rest a]
    · intro a member
      have whole := chunks_flatten s.hook.inputHexes
      rw [← whole] at member
      obtain ⟨chunk,inside,part⟩ := List.mem_flatten.mp member
      rw [← good.chunks] at inside
      obtain ⟨index,here⟩ := List.mem_iff_getElem?.mp inside
      rcases reached_accounted path index chunk here a part with covered | listed | awaited | before | ahead
      · exact .inl ((triaged_covered good a).mpr covered)
      · obtain ⟨e,listed,at_⟩ := listed
        exact .inr ⟨e,listed,chunk,at_ ▸ here,part⟩
      · obtain ⟨f,flying,current,-⟩ := awaited
        exact absurd current (rest f flying)
      · obtain ⟨f,flying,current,-⟩ := before
        exact absurd current (rest f flying)
      · exact absurd ahead id

def tooLarge : Result Nat := .result ⟨some ⟨some 413,[],true⟩,none⟩

-- Two authors, whose chunk is refused; the first one's own request succeeds, and the second one's is in flight.
def halfway : List (Action Nat) := [.run [[97],[98]],.reply 0 tooLarge,.reply 0 (.result ⟨none,some [⟨[97],[7]⟩]⟩)]

theorem triage_accounts_halfway : ∃ s : Session Nat, Reached s ∧ s.hook.rows.map (·.author) = [[97],[98]] ∧
    s.hook.triagedCount = (s.hook.inputHexes.filter (triaged s)).length := by
  obtain ⟨s,path,inputs⟩ := Machine.replay_final step deduped Session.initial halfway
    (fun s => decide (s.hook.inputHexes = [[97],[98]])) (by decide +kernel) (by decide +kernel)
  obtain ⟨rows,-,-,count,-⟩ := triage_accounts path
  exact ⟨s,path,rows.trans (of_decide_eq_true inputs),count⟩

-- The count waits for the other half.
theorem triage_accounts_fails : ¬ ∀ s : Session Nat, Reached s → s.hook.triagedCount = (s.hook.inputHexes.filter (succeeded s)).length := by
  intro claimed
  obtain ⟨s,path,apart⟩ := Machine.replay_final step deduped Session.initial halfway
    (fun s => decide (s.hook.triagedCount ≠ (s.hook.inputHexes.filter (succeeded s)).length)) (by decide +kernel) (by decide +kernel)
  exact of_decide_eq_true apart (claimed s path)

end Claims

end DeepFry.GraphQLExplorer
