import DeepFry.GraphQLExplorer.Transport
import DeepFry.Lib.Machine
import DeepFry.Lib.Trail

namespace DeepFry.GraphQLExplorer.Enumeration

abbrev Hex := Str
abbrev Cursor := Str

def enumLimit : Nat := 500
def maxEnumPages : Nat := 10000

structure AuthorsPage where
  authors : List Hex
  endCursor : Option Cursor
  hasMore : Bool

def isStuckPage (grewSeen cursorMoved hasMore : Bool) : Bool :=
  if !hasMore then false else !grewSeen && !cursorMoved

-- What fetchPage returns of the awaited result.
def fetchPage : Awaited AuthorsPage → Except ApiError AuthorsPage
  | .THREW => .error network
  | .response response => match response.classify with
    | some apiError => .error apiError
    | none => match response.data with
      | none => .error network
      | some page => .ok page

-- A Set keeps its members in the order they came.
def add (seen : List Hex) (pk : Hex) : List Hex := if pk ∈ seen then seen else seen ++ [pk]

-- What the hook shows.
structure View where
  authors : List Hex
  runningCount : Nat
  enumerating : Bool
  stopped : Bool
  complete : Bool
  error : Option ApiError
deriving DecidableEq

-- The variables of a loop that awaits a page.
structure Loop where
  myRun : Nat
  after : Option Cursor
  seen : List Hex
  cursorRetry : Nat
  pages : Nat

structure Request where
  run : Nat
  after : Option Cursor
  limit : Nat

-- A record of a request and of what it was told; the code keeps none.
structure Told where
  run : Nat
  after : Option Cursor
  result : Awaited AuthorsPage

structure Session where
  view : View
  stopRequested : Bool
  runId : Nat
  loops : List Loop
  asked : List Request
  told : List Told

def Session.initial : Session := ⟨⟨[],0,false,false,false,none⟩,false,0,[],[],[]⟩

inductive Action where
  | start
  | stop
  | reply (run : Nat) (result : Awaited AuthorsPage)

-- The head of the loop, up to the await.
def Session.iterate (s : Session) (loop : Loop) : Session :=
  if s.stopRequested then
    if loop.myRun = s.runId then { s with view := { s.view with stopped := true, enumerating := false } } else s
  else { s with loops := s.loops ++ [loop], asked := s.asked ++ [⟨loop.myRun,loop.after,enumLimit⟩] }

def Session.start (s : Session) : Session :=
  { s with
    runId := s.runId + 1
    stopRequested := false
    view := ⟨[],0,true,false,false,none⟩ }.iterate ⟨s.runId + 1,none,[],0,0⟩

def Session.ends (s : Session) (view : View) : Session := { s with view := { view with enumerating := false } }

-- The body of the loop from the await on.
def Session.resume (s : Session) (loop : Loop) (result : Awaited AuthorsPage) : Session :=
  if loop.myRun ≠ s.runId then s
  else match fetchPage result with
    | .error apiError =>
      if apiError.kind = .INVALID_CURSOR ∧ loop.after ≠ none ∧ loop.cursorRetry < 1 then
        { s with view := { s.view with authors := [], runningCount := 0 } }.iterate
          { loop with cursorRetry := loop.cursorRetry + 1, after := none, seen := [] }
      else s.ends { s.view with error := some apiError }
    | .ok outcome =>
      let seen := outcome.authors.foldl add loop.seen
      let view := { s.view with authors := seen, runningCount := seen.length }
      let pages := loop.pages + 1
      if outcome.endCursor.getD [] = [] ∨ !outcome.hasMore then s.ends { view with complete := true }
      else if isStuckPage (decide (seen.length > loop.seen.length)) (decide (outcome.endCursor ≠ loop.after)) outcome.hasMore then
        s.ends { view with error := some network }
      else if pages ≥ maxEnumPages then s.ends { view with error := some network }
      else { s with view := view }.iterate ⟨loop.myRun,outcome.endCursor,seen,0,pages⟩

-- The rest of the loops, and the record.
def Session.land (s : Session) (loop : Loop) (result : Awaited AuthorsPage) : Session :=
  { s with loops := s.loops.filter (·.myRun ≠ loop.myRun), told := s.told ++ [⟨loop.myRun,loop.after,result⟩] }

-- From a reply to the next await is one step.
def step (s : Session) : Action → Option Session
  | .start => some s.start
  | .stop => some { s with stopRequested := true }
  | .reply run result => (s.loops.find? (·.myRun = run)).map fun loop => (s.land loop result).resume loop result

-- A page that has more after it says where.
def points : Session → Action → Prop
  | _,.reply _ result => match fetchPage result with
    | .ok page => page.hasMore = true → page.endCursor.getD [] ≠ []
    | .error _ => True
  | _,_ => True

instance (s : Session) : (action : Action) → Decidable (points s action)
  | .reply _ result => match h : fetchPage result with
    | .ok page => decidable_of_iff (page.hasMore = true → page.endCursor.getD [] ≠ []) (by simp [points,h])
    | .error _ => .isTrue (by simp [points,h])
  | .start => inferInstanceAs (Decidable True)
  | .stop => inferInstanceAs (Decidable True)

abbrev Reached (s : Session) : Prop := Machine.Reached step points Session.initial s

def toldTo (run : Nat) (told : List Told) : List Told := told.filter (·.run = run)
def askedBy (run : Nat) (asked : List Request) : List Request := asked.filter (·.run = run)
def waiting (run : Nat) (loops : List Loop) : List Loop := loops.filter (·.myRun = run)

-- The pages a loop was given since it last started over, which it does on an error or not at all.
def sinceRestart (told : List Told) : List (Option Cursor × AuthorsPage) :=
  told.foldl (fun pages t => match fetchPage t.result with
    | .ok page => pages ++ [(t.after,page)]
    | .error _ => []) []

theorem sinceRestart_page {told : List Told} {t : Told} {page : AuthorsPage} (clean : fetchPage t.result = .ok page) :
    sinceRestart (told ++ [t]) = sinceRestart told ++ [(t.after,page)] := by
  simp [sinceRestart,List.foldl_append,clean]

theorem sinceRestart_error {told : List Told} {t : Told} {error : ApiError} (bad : fetchPage t.result = .error error) :
    sinceRestart (told ++ [t]) = [] := by
  simp [sinceRestart,List.foldl_append,bad]

theorem toldTo_land (s : Session) (loop : Loop) (result : Awaited AuthorsPage) :
    toldTo loop.myRun (s.land loop result).told = toldTo loop.myRun s.told ++ [⟨loop.myRun,loop.after,result⟩] := by
  simp [Session.land,toldTo]

theorem toldTo_other (s : Session) {loop : Loop} {run : Nat} (result : Awaited AuthorsPage) (other : run ≠ loop.myRun) :
    toldTo run (s.land loop result).told = toldTo run s.told := by
  simp [Session.land,toldTo,other.symm]

theorem mem_add {seen : List Hex} {pk hex : Hex} : hex ∈ add seen pk ↔ hex ∈ seen ∨ hex = pk := by
  unfold add
  split
  · rename_i present
    constructor
    · exact Or.inl
    · intro either
      cases either with
      | inl old => exact old
      | inr same => exact same ▸ present
  · simp

theorem mem_adds {seen pks : List Hex} {hex : Hex} : hex ∈ pks.foldl add seen ↔ hex ∈ seen ∨ hex ∈ pks := by
  induction pks generalizing seen with
  | nil => simp
  | cons pk pks ih => simp [ih,mem_add,or_assoc]

theorem adds_nodup {seen pks : List Hex} (distinct : seen.Nodup) : (pks.foldl add seen).Nodup := by
  induction pks generalizing seen with
  | nil => exact distinct
  | cons pk pks ih =>
    apply ih
    unfold add
    split
    · exact distinct
    · rename_i fresh
      apply distinct.append (List.nodup_singleton pk)
      simpa using fresh

-- The pages follow each other from the null cursor on, and the authors are those on them.
structure Collected (pages : List (Option Cursor × AuthorsPage)) (authors : List Hex) : Prop where
  linked : Trail.Linked AuthorsPage.endCursor none pages
  distinct : authors.Nodup
  members : ∀ pk, pk ∈ authors ↔ ∃ fetched ∈ pages, pk ∈ fetched.2.authors

theorem collected_nothing : Collected [] [] := ⟨trivial,List.nodup_nil,by simp⟩

theorem Collected.page {pages : List (Option Cursor × AuthorsPage)} {authors : List Hex} (collected : Collected pages authors)
    {after : Option Cursor} (tip : Trail.tip AuthorsPage.endCursor none pages = after) (page : AuthorsPage) :
    Collected (pages ++ [(after,page)]) (page.authors.foldl add authors) := by
  refine ⟨Trail.linked_concat.mpr ⟨collected.linked,tip.symm⟩,adds_nodup collected.distinct,?_⟩
  intro pk
  simp [mem_adds,collected.members,or_and_right,exists_or]

-- What holds of a loop that awaits a page. Every restart takes a cursor, and every cursor a page.
structure Sound (told : List Told) (loop : Loop) : Prop where
  collected : Collected (sinceRestart told) loop.seen
  tip : Trail.tip AuthorsPage.endCursor none (sinceRestart told) = loop.after
  more : ∀ fetched ∈ sinceRestart told, fetched.2.hasMore = true
  budget : ∃ restarts, told.length = loop.pages + restarts ∧ restarts + loop.after.toList.length ≤ loop.pages
  below : loop.pages < maxEnumPages

-- All pages of the keyspace.
def Whole (told : List Told) (authors : List Hex) : Prop :=
  ∃ front last, sinceRestart told = front ++ [last] ∧ (∀ fetched ∈ front, fetched.2.hasMore = true) ∧ last.2.hasMore = false ∧
    Collected (sinceRestart told) authors

theorem sound_new (run : Nat) : Sound [] ⟨run,none,[],0,0⟩ := by
  refine ⟨collected_nothing,rfl,?_,⟨0,rfl,?_⟩,?_⟩
  · intro fetched none
    cases none
  · simp
  · exact (by decide : 0 < maxEnumPages)

theorem Sound.onward {told : List Told} {loop : Loop} (sound : Sound told loop) {t : Told} (asked : t.after = loop.after)
    {page : AuthorsPage} (clean : fetchPage t.result = .ok page) (more : page.hasMore = true) (below : loop.pages + 1 < maxEnumPages)
    (cursorRetry : Nat) :
    Sound (told ++ [t]) ⟨loop.myRun,page.endCursor,page.authors.foldl add loop.seen,cursorRetry,loop.pages + 1⟩ := by
  obtain ⟨restarts,counted,few⟩ := sound.budget
  refine ⟨?_,?_,?_,⟨restarts,?_,?_⟩,below⟩
  · rw [sinceRestart_page clean,asked]
    exact sound.collected.page sound.tip page
  · rw [sinceRestart_page clean,Trail.tip_concat]
  · intro fetched member
    rw [sinceRestart_page clean] at member
    cases List.mem_append.mp member with
    | inl old => exact sound.more fetched old
    | inr new => rw [List.mem_singleton.mp new]; exact more
  · simp only [List.length_append,List.length_singleton,counted]
    omega
  · have one : page.endCursor.toList.length ≤ 1 := by cases page.endCursor <;> simp
    dsimp only
    omega

theorem Sound.again {told : List Told} {loop : Loop} (sound : Sound told loop) {t : Told} {error : ApiError}
    (bad : fetchPage t.result = .error error) (some : loop.after ≠ none) (cursorRetry : Nat) :
    Sound (told ++ [t]) { loop with cursorRetry := cursorRetry, after := none, seen := [] } := by
  obtain ⟨restarts,counted,few⟩ := sound.budget
  obtain ⟨cursor,held⟩ := Option.ne_none_iff_exists'.mp some
  simp only [held,Option.toList_some,List.length_singleton] at few
  refine ⟨?_,?_,?_,⟨restarts + 1,?_,?_⟩,sound.below⟩
  · rw [sinceRestart_error bad]
    exact collected_nothing
  · rw [sinceRestart_error bad]
    rfl
  · simp [sinceRestart_error bad]
  · simp only [List.length_append,List.length_singleton,counted]
    omega
  · simpa using few

theorem Sound.last {told : List Told} {loop : Loop} (sound : Sound told loop) {t : Told} (asked : t.after = loop.after)
    {page : AuthorsPage} (clean : fetchPage t.result = .ok page) (last : page.hasMore = false) :
    Whole (told ++ [t]) (page.authors.foldl add loop.seen) := by
  refine ⟨sinceRestart told,(loop.after,page),?_,sound.more,last,?_⟩
  · rw [sinceRestart_page clean,asked]
  · rw [sinceRestart_page clean,asked]
    exact sound.collected.page sound.tip page

theorem Sound.few {told : List Told} {loop : Loop} (sound : Sound told loop) : told.length + 1 < 2 * maxEnumPages := by
  obtain ⟨restarts,counted,few⟩ := sound.budget
  have below := sound.below
  omega

structure Core (s : Session) : Prop where
  known : ∀ loop ∈ s.loops, loop.myRun ≤ s.runId
  single : s.loops.Pairwise fun a b => a.myRun ≠ b.myRun
  sound : ∀ loop ∈ s.loops, Sound (toldTo loop.myRun s.told) loop
  accounted : ∀ run, (askedBy run s.asked).length = (toldTo run s.told).length + (waiting run s.loops).length
  bounded : ∀ run, (askedBy run s.asked).length < 2 * maxEnumPages
  unborn : ∀ run, s.runId < run → askedBy run s.asked = []

-- What the hook shows is what the latest loop made of it.
structure Shown (s : Session) : Prop where
  current : ∀ loop ∈ s.loops, loop.myRun = s.runId → s.view.authors = loop.seen ∧ s.view.complete = false
  whole : s.view.complete = true → Whole (toldTo s.runId s.told) s.view.authors
  counted : s.view.runningCount = s.view.authors.length
  enumerating : s.view.enumerating = true ↔ ∃ loop ∈ s.loops, loop.myRun = s.runId

variable {s : Session} {loop : Loop}

theorem find_loop {run : Nat} (found : s.loops.find? (·.myRun = run) = some loop) : loop ∈ s.loops ∧ loop.myRun = run :=
  ⟨List.mem_of_find?_eq_some found,by simpa using List.find?_some found⟩

theorem mem_land {result : Awaited AuthorsPage} {other : Loop} :
    other ∈ (s.land loop result).loops ↔ other ∈ s.loops ∧ other.myRun ≠ loop.myRun := by
  simp [Session.land]

theorem waiting_one (core : Core s) (member : loop ∈ s.loops) : (waiting loop.myRun s.loops).length = 1 := by
  have single := core.single
  revert single member
  generalize s.loops = loops
  intro member single
  induction loops with
  | nil => cases member
  | cons first rest ih =>
    obtain ⟨apart,single⟩ := List.pairwise_cons.mp single
    cases List.mem_cons.mp member with
    | inl same =>
      subst same
      have none : rest.filter (fun other => decide (other.myRun = loop.myRun)) = [] := by
        apply List.filter_eq_nil_iff.mpr
        intro other later
        simpa using (apart other later).symm
      simp [waiting,none]
    | inr later =>
      have other := apart loop later
      have one := ih later single
      simpa [waiting,other] using one

theorem Core.land (core : Core s) (member : loop ∈ s.loops) (result : Awaited AuthorsPage) : Core (s.land loop result) := by
  refine ⟨?_,core.single.filter _,?_,?_,core.bounded,core.unborn⟩
  · intro other left
    exact core.known other (mem_land.mp left).1
  · intro other left
    obtain ⟨old,apart⟩ := mem_land.mp left
    rw [toldTo_other s result apart]
    exact core.sound other old
  · intro run
    have before := core.accounted run
    by_cases own : run = loop.myRun
    · subst own
      have none : waiting loop.myRun (s.land loop result).loops = [] := by simp [waiting,Session.land]
      rw [toldTo_land,none]
      rw [waiting_one core member] at before
      simp only [List.length_append,List.length_singleton,List.length_nil,Nat.add_zero]
      exact before
    · have same : waiting run (s.land loop result).loops = waiting run s.loops := by
        unfold waiting Session.land
        rw [List.filter_filter]
        apply List.filter_congr
        intro other _
        by_cases asked : other.myRun = run
        · simp [asked,own]
        · simp [asked]
      rw [toldTo_other s result own,same]
      exact before

theorem Core.iterate (core : Core s) (known : loop.myRun ≤ s.runId) (free : ∀ other ∈ s.loops, other.myRun ≠ loop.myRun)
    (sound : Sound (toldTo loop.myRun s.told) loop) : Core (s.iterate loop) := by
  unfold Session.iterate
  split
  · split
    · exact ⟨core.known,core.single,core.sound,core.accounted,core.bounded,core.unborn⟩
    · exact core
  · have none : waiting loop.myRun s.loops = [] := by
      apply List.filter_eq_nil_iff.mpr
      intro other member
      simpa using free other member
    have own := core.accounted loop.myRun
    rw [none] at own
    refine ⟨?_,?_,?_,?_,?_,?_⟩
    · intro other member
      cases List.mem_append.mp member with
      | inl old => exact core.known other old
      | inr new => rw [List.mem_singleton.mp new]; exact known
    · apply List.pairwise_append.mpr
      refine ⟨core.single,List.pairwise_singleton _ _,?_⟩
      intro other old new same
      rw [List.mem_singleton.mp same]
      exact free other old
    · intro other member
      cases List.mem_append.mp member with
      | inl old => exact core.sound other old
      | inr new => rw [List.mem_singleton.mp new]; exact sound
    · intro run
      have before := core.accounted run
      by_cases same : loop.myRun = run
      · simpa [askedBy,waiting,same,← Nat.add_assoc] using before
      · simpa [askedBy,waiting,same] using before
    · intro run
      by_cases same : loop.myRun = run
      · subst same
        have few := sound.few
        simp only [List.length_nil] at own
        simp only [askedBy,List.filter_append,List.length_append,List.filter_cons_of_pos,List.filter_nil,decide_true,List.length_singleton]
        unfold askedBy at own
        omega
      · simpa [askedBy,same] using core.bounded run
    · intro run later
      have other : loop.myRun ≠ run := by
        dsimp only at later
        omega
      simpa [askedBy,other] using core.unborn run later

theorem Shown.iterate (same : loop.myRun = s.runId) (free : ∀ other ∈ s.loops, other.myRun ≠ s.runId)
    (authors : s.view.authors = loop.seen) (complete : s.view.complete = false) (counted : s.view.runningCount = s.view.authors.length)
    (enumerating : s.view.enumerating = true) : Shown (s.iterate loop) := by
  unfold Session.iterate
  split
  · refine ⟨?_,?_,counted,?_⟩
    · intro other member own
      exact absurd own (free other member)
    · simp [complete]
    · simpa using free
  · refine ⟨?_,?_,counted,?_⟩
    · intro other member own
      cases List.mem_append.mp member with
      | inl old => exact absurd own (free other old)
      | inr new => rw [List.mem_singleton.mp new]; exact ⟨authors,complete⟩
    · simp [complete]
    · simp [enumerating,same]

theorem Shown.ends (free : ∀ other ∈ s.loops, other.myRun ≠ s.runId) {view : View}
    (whole : view.complete = true → Whole (toldTo s.runId s.told) view.authors) (counted : view.runningCount = view.authors.length) :
    Shown (s.ends view) := by
  refine ⟨?_,whole,counted,?_⟩
  · intro other member own
    exact absurd own (free other member)
  · simpa [Session.ends] using free

-- A loop that was superseded is gone with its reply.
theorem resume_superseded (old : loop.myRun ≠ s.runId) (result : Awaited AuthorsPage) : s.resume loop result = s := if_pos old

structure Good (s : Session) : Prop where
  core : Core s
  shown : Shown s

theorem good_initial : Good Session.initial := by
  refine ⟨⟨?_,List.Pairwise.nil,?_,fun _ => rfl,fun _ => (by decide : 0 < 2 * maxEnumPages),fun _ _ => rfl⟩,?_,?_,rfl,?_⟩
  · intro loop none
    cases none
  · intro loop none
    cases none
  · intro loop none
    cases none
  · intro complete
    cases complete
  · simp [Session.initial]

theorem Good.start (good : Good s) : Good s.start := by
  have unborn := good.core.unborn (s.runId + 1) (by omega)
  have untold : toldTo (s.runId + 1) s.told = [] := by
    have counted := good.core.accounted (s.runId + 1)
    rw [unborn] at counted
    apply List.eq_nil_of_length_eq_zero
    simp only [List.length_nil] at counted
    omega
  have free : ∀ other ∈ s.loops, other.myRun ≠ s.runId + 1 := by
    intro other member
    have known := good.core.known other member
    omega
  constructor
  · apply Core.iterate
    · refine ⟨?_,good.core.single,good.core.sound,good.core.accounted,good.core.bounded,?_⟩
      · intro other member
        have known := good.core.known other member
        dsimp only
        omega
      · intro run later
        apply good.core.unborn run
        dsimp only at later
        omega
    · exact le_rfl
    · exact free
    · rw [untold]
      exact sound_new _
  · exact Shown.iterate rfl free rfl rfl rfl rfl

theorem Good.stop (good : Good s) : Good { s with stopRequested := true } := by
  obtain ⟨core,shown⟩ := good
  exact ⟨⟨core.known,core.single,core.sound,core.accounted,core.bounded,core.unborn⟩,
    ⟨shown.current,shown.whole,shown.counted,shown.enumerating⟩⟩

theorem Good.reply (good : Good s) (member : loop ∈ s.loops) {result : Awaited AuthorsPage}
    (pointed : ∀ page, fetchPage result = .ok page → page.hasMore = true → page.endCursor.getD [] ≠ []) :
    Good ((s.land loop result).resume loop result) := by
  have core := good.core.land member result
  have sound := good.core.sound loop member
  by_cases current : loop.myRun = s.runId
  · obtain ⟨authors,complete⟩ := good.shown.current loop member current
    have enumerating : s.view.enumerating = true := good.shown.enumerating.mpr ⟨loop,member,current⟩
    have gone : ∀ other ∈ (s.land loop result).loops, other.myRun ≠ loop.myRun := by
      intro other left
      exact (mem_land.mp left).2
    have free : ∀ other ∈ (s.land loop result).loops, other.myRun ≠ s.runId := by
      rw [← current]
      exact gone
    have told := toldTo_land s loop result
    have held : ¬ loop.myRun ≠ (s.land loop result).runId := not_not.mpr current
    unfold Session.resume
    rw [if_neg held]
    cases fetched : fetchPage result with
    | error apiError =>
      dsimp only
      split
      · rename_i again
        constructor
        · apply Core.iterate
          · exact ⟨core.known,core.single,core.sound,core.accounted,core.bounded,core.unborn⟩
          · exact current.le
          · exact gone
          · dsimp only
            rw [told]
            exact sound.again fetched again.2.1 _
        · exact Shown.iterate current free rfl complete rfl enumerating
      · refine ⟨⟨core.known,core.single,core.sound,core.accounted,core.bounded,core.unborn⟩,Shown.ends free ?_ good.shown.counted⟩
        intro done
        exact absurd (complete.symm.trans done) (by decide)
    | ok page =>
      have ended : ∀ view : View, (view.complete = true → Whole (toldTo loop.myRun (s.land loop result).told) view.authors) →
          view.runningCount = view.authors.length → Good ((s.land loop result).ends view) := by
        intro view whole counted
        rw [current] at whole
        exact ⟨⟨core.known,core.single,core.sound,core.accounted,core.bounded,core.unborn⟩,Shown.ends free whole counted⟩
      have failed : Good ((s.land loop result).ends
          { s.view with authors := page.authors.foldl add loop.seen, runningCount := (page.authors.foldl add loop.seen).length,
                        error := some network }) := by
        apply ended
        · intro done
          exact absurd (complete.symm.trans done) (by decide)
        · rfl
      dsimp only
      split
      · rename_i over_
        apply ended
        · intro _
          rw [told]
          apply sound.last rfl fetched
          cases more : page.hasMore with
          | false => rfl
          | true =>
            have some := pointed page fetched more
            simp [some,more] at over_
        · rfl
      · rename_i on
        have more : page.hasMore = true := by
          cases more : page.hasMore with
          | false => simp [more] at on
          | true => rfl
        split
        · exact failed
        · split
          · exact failed
          · rename_i below
            constructor
            · apply Core.iterate
              · exact ⟨core.known,core.single,core.sound,core.accounted,core.bounded,core.unborn⟩
              · exact current.le
              · exact gone
              · dsimp only
                rw [told]
                exact sound.onward rfl fetched more (by omega) 0
            · exact Shown.iterate current free rfl complete rfl enumerating
  · have old : loop.myRun ≠ (s.land loop result).runId := current
    rw [resume_superseded old]
    refine ⟨core,?_,?_,good.shown.counted,?_⟩
    · intro other left own
      exact good.shown.current other (mem_land.mp left).1 own
    · intro done
      have whole := good.shown.whole done
      rwa [← toldTo_other s result (Ne.symm current)] at whole
    · rw [show (s.land loop result).view = s.view from rfl,good.shown.enumerating]
      constructor
      · intro held
        obtain ⟨other,member,own⟩ := held
        refine ⟨other,mem_land.mpr ⟨member,?_⟩,own⟩
        intro same
        exact current (same.symm.trans own)
      · intro held
        obtain ⟨other,left,own⟩ := held
        exact ⟨other,(mem_land.mp left).1,own⟩

theorem reply_parts {run : Nat} {result : Awaited AuthorsPage} {next : Session} (moved : step s (.reply run result) = some next) :
    ∃ loop ∈ s.loops, loop.myRun = run ∧ next = (s.land loop result).resume loop result := by
  obtain ⟨loop,found,rfl⟩ := Option.map_eq_some_iff.mp moved
  obtain ⟨member,own⟩ := find_loop found
  exact ⟨loop,member,own,rfl⟩

theorem Good.step {action : Action} {next : Session} (good : Good s) (pointed : points s action)
    (moved : Enumeration.step s action = some next) : Good next := by
  cases action with
  | start =>
    cases moved
    exact good.start
  | stop =>
    cases moved
    exact good.stop
  | reply run result =>
    obtain ⟨loop,member,_,rfl⟩ := reply_parts moved
    apply good.reply member
    intro page fetched
    simpa [points,fetched] using pointed

theorem reached_good (path : Reached s) : Good s := path.invariant Good good_initial Good.step

-- What a loop may still be told.
def remaining (s : Session) : Nat := ∑ run ∈ Finset.range (s.runId + 1), (2 * maxEnumPages - (toldTo run s.told).length)

theorem iterate_told (s : Session) (loop : Loop) : (s.iterate loop).told = s.told ∧ (s.iterate loop).runId = s.runId := by
  unfold Session.iterate
  split
  · split <;> exact ⟨rfl,rfl⟩
  · exact ⟨rfl,rfl⟩

theorem resume_told (s : Session) (loop : Loop) (result : Awaited AuthorsPage) :
    (s.resume loop result).told = s.told ∧ (s.resume loop result).runId = s.runId := by
  unfold Session.resume
  split
  · exact ⟨rfl,rfl⟩
  · cases fetchPage result with
    | error apiError =>
      dsimp only
      split
      · exact iterate_told _ _
      · exact ⟨rfl,rfl⟩
    | ok page =>
      dsimp only
      split
      · exact ⟨rfl,rfl⟩
      · split
        · exact ⟨rfl,rfl⟩
        · split
          · exact ⟨rfl,rfl⟩
          · exact iterate_told _ _

theorem remaining_reply (good : Good s) (member : loop ∈ s.loops) (result : Awaited AuthorsPage) :
    remaining ((s.land loop result).resume loop result) < remaining s := by
  obtain ⟨told,runId⟩ := resume_told (s.land loop result) loop result
  unfold remaining
  rw [told,runId]
  apply Finset.sum_lt_sum
  · intro run _
    by_cases own : run = loop.myRun
    · rw [own,toldTo_land,List.length_append]
      omega
    · rw [toldTo_other s result own]
  · have known := good.core.known loop member
    have inside : loop.myRun < (s.land loop result).runId + 1 := Nat.lt_succ_of_le known
    refine ⟨loop.myRun,Finset.mem_range.mpr inside,?_⟩
    have few := (good.core.sound loop member).few
    rw [toldTo_land,List.length_append,List.length_singleton]
    omega

def onlyReplies (s : Session) (action : Action) : Prop := (∃ run result, action = .reply run result) ∧ points s action

theorem replies_end (good : Good s) : Machine.Inevitable Enumeration.step onlyReplies (fun s => s.loops = []) s := by
  apply Machine.Inevitable.of_measure Good remaining
  · intro s action next good allowed moved
    exact good.step allowed.2 moved
  · intro s action next good allowed moved
    obtain ⟨run,result,rfl⟩ := allowed.1
    obtain ⟨loop,member,_,rfl⟩ := reply_parts moved
    exact remaining_reply good member result
  · intro s good busy
    obtain ⟨loop,member⟩ := List.exists_mem_of_ne_nil _ busy
    obtain ⟨held,found⟩ := Option.isSome_iff_exists.mp
      (List.find?_isSome.mpr ⟨loop,member,decide_eq_true rfl⟩ : (s.loops.find? (·.myRun = loop.myRun)).isSome)
    refine ⟨.reply loop.myRun .THREW,(s.land held .THREW).resume held .THREW,⟨⟨_,_,rfl⟩,trivial⟩,?_⟩
    simp [Enumeration.step,found]
  · exact good

theorem enumeration_honest (path : Reached s) :
    (∀ run, (askedBy run s.asked).length < 2 * maxEnumPages ∧
      (askedBy run s.asked).length = (toldTo run s.told).length + (waiting run s.loops).length) ∧
    Machine.Inevitable step onlyReplies (fun s => s.loops = []) s ∧
    (s.view.enumerating = true ↔ ∃ loop ∈ s.loops, loop.myRun = s.runId) ∧
    (s.view.complete = true → Whole (toldTo s.runId s.told) s.view.authors) ∧
    (∀ run result next, run ≠ s.runId → step s (.reply run result) = some next →
      next.view = s.view ∧ next.asked = s.asked ∧ next.runId = s.runId ∧ next.stopRequested = s.stopRequested) := by
  have good := reached_good path
  refine ⟨?_,replies_end good,good.shown.enumerating,good.shown.whole,?_⟩
  · intro run
    exact ⟨good.core.bounded run,good.core.accounted run⟩
  · intro run result next other moved
    obtain ⟨loop,member,own,rfl⟩ := reply_parts moved
    have old : loop.myRun ≠ (s.land loop result).runId := own ▸ other
    rw [resume_superseded old]
    exact ⟨rfl,rfl,rfl,rfl⟩

def page (authors : List Hex) (endCursor : Option Cursor) (hasMore : Bool) : Awaited AuthorsPage :=
  .response ⟨none,some ⟨authors,endCursor,hasMore⟩⟩

def rejected : Awaited AuthorsPage := .response ⟨some ⟨none,[⟨some (Bytes.text "INVALID_CURSOR"),[]⟩],false⟩,none⟩

-- The first cursor is rejected, the pages are read again, and a loop that was started over answers late.
theorem enumeration_honest_restart : ∃ s, Reached s ∧
    (s.view.authors = [[97],[98],[99]] ∧ s.view.complete = true) ∧ Whole (toldTo s.runId s.told) s.view.authors := by
  obtain ⟨s,path,checked⟩ := Machine.replay_final step points Session.initial
    [.start,.start,.reply 2 (page [[97]] (some [120]) true),.reply 2 rejected,.reply 1 (page [[100]] none false),
      .reply 2 (page [[97],[98]] (some [121]) true),.reply 2 (page [[98],[99]] none false)]
    (fun s => decide (s.view.authors = [[97],[98],[99]] ∧ s.view.complete = true)) (by decide +kernel) (by decide +kernel)
  have shown := of_decide_eq_true checked
  exact ⟨s,path,shown,(enumeration_honest path).2.2.2.1 shown.2⟩

end DeepFry.GraphQLExplorer.Enumeration
