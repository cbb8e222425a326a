import DeepFry.GraphQLExplorer.Transport
import DeepFry.Lib.Machine
import DeepFry.Lib.Trail

namespace DeepFry.GraphQLExplorer.AuthorWindow

abbrev Hex := Str
abbrev Cursor := Str

structure EventsPage (Event : Type) where
  events : List Event
  endCursor : Option Cursor
  hasMore : Bool
deriving DecidableEq

-- A page request in flight, with what its closure holds.
structure Fetch where
  id : Nat
  hex : Hex
  cursor : Option Cursor
  myRun : Nat

-- A record of the clean pages and of the automatic restarts; the code keeps none.
inductive Mark where
  | page
  | restart
deriving DecidableEq

-- The author the hook is called with, its states and refs, and what is in flight for it.
structure Hook (Event : Type) where
  hex : Hex
  mounted : Bool
  events : List Event
  error : Option ApiError
  loading : Bool
  hasMore : Bool
  after : Option Cursor
  inFlight : Bool
  hasMoreRef : Bool
  runId : Nat
  cursorRetry : Nat
  flight : List Fetch
  fetches : Nat
  marks : List Mark

inductive Action (Event : Type) where
  | author (hex : Hex)
  | loadMore
  | reply (id : Nat) (result : Awaited (EventsPage Event))
  | unmount

variable {Event : Type}

-- fetchPage, up to the await.
def Hook.fetchPage (s : Hook Event) (hex : Hex) (cursor : Option Cursor) (myRun : Nat) : Hook Event :=
  if s.inFlight then s
  else { s with inFlight := true, loading := true, flight := s.flight ++ [⟨s.fetches,hex,cursor,myRun⟩], fetches := s.fetches + 1 }

-- fetchPage, from the await on.
def Hook.resume (s : Hook Event) (f : Fetch) (result : Awaited (EventsPage Event)) : Hook Event :=
  if f.myRun ≠ s.runId then { s with inFlight := false }
  else match result with
    | .THREW => { s with error := some network, loading := false, inFlight := false }
    | .response response => match response.classify with
      | some apiError =>
        if apiError.kind = .INVALID_CURSOR then
          if f.cursor = none ∨ s.cursorRetry ≥ 1 then
            { s with error := some apiError, hasMore := false, hasMoreRef := false, loading := false, inFlight := false }
          else
            { s with
              cursorRetry := s.cursorRetry + 1
              after := none
              events := []
              hasMore := false
              hasMoreRef := false
              inFlight := false
              marks := s.marks ++ [Mark.restart] }.fetchPage f.hex none f.myRun
        else { s with error := some apiError, loading := false, inFlight := false }
      | none => match response.data with
        | some page =>
          { s with
            events := if f.cursor = none then page.events else s.events ++ page.events
            after := page.endCursor
            hasMore := page.hasMore
            hasMoreRef := page.hasMore
            cursorRetry := 0
            error := none
            loading := false
            inFlight := false
            marks := s.marks ++ [Mark.page] }
        | none => { s with loading := false, inFlight := false }

-- The effect of an author.
def Hook.effect (s : Hook Event) : Hook Event :=
  { s with
    runId := s.runId + 1
    after := none
    inFlight := false
    cursorRetry := 0
    events := []
    hasMore := false
    hasMoreRef := false
    error := none
    loading := true }.fetchPage s.hex none (s.runId + 1)

def Hook.cleanUp (s : Hook Event) : Hook Event := { s with runId := s.runId + 1 }

def Hook.loadMore (s : Hook Event) : Hook Event :=
  if s.inFlight ∨ !s.hasMoreRef then s else s.fetchPage s.hex s.after s.runId

def mount (hex : Hex) : Hook Event := Hook.effect ⟨hex,true,[],none,true,false,none,false,false,0,0,[],0,[]⟩

-- The clean-up of an author and the effect of the next run in a row. What the hook returned is called no more after the unmount.
def step (s : Hook Event) : Action Event → Option (Hook Event)
  | .author hex => if s.mounted then some { s.cleanUp with hex := hex }.effect else none
  | .loadMore => if s.mounted then some s.loadMore else none
  | .reply id result => (s.flight.find? (·.id = id)).map fun f =>
    { s with flight := s.flight.filter fun g => decide (g.id ≠ f.id) }.resume f result
  | .unmount => if s.mounted then some { s.cleanUp with mounted := false } else none

def delivered : Awaited (EventsPage Event) → Option (EventsPage Event)
  | .THREW => none
  | .response response => match response.classify with
    | some _ => none
    | none => response.data

section Server
variable (server : Hex → Option Cursor → EventsPage Event)

-- A page depends on the author and the cursor alone.
def serves (s : Hook Event) : Action Event → Prop
  | .reply id result => ∀ f ∈ s.flight.find? (·.id = id), ∀ page ∈ delivered result, page = server f.hex f.cursor
  | _ => True

instance [DecidableEq Event] (s : Hook Event) : (action : Action Event) → Decidable (serves server s action)
  | .reply id result => inferInstanceAs (Decidable (∀ f ∈ s.flight.find? (·.id = id), ∀ page ∈ delivered result, page = server f.hex f.cursor))
  | .author _ | .loadMore | .unmount => inferInstanceAs (Decidable True)

-- No reply to an earlier author comes while a page of the current one is in flight.
def timely (s : Hook Event) : Action Event → Prop
  | .reply id _ => ∀ f ∈ s.flight.find? (·.id = id), f.myRun = s.runId ∨ s.mounted = false ∨ ∀ g ∈ s.flight, g.myRun ≠ s.runId
  | _ => True

instance (s : Hook Event) : (action : Action Event) → Decidable (timely s action)
  | .reply id _ => inferInstanceAs (Decidable (∀ f ∈ s.flight.find? (·.id = id),
      f.myRun = s.runId ∨ s.mounted = false ∨ ∀ g ∈ s.flight, g.myRun ≠ s.runId))
  | .author _ | .loadMore | .unmount => inferInstanceAs (Decidable True)

def calm (s : Hook Event) (action : Action Event) : Prop := serves server s action ∧ timely s action

instance [DecidableEq Event] (s : Hook Event) (action : Action Event) : Decidable (calm server s action) :=
  inferInstanceAs (Decidable (_ ∧ _))
end Server

def Hook.current (s : Hook Event) : List Fetch := s.flight.filter fun f => decide (f.myRun = s.runId)

-- The cursors that a server leads through, from the null cursor on.
def cursorAt (server : Hex → Option Cursor → EventsPage Event) (hex : Hex) : Nat → Option Cursor
  | 0 => none
  | n+1 => (server hex (cursorAt server hex n)).endCursor

-- Of the first n pages each but the last says that there is more, and where.
def Followed (server : Hex → Option Cursor → EventsPage Event) (hex : Hex) (n : Nat) : Prop :=
  ∀ k, k + 1 < n → (server hex (cursorAt server hex k)).hasMore = true ∧ cursorAt server hex (k + 1) ≠ none

-- As long as there is more, no cursor comes back.
def Unrepeating (server : Hex → Option Cursor → EventsPage Event) : Prop :=
  ∀ hex n, Followed server hex n → ((List.range n).map (cursorAt server hex)).Nodup

-- The pages of an author from the null cursor on, each asked for where the one before it ended, and none of them twice.
structure Walked (server : Hex → Option Cursor → EventsPage Event) (hex : Hex) (trail : List (Option Cursor × EventsPage Event)) : Prop where
  linked : Trail.Linked EventsPage.endCursor none trail
  pages : ∀ fetched ∈ trail, fetched.2 = server hex fetched.1
  once : (trail.map (·.1)).Nodup

structure Shown (server : Hex → Option Cursor → EventsPage Event) (s : Hook Event)
    (trail : List (Option Cursor × EventsPage Event)) : Prop where
  walked : Walked server s.hex trail
  tip : Trail.tip EventsPage.endCursor none trail = s.after
  events : s.events = trail.flatMap (·.2.events)

-- The same of any server, with how far its pages were followed.
structure Held (server : Hex → Option Cursor → EventsPage Event) (s : Hook Event)
    (trail : List (Option Cursor × EventsPage Event)) : Prop where
  linked : Trail.Linked EventsPage.endCursor none trail
  pages : ∀ fetched ∈ trail, fetched.2 = server s.hex fetched.1
  tip : Trail.tip EventsPage.endCursor none trail = s.after
  events : s.events = trail.flatMap (·.2.events)
  followed : Followed server s.hex trail.length
  more : s.hasMoreRef = true → ∀ k, k + 1 = trail.length → (server s.hex (cursorAt server s.hex k)).hasMore = true

variable {server : Hex → Option Cursor → EventsPage Event} {s : Hook Event}

section Trails
variable {hex : Hex} {trail : List (Option Cursor × EventsPage Event)}

-- What a trail asked for, and where it points.
theorem trail_cursors (linked : Trail.Linked EventsPage.endCursor none trail) (pages : ∀ fetched ∈ trail, fetched.2 = server hex fetched.1) :
    trail.map (·.1) = (List.range trail.length).map (cursorAt server hex) ∧
      Trail.tip EventsPage.endCursor none trail = cursorAt server hex trail.length := by
  induction trail using List.reverseRecOn with
  | nil => exact ⟨rfl,rfl⟩
  | append_singleton trail fetched ih =>
    obtain ⟨before,start⟩ := Trail.linked_concat.mp linked
    obtain ⟨cursors,tip⟩ := ih before fun old member => pages old (List.mem_append_left _ member)
    have served := pages fetched (List.mem_append_right _ (List.mem_singleton_self _))
    rw [tip] at start
    constructor
    · rw [List.map_append,cursors,List.length_append,List.length_singleton,List.range_succ,List.map_append,List.map_singleton,start]
      rfl
    · rw [Trail.tip_concat,List.length_append,List.length_singleton,served,start]
      rfl

theorem Held.shown (held : Held server s trail) (unrepeating : Unrepeating server) : Shown server s trail := by
  refine ⟨⟨held.linked,held.pages,?_⟩,held.tip,held.events⟩
  rw [(trail_cursors held.linked held.pages).1]
  exact unrepeating s.hex trail.length held.followed

-- A state that differs in nothing that is shown.
theorem Held.same {t : Hook Event} (held : Held server s trail) (hex : t.hex = s.hex) (after : t.after = s.after)
    (events : t.events = s.events) (more : t.hasMoreRef = true → s.hasMoreRef = true) : Held server t trail := by
  obtain ⟨linked,pages,tip,shown,followed,further⟩ := held
  rw [← hex] at pages followed further
  rw [← after] at tip
  rw [← events] at shown
  exact ⟨linked,pages,tip,shown,followed,fun on => further (more on)⟩
end Trails

theorem mem_current {f : Fetch} : f ∈ s.current ↔ f ∈ s.flight ∧ f.myRun = s.runId := by simp [Hook.current]

-- The fetches, whatever they are for.
structure Issued (s : Hook Event) : Prop where
  distinct : (s.flight.map (·.id)).Nodup
  fresh : ∀ f ∈ s.flight, f.id < s.fetches
  known : ∀ f ∈ s.flight, f.myRun ≤ s.runId

structure Good (server : Hex → Option Cursor → EventsPage Event) (s : Hook Event) : Prop where
  issued : Issued s
  guarded : s.mounted = true → s.current.length = s.inFlight.toNat
  left : s.mounted = false → s.current = []
  asked : ∀ f ∈ s.current, f.hex = s.hex ∧ f.cursor = s.after ∧ (s.after = none ∨ s.hasMoreRef = true)
  held : ∃ trail, Held server s trail

theorem held_nothing (after : s.after = none) (events : s.events = []) : ∃ trail, Held server s trail := by
  refine ⟨[],trivial,?_,after.symm,events,?_,?_⟩
  · intro fetched none
    cases none
  · intro k below
    cases below
  · intro _ k none
    cases none

-- The next page of the current author is asked for.
theorem good_fetchPage (issued : Issued s) (mounted : s.mounted = true) (idle : s.inFlight = false) (alone : s.current = [])
    (on : s.after = none ∨ s.hasMoreRef = true) (held : ∃ trail, Held server s trail) : Good server (s.fetchPage s.hex s.after s.runId) := by
  unfold Hook.fetchPage
  rw [if_neg (Bool.eq_false_iff.mp idle)]
  have current : (s.flight ++ [(⟨s.fetches,s.hex,s.after,s.runId⟩ : Fetch)]).filter (fun f => decide (f.myRun = s.runId)) =
      [⟨s.fetches,s.hex,s.after,s.runId⟩] := by
    unfold Hook.current at alone
    simp [List.filter_append,alone]
  obtain ⟨trail,held⟩ := held
  refine ⟨⟨?_,?_,?_⟩,?_,?_,?_,trail,held.same rfl rfl rfl id⟩
  · rw [List.map_append]
    apply issued.distinct.append (List.nodup_singleton _)
    intro id old new
    obtain ⟨f,member,rfl⟩ := List.mem_map.mp old
    have below := issued.fresh f member
    have same := List.mem_singleton.mp new
    dsimp only at same
    omega
  · intro f member
    dsimp only
    cases List.mem_append.mp member with
    | inl old => exact Nat.lt_succ_of_lt (issued.fresh f old)
    | inr new => rw [List.mem_singleton.mp new]; exact Nat.lt_succ_self _
  · intro f member
    cases List.mem_append.mp member with
    | inl old => exact issued.known f old
    | inr new => rw [List.mem_singleton.mp new]
  · intro _
    exact congrArg List.length current
  · intro gone
    cases mounted.symm.trans gone
  · intro f member
    unfold Hook.current at member
    rw [current] at member
    rw [List.mem_singleton.mp member]
    exact ⟨rfl,rfl,on⟩

-- A new run has nothing in flight yet.
theorem current_begun (issued : Issued s) (runId : Nat) (later : s.runId < runId) :
    s.flight.filter (fun f => decide (f.myRun = runId)) = [] := by
  apply List.filter_eq_nil_iff.mpr
  intro f member
  have known := issued.known f member
  simp only [decide_eq_true_eq]
  omega

theorem good_effect (issued : Issued s) (mounted : s.mounted = true) : Good server s.effect := by
  apply good_fetchPage
  · refine ⟨issued.distinct,issued.fresh,?_⟩
    intro f member
    exact Nat.le_succ_of_le (issued.known f member)
  · exact mounted
  · rfl
  · exact current_begun issued _ (Nat.lt_succ_self _)
  · exact .inl rfl
  · exact held_nothing rfl rfl

theorem good_mount (hex : Hex) : Good server (mount hex : Hook Event) := by
  apply good_effect
  · refine ⟨List.nodup_nil,?_,?_⟩
    · intro f none
      cases none
    · intro f none
      cases none
  · rfl

theorem Issued.cleanUp (issued : Issued s) : Issued s.cleanUp := by
  refine ⟨issued.distinct,issued.fresh,?_⟩
  intro f member
  exact Nat.le_succ_of_le (issued.known f member)

theorem Good.author (good : Good server s) (mounted : s.mounted = true) (hex : Hex) :
    Good server (Hook.effect { s.cleanUp with hex := hex }) := by
  obtain ⟨distinct,fresh,known⟩ := good.issued.cleanUp
  exact good_effect ⟨distinct,fresh,known⟩ mounted

theorem Good.unmount (good : Good server s) : Good server { s.cleanUp with mounted := false } := by
  obtain ⟨distinct,fresh,known⟩ := good.issued.cleanUp
  have none : s.flight.filter (fun f => decide (f.myRun = s.runId + 1)) = [] :=
    current_begun good.issued _ (Nat.lt_succ_self _)
  obtain ⟨trail,held⟩ := good.held
  refine ⟨⟨distinct,fresh,known⟩,?_,fun _ => none,?_,trail,held.same rfl rfl rfl id⟩
  · intro still
    cases still
  · intro f member
    have member : f ∈ s.flight.filter (fun f => decide (f.myRun = s.runId + 1)) := member
    rw [none] at member
    cases member

theorem Good.loadMore (good : Good server s) (mounted : s.mounted = true) : Good server s.loadMore := by
  unfold Hook.loadMore
  split
  · exact good
  · rename_i free
    have idle : s.inFlight = false := Bool.eq_false_iff.mpr (not_or.mp free).1
    have alone := good.guarded mounted
    rw [idle] at alone
    have on : s.hasMoreRef = true := by
      have more := (not_or.mp free).2
      simpa using more
    exact good_fetchPage good.issued mounted idle (List.eq_nil_of_length_eq_zero alone) (.inr on) good.held

-- The flight without a fetch that was answered.
def Hook.rest (s : Hook Event) (f : Fetch) : Hook Event := { s with flight := s.flight.filter fun g => decide (g.id ≠ f.id) }

variable {f : Fetch}

theorem Issued.rest (issued : Issued s) (f : Fetch) : Issued (s.rest f) := by
  refine ⟨?_,?_,?_⟩
  · exact issued.distinct.sublist (List.filter_sublist.map _)
  · intro g left
    exact issued.fresh g (List.mem_of_mem_filter left)
  · intro g left
    exact issued.known g (List.mem_of_mem_filter left)

theorem Issued.same (issued : Issued s) (member : f ∈ s.flight) {g : Fetch} (also : g ∈ s.flight) (id : g.id = f.id) : g = f :=
  List.inj_on_of_nodup_map issued.distinct also member id

theorem Good.mounted (good : Good server s) (own : f ∈ s.current) : s.mounted = true := by
  cases mounted : s.mounted with
  | true => rfl
  | false =>
    rw [good.left mounted] at own
    cases own

theorem Good.busy (good : Good server s) (own : f ∈ s.current) : s.inFlight = true ∧ s.current = [f] := by
  have one := good.guarded (good.mounted own)
  have some := List.length_pos_of_mem own
  cases inFlight : s.inFlight with
  | false =>
    rw [inFlight] at one
    exact absurd one (by simp only [Bool.toNat_false]; omega)
  | true =>
    rw [inFlight] at one
    obtain ⟨g,only⟩ := List.length_eq_one_iff.mp one
    rw [only] at own ⊢
    exact ⟨rfl,by rw [List.mem_singleton.mp own]⟩

theorem Good.alone (good : Good server s) (own : f ∈ s.current) : (s.rest f).current = [] := by
  have only := (good.busy own).2
  apply List.filter_eq_nil_iff.mpr
  intro g left run
  obtain ⟨member,other⟩ := List.mem_filter.mp left
  have also : g ∈ s.current := mem_current.mpr ⟨member,of_decide_eq_true run⟩
  rw [only] at also
  simp only [List.mem_singleton.mp also,ne_eq,not_true_eq_false,decide_false] at other
  cases other

theorem good_settled {t : Hook Event} (issued : Issued s) (alone : s.current = []) (flight : t.flight = s.flight)
    (fetches : t.fetches = s.fetches) (run : t.runId = s.runId) (idle : t.inFlight = false)
    (held : ∃ trail, Held server t trail) : Good server t := by
  have alone : t.current = [] := by
    unfold Hook.current at alone ⊢
    rw [flight,run,alone]
  obtain ⟨distinct,fresh,known⟩ := issued
  rw [← flight] at distinct fresh known
  rw [← fetches] at fresh
  rw [← run] at known
  refine ⟨⟨distinct,fresh,known⟩,?_,fun _ => alone,?_,held⟩
  · intro _
    rw [alone,idle]
    rfl
  · intro g own
    rw [alone] at own
    cases own

-- A page of the current author is put behind those before it, and the first page in the place of all.
theorem Held.page {trail : List (Option Cursor × EventsPage Event)} (held : Held server s trail) {page : EventsPage Event}
    (on : s.after = none ∨ s.hasMoreRef = true) (served : page = server s.hex s.after) {t : Hook Event} (hex : t.hex = s.hex)
    (after : t.after = page.endCursor) (events : t.events = if s.after = none then page.events else s.events ++ page.events)
    (more : t.hasMoreRef = page.hasMore) : ∃ trail, Held server t trail := by
  by_cases first : s.after = none
  · rw [if_pos first] at events
    rw [first] at served
    refine ⟨[(none,page)],⟨rfl,trivial⟩,?_,after.symm,?_,?_,?_⟩
    · intro fetched member
      rw [List.mem_singleton.mp member,hex,served]
    · simp [events]
    · intro k below
      cases below with
      | step below => cases below
    · intro hasMore k last
      cases last
      rw [hex,← hasMore,more,served]
      rfl
  · rw [if_neg first] at events
    have tip := (trail_cursors held.linked held.pages).2
    rw [held.tip] at tip
    have next : server s.hex (cursorAt server s.hex trail.length) = page := by
      rw [served,tip]
    refine ⟨trail ++ [(s.after,page)],Trail.linked_concat.mpr ⟨held.linked,held.tip.symm⟩,?_,?_,?_,?_,?_⟩
    · intro fetched member
      rw [hex]
      cases List.mem_append.mp member with
      | inl old => exact held.pages fetched old
      | inr new => rw [List.mem_singleton.mp new,served]
    · rw [Trail.tip_concat,after]
    · simp [events,held.events]
    · rw [hex]
      intro k below
      rw [List.length_append,List.length_singleton] at below
      rcases Nat.lt_succ_iff_lt_or_eq.mp below with old | last
      · exact held.followed k old
      · rw [last,← tip]
        exact ⟨held.more (on.resolve_left first) k last,first⟩
    · intro hasMore k last
      rw [List.length_append,List.length_singleton] at last
      rw [hex,Nat.succ_injective last,next,← hasMore,more]

theorem Good.answered (good : Good server s) (own : f ∈ s.current) {result : Awaited (EventsPage Event)}
    (served : ∀ page ∈ delivered result, page = server f.hex f.cursor) : Good server ((s.rest f).resume f result) := by
  have issued := good.issued.rest f
  have alone := good.alone own
  have mounted := good.mounted own
  have run := (mem_current.mp own).2
  obtain ⟨hex,cursor,on⟩ := good.asked f own
  rw [hex,cursor] at served
  obtain ⟨trail,held⟩ := good.held
  have ours : ¬ f.myRun ≠ (s.rest f).runId := not_not.mpr run
  unfold Hook.resume
  rw [if_neg ours]
  cases result with
  | THREW => exact good_settled issued alone rfl rfl rfl rfl ⟨trail,held.same rfl rfl rfl id⟩
  | response response =>
    dsimp only
    cases verdict : response.classify with
    | some apiError =>
      dsimp only
      split
      · split
        · exact good_settled issued alone rfl rfl rfl rfl ⟨trail,held.same rfl rfl rfl fun none => by cases none⟩
        · rw [hex,run]
          exact good_fetchPage ⟨issued.distinct,issued.fresh,issued.known⟩ mounted rfl alone (.inl rfl) (held_nothing rfl rfl)
      · exact good_settled issued alone rfl rfl rfl rfl ⟨trail,held.same rfl rfl rfl id⟩
    | none =>
      dsimp only
      cases data : response.data with
      | none => exact good_settled issued alone rfl rfl rfl rfl ⟨trail,held.same rfl rfl rfl id⟩
      | some page =>
        have right : page = server s.hex s.after := by
          apply served
          simp [delivered,verdict,data]
        apply good_settled issued alone
        · rfl
        · rfl
        · rfl
        · rfl
        · apply held.page on right
          · rfl
          · rfl
          · rw [cursor]
            rfl
          · rfl

-- What a late reply to an earlier author comes to.
theorem resume_late (other : f.myRun ≠ s.runId) (result : Awaited (EventsPage Event)) :
    (s.rest f).resume f result = { s.rest f with inFlight := false } := if_pos other

theorem current_late (issued : Issued s) (member : f ∈ s.flight) (other : f.myRun ≠ s.runId) : (s.rest f).current = s.current := by
  unfold Hook.current Hook.rest
  rw [List.filter_filter]
  apply List.filter_congr
  intro g also
  by_cases run : g.myRun = s.runId
  · have apart : g.id ≠ f.id := by
      intro same
      rw [issued.same member also same] at run
      exact other run
    simp [run,apart]
  · simp [run]

theorem Good.late (good : Good server s) (member : f ∈ s.flight) (other : f.myRun ≠ s.runId)
    (quiet : s.mounted = false ∨ ∀ g ∈ s.flight, g.myRun ≠ s.runId) (result : Awaited (EventsPage Event)) :
    Good server ((s.rest f).resume f result) := by
  have none : s.current = [] := by
    cases quiet with
    | inl left => exact good.left left
    | inr idle =>
      apply List.filter_eq_nil_iff.mpr
      intro g also
      simpa using idle g also
  have issued := good.issued.rest f
  obtain ⟨trail,held⟩ := good.held
  rw [resume_late other result]
  exact good_settled issued ((current_late good.issued member other).trans none) rfl rfl rfl rfl ⟨trail,held.same rfl rfl rfl id⟩

theorem find_fetch {id : Nat} (found : s.flight.find? (·.id = id) = some f) : f ∈ s.flight ∧ f.id = id :=
  ⟨List.mem_of_find?_eq_some found,by simpa using List.find?_some found⟩

theorem Good.step {action : Action Event} {next : Hook Event} (good : Good server s) (allowed : calm server s action)
    (moved : AuthorWindow.step s action = some next) : Good server next := by
  cases action with
  | author hex =>
    obtain ⟨mounted,same⟩ := Option.ite_none_right_eq_some.mp moved
    cases same
    exact good.author mounted hex
  | loadMore =>
    obtain ⟨mounted,same⟩ := Option.ite_none_right_eq_some.mp moved
    cases same
    exact good.loadMore mounted
  | unmount =>
    obtain ⟨_,same⟩ := Option.ite_none_right_eq_some.mp moved
    cases same
    exact good.unmount
  | reply id result =>
    obtain ⟨f,found,rfl⟩ := Option.map_eq_some_iff.mp moved
    obtain ⟨member,_⟩ := find_fetch found
    obtain ⟨served,quiet⟩ := allowed
    cases quiet f found with
    | inl run => exact good.answered (mem_current.mpr ⟨member,run⟩) (served f found)
    | inr quiet =>
      by_cases run : f.myRun = s.runId
      · exact good.answered (mem_current.mpr ⟨member,run⟩) (served f found)
      · exact good.late member run quiet result

theorem reached_good {hex : Hex} (path : Machine.Reached AuthorWindow.step (calm server) (mount hex) s) : Good server s :=
  path.invariant (Good server) (good_mount hex) Good.step

-- A second restart would need a cursor, and a cursor comes with a page.
structure Sparing (s : Hook Event) : Prop where
  apart : s.marks.IsChain fun a b => ¬ (a = .restart ∧ b = .restart)
  spent : s.marks.getLast? = some .restart → s.cursorRetry = 1 ∨ (s.after = none ∧ ∀ f ∈ s.current, f.cursor = none)
  known : ∀ f ∈ s.flight, f.myRun ≤ s.runId

-- As long as the guard stands as it stood, and what is in flight for its run asks from where it stands.
theorem Sparing.still (sparing : Sparing s) {next : Hook Event} (marks : next.marks = s.marks) (retry : next.cursorRetry = s.cursorRetry)
    (after : next.after = s.after) (asks : ∀ f ∈ next.current, f ∈ s.current ∨ f.cursor = s.after)
    (restarted : next.marks.getLast? = some .restart) :
    next.cursorRetry = 1 ∨ (next.after = none ∧ ∀ f ∈ next.current, f.cursor = none) := by
  rw [marks] at restarted
  rw [retry,after]
  apply (sparing.spent restarted).imp_right
  intro reset
  refine ⟨reset.1,?_⟩
  intro f own
  rcases asks f own with old | here
  · exact reset.2 f old
  · exact here.trans reset.1

theorem Sparing.fetchPage (sparing : Sparing s) (hex : Hex) {cursor : Option Cursor} (next : cursor = s.after) :
    Sparing (s.fetchPage hex cursor s.runId) := by
  unfold Hook.fetchPage
  split
  · exact sparing
  · refine ⟨sparing.apart,?_,?_⟩
    · intro restarted
      refine sparing.still rfl rfl rfl ?_ restarted
      intro f own
      obtain ⟨member,run⟩ := mem_current.mp own
      cases List.mem_append.mp member with
      | inl old => exact .inl (mem_current.mpr ⟨old,run⟩)
      | inr new => rw [List.mem_singleton.mp new]; exact .inr next
    · intro f member
      cases List.mem_append.mp member with
      | inl old => exact sparing.known f old
      | inr new => rw [List.mem_singleton.mp new]

theorem Sparing.effect (apart : s.marks.IsChain fun a b => ¬ (a = .restart ∧ b = .restart)) (known : ∀ f ∈ s.flight, f.myRun ≤ s.runId) :
    Sparing s.effect := by
  apply Sparing.fetchPage
  · refine ⟨apart,?_,?_⟩
    · intro _
      refine .inr ⟨rfl,?_⟩
      intro f own
      obtain ⟨member,run⟩ := mem_current.mp own
      have old := known f member
      dsimp only at run
      omega
    · intro f member
      exact Nat.le_succ_of_le (known f member)
  · rfl

-- Fewer fetches, and the same refs.
theorem Sparing.frame (sparing : Sparing s) {t : Hook Event} (marks : t.marks = s.marks) (retry : t.cursorRetry = s.cursorRetry)
    (after : t.after = s.after) (run : t.runId = s.runId) (flight : ∀ f ∈ t.flight, f ∈ s.flight) : Sparing t := by
  refine ⟨marks ▸ sparing.apart,?_,?_⟩
  · intro restarted
    rw [marks] at restarted
    rw [retry,after]
    cases sparing.spent restarted with
    | inl once => exact .inl once
    | inr reset =>
      refine .inr ⟨reset.1,?_⟩
      intro f own
      obtain ⟨member,same⟩ := mem_current.mp own
      exact reset.2 f (mem_current.mpr ⟨flight f member,same.trans run⟩)
  · intro f member
    rw [run]
    exact sparing.known f (flight f member)

theorem Sparing.resume (sparing : Sparing s) (member : f ∈ s.flight) (result : Awaited (EventsPage Event)) :
    Sparing ((s.rest f).resume f result) := by
  have fewer : ∀ g ∈ (s.rest f).flight, g ∈ s.flight := by
    intro g left
    exact List.mem_of_mem_filter left
  unfold Hook.resume
  split
  · exact sparing.frame rfl rfl rfl rfl fewer
  · rename_i current
    have run : f.myRun = s.runId := not_not.mp current
    cases result with
    | THREW => exact sparing.frame rfl rfl rfl rfl fewer
    | response response =>
      dsimp only
      cases response.classify with
      | some apiError =>
        dsimp only
        split
        · split
          · exact sparing.frame rfl rfl rfl rfl fewer
          · rename_i again
            obtain ⟨some,unspent⟩ := not_or.mp again
            have fresh : s.marks.getLast? ≠ Option.some .restart := by
              intro restarted
              cases sparing.spent restarted with
              | inl once => exact unspent once.ge
              | inr reset => exact some (reset.2 f (mem_current.mpr ⟨member,run⟩))
            rw [run]
            apply Sparing.fetchPage
            · refine ⟨?_,?_,?_⟩
              · apply List.isChain_append.mpr
                refine ⟨sparing.apart,List.isChain_singleton _,?_⟩
                intro last held _ _ both
                rw [both.1] at held
                exact fresh held
              · intro _
                have none : (s.rest f).cursorRetry = 0 := by omega
                exact .inl (congrArg (· + 1) none)
              · intro g left
                exact sparing.known g (fewer g left)
            · rfl
        · exact sparing.frame rfl rfl rfl rfl fewer
      | none =>
        dsimp only
        cases response.data with
        | none => exact sparing.frame rfl rfl rfl rfl fewer
        | some page =>
          refine ⟨?_,?_,?_⟩
          · apply List.isChain_append.mpr
            refine ⟨sparing.apart,List.isChain_singleton _,?_⟩
            intro _ _ next held both
            rw [both.2] at held
            cases held
          · intro restarted
            rw [List.getLast?_concat] at restarted
            cases restarted
          · intro g left
            exact sparing.known g (fewer g left)

def anything (_ : Hook Event) (_ : Action Event) : Prop := True

instance (s : Hook Event) (action : Action Event) : Decidable (anything s action) := inferInstanceAs (Decidable True)

theorem Sparing.step {action : Action Event} {next : Hook Event} (sparing : Sparing s) (_ : anything s action)
    (moved : AuthorWindow.step s action = some next) : Sparing next := by
  cases action with
  | author hex =>
    obtain ⟨_,same⟩ := Option.ite_none_right_eq_some.mp moved
    cases same
    apply Sparing.effect
    · exact sparing.apart
    · intro f member
      exact Nat.le_succ_of_le (sparing.known f member)
  | loadMore =>
    obtain ⟨_,same⟩ := Option.ite_none_right_eq_some.mp moved
    cases same
    unfold Hook.loadMore
    split
    · exact sparing
    · exact sparing.fetchPage s.hex rfl
  | unmount =>
    obtain ⟨_,same⟩ := Option.ite_none_right_eq_some.mp moved
    cases same
    refine ⟨sparing.apart,?_,?_⟩
    · intro restarted
      refine sparing.still rfl rfl rfl ?_ restarted
      intro f own
      obtain ⟨member,run⟩ := mem_current.mp own
      have old := sparing.known f member
      have later : f.myRun = s.runId + 1 := run
      omega
    · intro f member
      exact Nat.le_succ_of_le (sparing.known f member)
  | reply id result =>
    obtain ⟨f,found,rfl⟩ := Option.map_eq_some_iff.mp moved
    exact sparing.resume (find_fetch found).1 result

theorem reached_sparing {hex : Hex} (path : Machine.Reached AuthorWindow.step anything (mount hex) s) : Sparing s := by
  apply path.invariant Sparing _ Sparing.step
  apply Sparing.effect List.isChain_nil
  intro f none
  cases none

theorem find_own (issued : Issued s) (member : f ∈ s.flight) : s.flight.find? (·.id = f.id) = some f := by
  obtain ⟨g,found⟩ := Option.isSome_iff_exists.mp
    (List.find?_isSome.mpr ⟨f,member,decide_eq_true rfl⟩ : (s.flight.find? (·.id = f.id)).isSome)
  obtain ⟨also,same⟩ := find_fetch found
  rw [found,issued.same member also same]

-- A reply to an earlier author leaves the guard as it was exactly where it comes in time.
theorem Good.late_iff (good : Good server s) (mounted : s.mounted = true) (member : f ∈ s.flight) (other : f.myRun ≠ s.runId)
    (result : Awaited (EventsPage Event)) : (s.rest f).resume f result = s.rest f ↔ timely s (.reply f.id result) := by
  have found := find_own good.issued member
  have guarded := good.guarded mounted
  rw [resume_late other]
  constructor
  · intro same g held
    cases found.symm.trans held
    have idle : s.inFlight = false := (congrArg Hook.inFlight same).symm
    rw [idle] at guarded
    refine .inr (.inr ?_)
    intro h also run
    have own : h ∈ s.current := mem_current.mpr ⟨also,run⟩
    rw [List.eq_nil_of_length_eq_zero guarded] at own
    cases own
  · intro quiet
    have idle := ((quiet f found).resolve_left other).resolve_left (by simp [mounted])
    have none : s.current = [] := by
      apply List.filter_eq_nil_iff.mpr
      intro g also
      simpa using idle g also
    rw [none] at guarded
    have free : s.inFlight = false := by
      cases held : s.inFlight with
      | false => rfl
      | true =>
        rw [held] at guarded
        cases guarded
    unfold Hook.rest
    rw [← free]

-- Where no reply to an earlier author comes while a page is awaited, and the server's cursors do not come back, the window holds each page
-- once; only the second is for the server to keep.
theorem window_walked (server : Hex → Option Cursor → EventsPage Event) (hex : Hex) :
    (∀ s, Machine.Reached step (calm server) (mount hex) s →
      (Unrepeating server → ∃ trail, Shown server s trail) ∧ s.current.length ≤ 1 ∧
      ∀ f ∈ s.flight, s.mounted = true → f.myRun ≠ s.runId → ∀ result,
        ∃ next, step s (.reply f.id result) = some next ∧ (next = s.rest f ↔ timely s (.reply f.id result))) ∧
    ∀ s : Hook Event, Machine.Reached step anything (mount hex) s → s.marks.IsChain fun a b => ¬ (a = .restart ∧ b = .restart) := by
  refine ⟨?_,fun s path => (reached_sparing path).apart⟩
  intro s path
  have good := reached_good path
  refine ⟨?_,?_,?_⟩
  · intro unrepeating
    obtain ⟨trail,held⟩ := good.held
    exact ⟨trail,held.shown unrepeating⟩
  · cases mounted : s.mounted with
    | false => simp [good.left mounted]
    | true => exact good.guarded mounted ▸ Bool.toNat_le s.inFlight
  · intro f member mounted other result
    refine ⟨(s.rest f).resume f result,?_,good.late_iff mounted member other result⟩
    exact congrArg (Option.map fun f => (s.rest f).resume f result) (find_own good.issued member)

def booklet (hex : Hex) : Option Cursor → EventsPage Nat
  | none => ⟨[hex.length,1],some [120],true⟩
  | some _ => ⟨[2],none,false⟩

def delivers (page : EventsPage Nat) : Awaited (EventsPage Nat) := .response ⟨none,some page⟩

theorem booklet_unrepeating : Unrepeating booklet := by
  intro hex n followed
  have short : n ≤ 2 := by
    by_contra long
    have more := (followed 1 (by omega)).1
    cases more
  interval_cases n
  · exact List.nodup_nil
  · exact List.nodup_singleton _
  · change [none,some [120]].Nodup
    decide

-- A reply to the author before comes late, but between two pages.
theorem window_walked_late : ∃ s, Machine.Reached step (calm booklet) (mount [97]) s ∧ s.events = [2,1,2] ∧ (∃ trail, Shown booklet s trail) ∧
    s.current.length ≤ 1 := by
  obtain ⟨s,path,checked⟩ := Machine.replay_final step (calm booklet) (mount [97])
    [.author [98,98],.reply 1 (delivers (booklet [98,98] none)),.reply 0 .THREW,.loadMore,.reply 2 (delivers (booklet [98,98] (some [120])))]
    (fun s => decide (s.events = [2,1,2])) (by decide +kernel) (by decide +kernel)
  obtain ⟨shown,one,_⟩ := (window_walked booklet [97]).1 s path
  exact ⟨s,path,of_decide_eq_true checked,shown booklet_unrepeating,one⟩

-- A page that ends where it began.
def circling (_ : Hex) : Option Cursor → EventsPage Nat
  | none => ⟨[1],some [120],true⟩
  | some _ => ⟨[2],some [120],true⟩

theorem circling_cursor (hex : Hex) (n : Nat) : cursorAt circling hex n ∈ [none,some [120]] := by
  cases n with
  | zero => exact List.mem_cons_self
  | succ n =>
    unfold cursorAt
    cases cursorAt circling hex n with
    | none => exact List.mem_cons_of_mem _ List.mem_cons_self
    | some cursor => exact List.mem_cons_of_mem _ List.mem_cons_self

-- There are two pages.
theorem circling_short {hex : Hex} {trail : List (Option Cursor × EventsPage Nat)} (walked : Walked circling hex trail) :
    (trail.flatMap (·.2.events)).length ≤ 2 := by
  have single : ∀ fetched ∈ trail, fetched.2.events.length = 1 := by
    intro fetched member
    rw [walked.pages fetched member]
    cases fetched.1 <;> rfl
  have known : trail.map (·.1) ⊆ [none,some [120]] := by
    rw [(trail_cursors walked.linked walked.pages).1]
    intro cursor member
    obtain ⟨n,_,rfl⟩ := List.mem_map.mp member
    exact circling_cursor hex n
  have few := (List.subperm_of_subset walked.once known).length_le
  rw [List.length_flatMap,List.map_congr_left single,List.map_const',List.sum_replicate]
  simpa using few

-- The late reply comes while the second page is awaited, and the page is asked for again. A server that circles fills the window with one
-- page over and over.
theorem window_walked_fails : (¬ ∀ s, Machine.Reached step (serves booklet) (mount [97]) s → s.current.length ≤ 1) ∧
    ¬ ∀ s, Machine.Reached step (calm circling) (mount [97]) s → ∃ trail, Shown circling s trail := by
  constructor
  · intro claimed
    obtain ⟨s,path,checked⟩ := Machine.replay_final step (serves booklet) (mount [97])
      [.author [98,98],.reply 1 (delivers (booklet [98,98] none)),.loadMore,.reply 0 .THREW,.loadMore]
      (fun s => decide (s.current.length = 2)) (by decide +kernel) (by decide +kernel)
    have two := of_decide_eq_true checked
    have one := claimed s path
    omega
  · intro claimed
    obtain ⟨s,path,checked⟩ := Machine.replay_final step (calm circling) (mount [97])
      [.reply 0 (delivers (circling [97] none)),.loadMore,.reply 1 (delivers (circling [97] (some [120]))),.loadMore,
        .reply 2 (delivers (circling [97] (some [120])))]
      (fun s => decide (s.events = [1,2,2])) (by decide +kernel) (by decide +kernel)
    obtain ⟨trail,shown⟩ := claimed s path
    have short := circling_short shown.walked
    rw [← shown.events,of_decide_eq_true checked] at short
    exact absurd short (by decide)

end DeepFry.GraphQLExplorer.AuthorWindow
