import DeepFry.GraphQLExplorer.Transport
import DeepFry.Lib.Machine

namespace DeepFry.GraphQLExplorer.Poll

def POLL_INTERVAL_MS : Nat := 5000

structure Stats where
  eventCount : Nat
  maxLevId : Nat
  dbVersion : Nat
  pinnedStrfryVersion : Str
deriving DecidableEq

def shouldNudge (lastLevId : Option Nat) (nextLevId : Nat) : Bool := lastLevId.any (· < nextLevId)

-- What the hook shows.
structure View where
  stats : Option Stats
  error : Option ApiError
  loading : Bool
  hasNewData : Bool
  isPaused : Bool
deriving DecidableEq

-- A timeout that has not fired yet.
structure Timer where
  handle : Nat
  delay : Nat
deriving DecidableEq

-- The states and refs of the hook, the variables of its effect, and what the browser holds for it.
structure Hook where
  view : View
  lastLevId : Option Nat
  timer : Option Nat
  cancelled : Bool
  hidden : Bool
  armed : List Timer
  handles : Nat
  flight : List Nat
  requests : Nat

inductive Action where
  | fire (handle : Nat)
  | reply (request : Nat) (result : Awaited Stats)
  | visibility (hidden : Bool)
  | refresh
  | acknowledge
  | unmount

def Hook.schedule (intervalMs : Nat) (s : Hook) : Hook :=
  if s.cancelled then s
  else { s with armed := s.armed ++ [⟨s.handles,intervalMs⟩], timer := some s.handles, handles := s.handles + 1 }

def Hook.clearTimeout (s : Hook) : Hook := { s with armed := s.armed.filter fun t => decide (s.timer ≠ some t.handle) }

-- tick, up to the await.
def Hook.tick (intervalMs : Nat) (s : Hook) : Hook :=
  if s.cancelled then s
  else if s.hidden then { s with view := { s.view with isPaused := true } }.schedule intervalMs
  else { s with view := { s.view with isPaused := false }, flight := s.flight ++ [s.requests], requests := s.requests + 1 }

-- tick, from the await on.
def Hook.resume (intervalMs : Nat) (s : Hook) (result : Awaited Stats) : Hook :=
  if s.cancelled then s
  else match result with
    | .THREW => { s with view := { s.view with error := some network, loading := false } }.schedule intervalMs
    | .response response => match response.classify with
      | some apiError => { s with view := { s.view with error := some apiError, loading := false } }.schedule intervalMs
      | none => match response.data with
        | none => { s with view := { s.view with loading := false } }.schedule intervalMs
        | some stats =>
          { s with
            lastLevId := some stats.maxLevId
            view := { s.view with
              hasNewData := s.view.hasNewData || shouldNudge s.lastLevId stats.maxLevId
              stats := some stats
              error := none
              loading := false } }.schedule intervalMs

def Hook.tickRef (intervalMs : Nat) (s : Hook) : Hook := if s.cancelled then s else s.clearTimeout.tick intervalMs

def Hook.onVisibility (intervalMs : Nat) (s : Hook) : Hook :=
  if s.hidden then { s with view := { s.view with isPaused := true } }
  else { s with view := { s.view with isPaused := false } }.clearTimeout.tick intervalMs

def Hook.refresh (intervalMs : Nat) (s : Hook) : Hook :=
  { s with view := { s.view with hasNewData := false } }.tickRef intervalMs

def mount (intervalMs : Nat) (hidden : Bool) : Hook :=
  Hook.tick intervalMs ⟨⟨none,none,true,false,hidden⟩,none,none,false,hidden,[],0,[],0⟩

-- With the effect its listener goes, and what the hook returned is called no more.
def step (intervalMs : Nat) (s : Hook) : Action → Option Hook
  | .fire handle =>
    if handle ∈ s.armed.map (·.handle) then
      some ({ s with armed := s.armed.filter fun t => decide (t.handle ≠ handle) }.tick intervalMs)
    else none
  | .reply request result =>
    if request ∈ s.flight then
      some ({ s with flight := s.flight.filter fun r => decide (r ≠ request) }.resume intervalMs result)
    else none
  | .visibility hidden =>
    if hidden = s.hidden then none
    else if s.cancelled then some { s with hidden := hidden }
    else some ({ s with hidden := hidden }.onVisibility intervalMs)
  | .refresh => if s.cancelled then none else some (s.refresh intervalMs)
  | .acknowledge => if s.cancelled then none else some { s with view := { s.view with hasNewData := false } }
  | .unmount => if s.cancelled then none else some { s with cancelled := true }.clearTimeout

def anything (_ : Hook) (_ : Action) : Prop := True

instance (s : Hook) (action : Action) : Decidable (anything s action) := inferInstanceAs (Decidable True)

-- A refresh, or a return to the tab, with no request in flight.
def calm (s : Hook) : Action → Prop
  | .refresh | .visibility false => s.cancelled = true ∨ s.flight = []
  | _ => True

instance (s : Hook) : (action : Action) → Decidable (calm s action)
  | .refresh | .visibility false => inferInstanceAs (Decidable (_ ∨ _))
  | .visibility true | .fire _ | .reply _ _ | .acknowledge | .unmount => inferInstanceAs (Decidable True)

variable {intervalMs : Nat} {s : Hook}

-- The polls that are under way: requests in flight and timers armed.
def Hook.pending (s : Hook) : Nat := s.flight.length + s.armed.length

structure Single (intervalMs : Nat) (s : Hook) : Prop where
  chain : s.cancelled = false → s.pending = 1
  left : s.cancelled = true → s.armed = [] ∧ s.flight.length ≤ 1
  latest : ∀ t ∈ s.armed, s.timer = some t.handle ∧ t.delay = intervalMs

-- A poll ends, and the next is on its way.
theorem schedule_single (idle : s.flight = [] ∧ s.armed = []) (mounted : s.cancelled = false) :
    Single intervalMs (s.schedule intervalMs) := by
  unfold Hook.schedule
  rw [if_neg (Bool.eq_false_iff.mp mounted)]
  refine ⟨?_,?_,?_⟩
  · intro _
    simp [Hook.pending,idle]
  · intro cancelled
    cases mounted.symm.trans cancelled
  · intro t member
    rw [idle.2] at member
    rw [List.mem_singleton.mp member]
    exact ⟨rfl,rfl⟩

theorem tick_single (idle : s.flight = [] ∧ s.armed = []) (mounted : s.cancelled = false) : Single intervalMs (s.tick intervalMs) := by
  unfold Hook.tick
  rw [if_neg (Bool.eq_false_iff.mp mounted)]
  split
  · exact schedule_single idle mounted
  · refine ⟨?_,?_,?_⟩
    · intro _
      simp [Hook.pending,idle]
    · intro cancelled
      cases mounted.symm.trans cancelled
    · intro t member
      rw [idle.2] at member
      cases member

theorem resume_single (idle : s.flight = [] ∧ s.armed = []) (mounted : s.cancelled = false) (result : Awaited Stats) :
    Single intervalMs (s.resume intervalMs result) := by
  unfold Hook.resume
  rw [if_neg (Bool.eq_false_iff.mp mounted)]
  split
  · exact schedule_single idle mounted
  · split
    · exact schedule_single idle mounted
    · split
      · exact schedule_single idle mounted
      · exact schedule_single idle mounted

-- What the last handle stands for is all that is armed.
theorem Single.cleared (single : Single intervalMs s) : s.clearTimeout.armed = [] := by
  apply List.filter_eq_nil_iff.mpr
  intro t member
  simpa using (single.latest t member).1

theorem Single.mount (intervalMs : Nat) (hidden : Bool) : Single intervalMs (mount intervalMs hidden) :=
  tick_single ⟨rfl,rfl⟩ rfl

-- One poll: with no request in flight it is a timer, and with no timer a request.
theorem Single.timer (single : Single intervalMs s) (mounted : s.cancelled = false) (some : s.armed ≠ []) :
    s.flight = [] ∧ s.armed.length = 1 := by
  have chain := single.chain mounted
  have armed := List.length_pos_iff.mpr some
  unfold Hook.pending at chain
  exact ⟨List.eq_nil_of_length_eq_zero (by omega),by omega⟩

theorem Single.request (single : Single intervalMs s) (some : s.flight ≠ []) : s.flight.length = 1 ∧ s.armed = [] := by
  have flight := List.length_pos_iff.mpr some
  cases mounted : s.cancelled with
  | false =>
    have chain := single.chain mounted
    unfold Hook.pending at chain
    exact ⟨by omega,List.eq_nil_of_length_eq_zero (by omega)⟩
  | true =>
    obtain ⟨armed,few⟩ := single.left mounted
    exact ⟨by omega,armed⟩

theorem filter_only {α β : Type} [DecidableEq β] {f : α → β} {xs : List α} {b : β} (one : xs.length = 1) (member : b ∈ xs.map f) :
    (xs.filter fun x => decide (f x ≠ b)) = [] := by
  obtain ⟨x,rfl⟩ := List.length_eq_one_iff.mp one
  simp only [List.map_singleton,List.mem_singleton] at member
  simp [member]

theorem Single.frame (single : Single intervalMs s) (view : View) : Single intervalMs { s with view := view } :=
  ⟨single.chain,single.left,single.latest⟩

theorem Single.fire (single : Single intervalMs s) {handle : Nat} (member : handle ∈ s.armed.map (·.handle)) :
    Single intervalMs ({ s with armed := s.armed.filter fun t => decide (t.handle ≠ handle) }.tick intervalMs) := by
  have some : s.armed ≠ [] := by
    intro none
    rw [none] at member
    cases member
  by_cases left : s.cancelled = true
  · exact absurd (single.left left).1 some
  · have mounted := Bool.eq_false_iff.mpr left
    obtain ⟨flight,armed⟩ := single.timer mounted some
    apply tick_single
    · exact ⟨flight,filter_only armed member⟩
    · exact mounted

theorem Single.reply (single : Single intervalMs s) {request : Nat} (member : request ∈ s.flight) (result : Awaited Stats) :
    Single intervalMs ({ s with flight := s.flight.filter fun r => decide (r ≠ request) }.resume intervalMs result) := by
  obtain ⟨flight,armed⟩ := single.request (List.ne_nil_of_mem member)
  have done : (s.flight.filter fun r => decide (r ≠ request)) = [] := filter_only (f := id) flight (by simpa using member)
  rw [done]
  by_cases left : s.cancelled = true
  · unfold Hook.resume
    rw [if_pos left]
    refine ⟨?_,fun _ => ⟨armed,Nat.zero_le 1⟩,single.latest⟩
    intro still
    cases still.symm.trans left
  · apply resume_single
    · exact ⟨rfl,armed⟩
    · exact Bool.eq_false_iff.mpr left

-- A poll out of turn replaces the timer, where one is armed.
theorem Single.early (single : Single intervalMs s) (mounted : s.cancelled = false) (idle : s.flight = []) :
    Single intervalMs (s.clearTimeout.tick intervalMs) := tick_single ⟨idle,single.cleared⟩ mounted

theorem Single.step {action : Action} {next : Hook} (single : Single intervalMs s) (allowed : calm s action)
    (moved : Poll.step intervalMs s action = some next) : Single intervalMs next := by
  cases action with
  | fire handle =>
    obtain ⟨member,same⟩ := Option.ite_none_right_eq_some.mp moved
    cases same
    exact single.fire member
  | reply request result =>
    obtain ⟨member,same⟩ := Option.ite_none_right_eq_some.mp moved
    cases same
    exact single.reply member result
  | visibility hidden =>
    obtain ⟨changed,moved⟩ := Option.ite_none_left_eq_some.mp moved
    split at moved
    · cases moved
      exact ⟨single.chain,single.left,single.latest⟩
    · rename_i live
      have mounted := Bool.eq_false_iff.mpr live
      cases moved
      unfold Hook.onVisibility
      cases hidden with
      | true => exact ⟨single.chain,single.left,single.latest⟩
      | false =>
        have idle := allowed.resolve_left live
        have seen : Single intervalMs { s with hidden := false, view := { s.view with isPaused := false } } :=
          ⟨single.chain,single.left,single.latest⟩
        exact seen.early mounted idle
  | refresh =>
    obtain ⟨live,same⟩ := Option.ite_none_left_eq_some.mp moved
    cases same
    have idle := allowed.resolve_left live
    have mounted := Bool.eq_false_iff.mpr live
    unfold Hook.refresh Hook.tickRef
    rw [if_neg live]
    exact (single.frame _).early mounted idle
  | acknowledge =>
    obtain ⟨_,same⟩ := Option.ite_none_left_eq_some.mp moved
    cases same
    exact single.frame _
  | unmount =>
    obtain ⟨live,same⟩ := Option.ite_none_left_eq_some.mp moved
    cases same
    have chain := single.chain (Bool.eq_false_iff.mpr live)
    have cleared := single.cleared
    refine ⟨?_,?_,?_⟩
    · intro still
      cases still
    · intro _
      refine ⟨cleared,?_⟩
      unfold Hook.pending at chain
      exact (by omega : s.flight.length ≤ 1)
    · intro t member
      exact single.latest t (List.mem_of_mem_filter member)

theorem schedule_pending (mounted : s.cancelled = false) : (s.schedule intervalMs).pending = s.pending + 1 := by
  unfold Hook.schedule
  rw [if_neg (Bool.eq_false_iff.mp mounted)]
  simp [Hook.pending,Nat.add_assoc]

-- A tick adds a request or a timer, whatever is under way.
theorem tick_pending (mounted : s.cancelled = false) : (s.tick intervalMs).pending = s.pending + 1 := by
  unfold Hook.tick
  rw [if_neg (Bool.eq_false_iff.mp mounted)]
  split
  · exact schedule_pending mounted
  · simp [Hook.pending,Nat.add_right_comm]

theorem Single.doubled (single : Single intervalMs s) (mounted : s.cancelled = false) (busy : s.flight ≠ []) :
    (s.clearTimeout.tick intervalMs).pending = 2 := by
  obtain ⟨flight,_⟩ := single.request busy
  have live : s.clearTimeout.cancelled = false := mounted
  rw [tick_pending live]
  unfold Hook.pending
  rw [single.cleared]
  exact congrArg (· + 1) flight

theorem Single.rushed {action : Action} {next : Hook} (single : Single intervalMs s) (rushed : ¬ calm s action)
    (moved : Poll.step intervalMs s action = some next) : next.pending = 2 := by
  cases action with
  | fire handle => exact absurd trivial rushed
  | reply request result => exact absurd trivial rushed
  | acknowledge => exact absurd trivial rushed
  | unmount => exact absurd trivial rushed
  | refresh =>
    obtain ⟨live,busy⟩ := not_or.mp rushed
    obtain ⟨_,same⟩ := Option.ite_none_left_eq_some.mp moved
    cases same
    unfold Hook.refresh Hook.tickRef
    rw [if_neg live]
    exact (single.frame _).doubled (Bool.eq_false_iff.mpr live) busy
  | visibility hidden =>
    cases hidden with
    | true => exact absurd trivial rushed
    | false =>
      obtain ⟨live,busy⟩ := not_or.mp rushed
      obtain ⟨_,moved⟩ := Option.ite_none_left_eq_some.mp moved
      rw [if_neg live] at moved
      cases moved
      have seen : Single intervalMs { s with hidden := false, view := { s.view with isPaused := false } } :=
        ⟨single.chain,single.left,single.latest⟩
      exact seen.doubled (Bool.eq_false_iff.mpr live) busy

-- A tick, and what follows an await, do nothing after the unmount.
theorem step_unmounted {action : Action} {next : Hook} (left : s.cancelled = true) (moved : step intervalMs s action = some next) :
    next.cancelled = true ∧ next.requests = s.requests ∧ next.view = s.view := by
  cases action with
  | fire handle =>
    obtain ⟨_,same⟩ := Option.ite_none_right_eq_some.mp moved
    cases same
    unfold Hook.tick
    rw [if_pos left]
    exact ⟨left,rfl,rfl⟩
  | reply request result =>
    obtain ⟨_,same⟩ := Option.ite_none_right_eq_some.mp moved
    cases same
    unfold Hook.resume
    rw [if_pos left]
    exact ⟨left,rfl,rfl⟩
  | visibility hidden =>
    obtain ⟨_,moved⟩ := Option.ite_none_left_eq_some.mp moved
    rw [if_pos left] at moved
    cases moved
    exact ⟨left,rfl,rfl⟩
  | refresh => exact absurd left (Option.ite_none_left_eq_some.mp moved).1
  | acknowledge => exact absurd left (Option.ite_none_left_eq_some.mp moved).1
  | unmount => exact absurd left (Option.ite_none_left_eq_some.mp moved).1

theorem unmounted_idle {later : Hook} (left : s.cancelled = true) (path : Machine.Reached (step intervalMs) anything s later) :
    later.cancelled = true ∧ later.requests = s.requests ∧ later.view = s.view := by
  induction path with
  | refl => exact ⟨left,rfl,rfl⟩
  | step _ _ moved ih =>
    obtain ⟨cancelled,requests,view⟩ := step_unmounted ih.1 moved
    exact ⟨cancelled,requests.trans ih.2.1,view.trans ih.2.2⟩

theorem reached_single {hidden : Bool} (path : Machine.Reached (step intervalMs) calm (mount intervalMs hidden) s) : Single intervalMs s :=
  path.invariant (Single intervalMs) (Single.mount intervalMs hidden) Single.step

-- Every run until it is first rushed, and every run after the unmount.
theorem polls_single (intervalMs : Nat) (hidden : Bool) :
    (∀ s, Machine.Reached (step intervalMs) calm (mount intervalMs hidden) s →
      s.pending ≤ 1 ∧ (s.cancelled = false → s.pending = 1) ∧ (∀ t ∈ s.armed, t.delay = intervalMs) ∧
      ∀ action next, ¬ calm s action → step intervalMs s action = some next → 1 < next.pending) ∧
    ∀ s later, Machine.Reached (step intervalMs) anything (mount intervalMs hidden) s → s.cancelled = true →
      Machine.Reached (step intervalMs) anything s later → later.requests = s.requests ∧ later.view = s.view := by
  refine ⟨?_,?_⟩
  · intro s path
    have single := reached_single path
    refine ⟨?_,single.chain,fun t member => (single.latest t member).2,?_⟩
    · cases mounted : s.cancelled with
      | false => exact (single.chain mounted).le
      | true =>
        obtain ⟨armed,flight⟩ := single.left mounted
        simpa [Hook.pending,armed] using flight
    · intro action next rushed moved
      have two := single.rushed rushed moved
      omega
  · intro s later _ left path
    exact (unmounted_idle left path).2

-- A refresh in a tab that was hidden meanwhile.
theorem polls_single_hidden : ∃ s, Machine.Reached (step POLL_INTERVAL_MS) calm (mount POLL_INTERVAL_MS false) s ∧
    s.armed = [⟨2,5000⟩] ∧ s.pending = 1 := by
  obtain ⟨s,path,checked⟩ := Machine.replay_final (step POLL_INTERVAL_MS) calm (mount POLL_INTERVAL_MS false)
    [.reply 0 .THREW,.visibility true,.fire 0,.refresh] (fun s => decide (s.cancelled = false ∧ s.armed = [⟨2,5000⟩]))
    (by decide +kernel) (by decide +kernel)
  have shown := of_decide_eq_true checked
  exact ⟨s,path,shown.2,((polls_single POLL_INTERVAL_MS false).1 s path).2.1 shown.1⟩

-- A refresh while the first request is still in flight.
theorem polls_single_fails : ¬ ∀ s, Machine.Reached (step POLL_INTERVAL_MS) anything (mount POLL_INTERVAL_MS false) s → s.pending ≤ 1 := by
  intro claimed
  obtain ⟨s,path,checked⟩ := Machine.replay_final (step POLL_INTERVAL_MS) anything (mount POLL_INTERVAL_MS false)
    [.refresh] (fun s => decide (s.pending = 2)) (by decide +kernel) (by decide +kernel)
  have two := of_decide_eq_true checked
  have one := claimed s path
  omega

end DeepFry.GraphQLExplorer.Poll
