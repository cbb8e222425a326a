import DeepFry.EventForwarder.Forwarder
import DeepFry.Lib.Machine

namespace DeepFry.EventForwarder

-- Every event of the channel gets its publish, and the process lives to update its progress.
def completes (turns : Nat → Turn) : Nat → List (Option Event) → Bool
  | i,[] => turns i != .crashed
  | i,_ :: rest =>
    match turns i with
    | .reply _ => completes turns (i + 1) rest
    | _ => false

def Reply.accepts : Reply → Bool
  | .refused _ => false
  | _ => true

-- The events of the channel that DeepFry accepts, or does not, when they are published.
def repliedWith (accepts : Bool) (turns : Nat → Turn) : Nat → List (Option Event) → List Event
  | _,[] => []
  | i,event :: rest =>
    match event,turns i with
    | some e,.reply r => if r.accepts = accepts then e :: repliedWith accepts turns (i + 1) rest else repliedWith accepts turns (i + 1) rest
    | _,_ => repliedWith accepts turns (i + 1) rest

section Loop
variable {turns : Nat → Turn} {i eventCount : Nat} {channel : List (Option Event)} {accepted : Finset Event} {e : Event}

theorem forwardAll_finished : (forwardAll turns i channel eventCount accepted).1 = .finished ↔ completes turns i channel = true := by
  induction channel generalizing i eventCount accepted with
  | nil =>
    unfold forwardAll completes
    by_cases crash : turns i = .crashed
    · rw [if_pos crash,crash]
      exact ⟨nofun,nofun⟩
    · rw [if_neg crash,bne_iff_ne]
      exact ⟨fun _ => crash,fun _ => rfl⟩
  | cons event rest ih =>
    unfold forwardAll completes
    cases turns i with
    | reply r => exact ih
    | cancelled => exact ⟨nofun,nofun⟩
    | crashed => exact ⟨nofun,nofun⟩

theorem mem_forwardEvent (r : Reply) (event : Option Event) :
    e ∈ (forwardEvent r event accepted).2 ↔ e ∈ accepted ∨ (event = some e ∧ r.accepts = true) := by
  cases event with
  | none => exact ⟨.inl,fun either => either.resolve_right fun both => by cases both.1⟩
  | some f =>
    have inserted : e ∈ insert f accepted ↔ e ∈ accepted ∨ (some f = some e ∧ true = true) := by
      rw [Finset.mem_insert,Option.some.injEq,or_comm]
      exact or_congr Iff.rfl ⟨fun same => ⟨same.symm,rfl⟩,fun same => same.1.symm⟩
    cases r with
    | stored => exact inserted
    | lost _ => exact inserted
    | refused _ => exact ⟨.inl,fun either => either.resolve_right fun both => by cases both.2⟩

theorem mem_forwardAll (complete : completes turns i channel = true) :
    e ∈ (forwardAll turns i channel eventCount accepted).2.2 ↔ e ∈ accepted ∨ e ∈ repliedWith true turns i channel := by
  induction channel generalizing i eventCount accepted with
  | nil => exact ⟨.inl,fun either => either.resolve_right List.not_mem_nil⟩
  | cons event rest ih =>
    unfold forwardAll repliedWith
    unfold completes at complete
    cases turn : turns i with
    | reply r =>
      rw [turn] at complete
      refine (ih complete).trans ((or_congr_left (mem_forwardEvent r event)).trans ?_)
      cases event with
      | none => exact or_congr_left ⟨fun either => either.resolve_right (fun both => nomatch both.1),.inl⟩
      | some f =>
        dsimp only
        by_cases accepts : r.accepts = true
        · rw [if_pos accepts,List.mem_cons,accepts,Option.some.injEq,or_assoc]
          exact or_congr Iff.rfl (or_congr ⟨fun same => same.1.symm,fun same => ⟨same.symm,rfl⟩⟩ Iff.rfl)
        · rw [if_neg accepts]
          exact or_congr_left ⟨fun either => either.resolve_right fun both => accepts both.2,.inl⟩
    | cancelled =>
      rw [turn] at complete
      cases complete
    | crashed =>
      rw [turn] at complete
      cases complete

-- A finished loop has published every event of the channel once.
theorem replied_perm (complete : completes turns i channel = true) :
    (repliedWith true turns i channel ++ repliedWith false turns i channel).Perm (channel.filterMap id) := by
  induction channel generalizing i with
  | nil => exact .refl _
  | cons event rest ih =>
    unfold repliedWith
    unfold completes at complete
    cases turn : turns i with
    | reply r =>
      rw [turn] at complete
      cases event with
      | none => exact ih complete
      | some f =>
        change List.Perm _ (f :: rest.filterMap id)
        dsimp only
        cases r.accepts with
        | true => exact (ih complete).cons f
        | false => exact List.perm_middle.trans ((ih complete).cons f)
    | cancelled =>
      rw [turn] at complete
      cases complete
    | crashed =>
      rw [turn] at complete
      cases complete
end Loop

def Published.Covered (p : Published) : Prop := ∀ e ∈ p.content, p.From ≤ e.createdAt → e.createdAt ≤ p.To → e ∈ p.accepted

def Deployment.Covered (s : Deployment) : Prop := ∀ p ∈ s.published, p.mode = .windowed → p.Covered

-- The window holds more events than the request asks for.
def Filter.overflows (f : Filter) (source : Finset Event) : Bool :=
  decide (f.Limit ≠ 0) && decide (f.Limit.toNat < (f.held source).card)

def Attempt.reports (a : Attempt) (w : Window) (channel : List (Option Event)) : Bool :=
  completes a.turns 0 channel && w.validate.isOk && a.update.signError.isNone

-- What the limit cuts off an overfull window, and what DeepFry refuses, it had accepted before.
def spared (f : Filter) (turns : Nat → Turn) (channel : List (Option Event)) (source accepted : Finset Event) : Bool :=
  decide ((f.overflows source = true → ∀ e ∈ f.held source, e ∉ channel.filterMap id → e ∈ accepted) ∧
    ∀ e ∈ repliedWith false turns 0 channel, e ∈ accepted)

def Attempt.spares (a : Attempt) (c : Config) (w : Window) (s : Deployment) : Bool :=
  match a.queried with
  | .ok channel => !a.reports w channel || spared (c.filter w) a.turns channel s.source s.accepted
  | .error _ => true

def Action.spares (c : Config) (s : Deployment) (action : Action) : Bool :=
  match action,s.process with
  | .turn a,.windowed w => shouldSwitchToRealtime s.now w || !overdue c s.now w || a.spares c w s
  | _,_ => true

section Coverage
variable {f : Filter} {turns : Nat → Turn} {channel : List (Option Event)} {source : Finset Event}

theorem answer_whole {answer : List Event} (answered : f.answeredBy source answer) (fits : f.overflows source = false)
    {e : Event} (held : e ∈ f.held source) : e ∈ answer := by
  obtain ⟨distinct,inside,size,_⟩ := answered
  have whole : (f.held source).card ≤ answer.toFinset.card := by
    rw [List.toFinset_card_of_nodup distinct,size]
    unfold Filter.size
    unfold Filter.overflows at fits
    split
    · exact le_refl _
    · rename_i limited
      rw [decide_eq_true limited,Bool.true_and,decide_eq_false_iff_not,not_lt] at fits
      exact le_min fits (le_refl _)
  have subset : answer.toFinset ⊆ f.held source := fun e member => inside e (List.mem_toFinset.mp member)
  rw [← Finset.eq_of_subset_of_card_le subset whole] at held
  exact List.mem_toFinset.mp held

-- After a finished loop everything the window held is accepted exactly if the condition held before it.
theorem covered_spared (accepted : Finset Event) (answered : f.answeredBy source (channel.filterMap id)) (complete : completes turns 0 channel = true) :
    (∀ e ∈ f.held source, e ∈ (forwardAll turns 0 channel 0 accepted).2.2) ↔ spared f turns channel source accepted = true := by
  have parts := replied_perm complete
  have apart : ∀ e ∈ repliedWith false turns 0 channel, e ∉ repliedWith true turns 0 channel := by
    intro e refused taken
    have distinct := parts.symm.nodup answered.1
    exact (List.nodup_append.mp distinct).2.2 e taken e refused rfl
  unfold spared
  rw [decide_eq_true_eq]
  constructor
  · intro covered
    refine ⟨fun _ e held absent => ?_,fun e refused => ?_⟩
    · rcases (mem_forwardAll complete).mp (covered e held) with before | taken
      · exact before
      · exact absurd (parts.subset (List.mem_append_left _ taken)) absent
    · have member := parts.subset (List.mem_append_right _ refused)
      exact ((mem_forwardAll complete).mp (covered e (answered.2.1 e member))).resolve_right (apart e refused)
  · intro ⟨cut,refused⟩ e held
    apply (mem_forwardAll complete).mpr
    by_cases member : e ∈ channel.filterMap id
    · rcases List.mem_append.mp (parts.symm.subset member) with taken | left
      · exact .inr taken
      · exact .inl (refused e left)
    · left
      apply cut ?_ e held member
      cases overfull : f.overflows source with
      | true => rfl
      | false => exact absurd (answer_whole answered overfull held) member
end Coverage

-- A step publishes no progress, or one event that meets the property exactly if the step meets the condition.
inductive Announced (spares : Bool) (before : List Published) : List Published → Prop where
  | silent : spares = true → Announced spares before before
  | aloud (p : Published) : ((p.mode = .windowed → p.Covered) ↔ spares = true) → Announced spares before (p :: before)

section Steps
variable {tp : TimePackage} {c : Config} {s next : Deployment} {action : Action} {w : Window} {a : Attempt} {u : Update}

theorem updateWindow_published (mode : SyncMode) : (updateWindow c u mode w s).2.published =
    if (w.validate.isOk && u.signError.isNone) = true then ⟨mode,unix w.From,unix w.To,s.source,s.accepted⟩ :: s.published
    else s.published := by
  unfold updateWindow
  cases w.validate with
  | error e => rfl
  | ok _ =>
    cases u.signError with
    | some error => rfl
    | none =>
      cases u.reply with
      | stored => rfl
      | lost error => rfl
      | refused error => rfl

theorem resume_published (queryError : Option Str) : (resume tp c queryError s).published = s.published := by
  unfold resume
  cases getOrCreate tp c s.now queryError s.progress with
  | ok w => rfl
  | error e => rfl

theorem syncWindow_announced (answered : a.answered (c.filter w) s.source = true) :
    Announced (a.spares c w s) s.published (syncWindow c a w s).2.published := by
  unfold syncWindow Attempt.spares
  unfold Attempt.answered at answered
  cases queried : a.queried with
  | error error => exact .silent rfl
  | ok channel =>
    rw [queried] at answered
    have answered := of_decide_eq_true answered
    dsimp only
    cases outcome : forwardAll a.turns 0 channel 0 s.accepted with
    | mk flow rest =>
      obtain ⟨eventCount,accepted⟩ := rest
      cases flow with
      | finished =>
        have complete : completes a.turns 0 channel = true := forwardAll_finished.mp (congrArg Prod.fst outcome)
        have covered := covered_spared s.accepted answered complete
        rw [outcome] at covered
        have announced : Announced (!a.reports w channel || spared (c.filter w) a.turns channel s.source s.accepted) s.published
            (updateWindow c a.update .windowed w { s with accepted }).2.published := by
          rw [updateWindow_published]
          unfold Attempt.reports
          rw [complete,Bool.true_and]
          cases w.validate.isOk && a.update.signError.isNone with
          | false => exact .silent rfl
          | true =>
            refine .aloud _ ⟨fun whole => covered.mp fun e held => ?_,fun spares _ e content after before => ?_⟩
            · obtain ⟨content,after,before⟩ := Finset.mem_filter.mp held
              exact whole rfl e content after before
            · exact covered.mpr spares e (Finset.mem_filter.mpr ⟨content,after,before⟩)
        dsimp only
        cases updated : updateWindow c a.update .windowed w { s with accepted } with
        | mk result next =>
          rw [updated] at announced
          cases result with
          | ok _ => exact announced
          | error e => exact announced
      | cancelled | crashed =>
        have broken : completes a.turns 0 channel = false := by
          rw [← Bool.not_eq_true,← forwardAll_finished,outcome]
          nofun
        unfold Attempt.reports
        rw [broken]
        exact .silent rfl
theorem windowedTurn_announced (moved : windowedTurn c a w s = some next) :
    Announced (shouldSwitchToRealtime s.now w || !overdue c s.now w || a.spares c w s) s.published next.published := by
  unfold windowedTurn at moved
  split at moved
  · rename_i caughtUp
    cases moved
    rw [caughtUp]
    exact .silent rfl
  · rename_i behind
    rw [Bool.not_eq_true _ |>.mp behind]
    split at moved
    · rename_i late
      rw [late]
      split at moved
      · rename_i answered
        have announced := syncWindow_announced answered
        split at moved
        · rename_i outcome
          cases moved
          rw [outcome] at announced
          exact announced
        · rename_i outcome
          cases moved
          rw [outcome] at announced
          exact announced
        · rename_i outcome
          cases moved
          rw [outcome] at announced
          exact announced
      · cases moved
    · rename_i early
      cases moved
      rw [Bool.not_eq_true _ |>.mp early]
      exact .silent rfl

theorem updateRealtimeWindow_announced : Announced true s.published (updateRealtimeWindow c u w s).published := by
  have published := updateWindow_published (c := c) (s := s) (w := ⟨s.now - c.windowDuration,s.now⟩) (u := u) .realtime
  have same : (updateRealtimeWindow c u w s).published = (updateWindow c u .realtime ⟨s.now - c.windowDuration,s.now⟩ s).2.published := by
    unfold updateRealtimeWindow
    dsimp only
    split
    · rename_i outcome
      rw [outcome]
    · rename_i outcome
      rw [outcome]
  rw [same,published]
  split
  · exact .aloud _ ⟨fun _ => rfl,fun _ windowed => nomatch windowed⟩
  · exact .silent rfl

theorem receive_announced (event : Option Event) (reply : Reply) (n : Nat) :
    Announced true s.published (receive c event reply u w n s).published := by
  unfold receive
  cases forwardEvent reply event s.accepted with
  | mk sent accepted =>
    cases sent with
    | true =>
      dsimp only
      rw [if_pos rfl]
      split
      · exact updateRealtimeWindow_announced (s := { s with accepted })
      · exact .silent rfl
    | false => exact .silent rfl

theorem step_announced (moved : step tp c s action = some next) : Announced (action.spares c s) s.published next.published := by
  unfold Action.spares
  cases step_cases moved with
  | source | accept | clock | stop => exact .silent rfl
  | start queryError down =>
    rw [resume_published]
    exact .silent rfl
  | turn process moved =>
    rw [process]
    exact windowedTurn_announced moved
  | fallback queryError process =>
    rw [resume_published]
    exact .silent rfl
  | subscribe queryError process => exact .silent rfl
  | close process => exact .silent rfl
  | receive event reply u process => exact receive_announced event reply _

theorem covered_step (moved : step tp c s action = some next) : next.Covered ↔ s.Covered ∧ action.spares c s = true := by
  have announced := step_announced moved
  unfold Deployment.Covered
  generalize next.published = after at announced
  cases announced with
  | silent spares => exact ⟨fun covered => ⟨covered,spares⟩,And.left⟩
  | aloud p exact =>
    rw [List.forall_mem_cons,exact]
    exact and_comm

theorem covered_run {actions : List Action} (ran : Machine.replay (step tp c) s actions = some next) :
    next.Covered ↔ s.Covered ∧ Machine.admits (step tp c) (fun s action => action.spares c s = true) s actions = true := by
  induction actions generalizing s with
  | nil =>
    cases ran
    exact ⟨fun covered => ⟨covered,rfl⟩,And.left⟩
  | cons action rest ih =>
    obtain ⟨middle,moved,later⟩ := Option.bind_eq_some_iff.mp ran
    rw [ih later,covered_step moved,and_assoc,Machine.admits,moved,Option.all_some,Bool.and_eq_true,decide_eq_true_eq]
end Steps

-- Whatever the runs, stops and failures, each windowed progress event published stands for a window that DeepFry accepted as a
-- whole, exactly if each step met the condition.
theorem windowed_coverage {tp : TimePackage} {c : Config} {now : Int} {source accepted : Finset Event} {progress : Option SyncEvent}
    {actions : List Action} {s : Deployment} (ran : Machine.replay (step tp c) (deploy now source accepted progress) actions = some s) :
    (∀ p ∈ s.published, p.mode = .windowed → p.Covered) ↔
      Machine.admits (step tp c) (fun s action => action.spares c s = true) (deploy now source accepted progress) actions = true := by
  have start : (deploy now source accepted progress).Covered := fun p member => absurd member List.not_mem_nil
  exact (covered_run ran).trans (and_iff_right start)

section Samples

def NOVEMBER : Str := Bytes.text "2023-11-14T22:13:20Z"

def plainYears : TimePackage :=
  ⟨fun value => if value = NOVEMBER then some (1700000000 * SECOND) else none,fun t years => t + years * MAX_DURATION⟩

def defaults : Config where
  sourceRelayURL := Bytes.text "wss://source"
  deepFryRelayURL := Bytes.text "wss://deepfry"
  nostrSecretKey := Bytes.text "nsec1"
  windowSeconds := 5
  maxBatch := 1000
  maxCatchupLagSeconds := 10
  startTime := []

def singles : Config := { defaults with maxBatch := 1 }

def dated : Config := { defaults with startTime := NOVEMBER }

def early : Event := ⟨[1],1700000001⟩

def late : Event := ⟨[2],1700000002⟩

def recorded : Update := ⟨1700000060,none,.stored,false⟩

def refusing : Attempt := ⟨.ok [some early],fun _ => .reply (.refused (Bytes.text "blocked")),recorded,true⟩

def newestOnly : Attempt := ⟨.ok [some late],fun _ => .reply .stored,recorded,true⟩

def bothLost : Attempt := ⟨.ok [some late,some early],fun _ => .reply (.lost (Bytes.text "timeout")),recorded,true⟩

def interrupted : Attempt := ⟨.ok [some late,some early],fun i => if i = 0 then .reply .stored else .crashed,recorded,true⟩

def fresh (source : Finset Event) : Deployment := deploy (1700000000 * SECOND) source ∅ none

def started : List Action := [.start none,.clock (1700000060 * SECOND)]

-- With the defaults a refused event is recorded as done, and with a batch of one the older event of a window is.
theorem windowed_coverage_fails : (defaults.validate plainYears = .ok () ∧ singles.validate plainYears = .ok ()) ∧
    (∃ s, Machine.replay (step plainYears defaults) (fresh {early}) (started ++ [.turn refusing]) = some s ∧
      ∃ p ∈ s.published, p.mode = .windowed ∧ early ∈ p.content ∧ p.From ≤ early.createdAt ∧ early.createdAt ≤ p.To ∧ early ∉ s.accepted) ∧
    ∃ s, Machine.replay (step plainYears singles) (fresh {early,late}) (started ++ [.turn newestOnly]) = some s ∧
      ∃ p ∈ s.published, p.mode = .windowed ∧ early ∈ p.content ∧ p.From ≤ early.createdAt ∧ early.createdAt ≤ p.To ∧ early ∉ s.accepted := by
  refine ⟨by decide +kernel,?_,?_⟩
  · have skipped : (Machine.replay (step plainYears defaults) (fresh {early}) (started ++ [.turn refusing])).any (fun s =>
        decide (∃ p ∈ s.published, p.mode = .windowed ∧ early ∈ p.content ∧ p.From ≤ early.createdAt ∧ early.createdAt ≤ p.To ∧
          early ∉ s.accepted)) = true := by decide +kernel
    obtain ⟨s,ran,found⟩ := (Option.any_eq_true _ _).mp skipped
    exact ⟨s,ran,of_decide_eq_true found⟩
  · have cut : (Machine.replay (step plainYears singles) (fresh {early,late}) (started ++ [.turn newestOnly])).any (fun s =>
        decide (∃ p ∈ s.published, p.mode = .windowed ∧ early ∈ p.content ∧ p.From ≤ early.createdAt ∧ early.createdAt ≤ p.To ∧
          early ∉ s.accepted)) = true := by decide +kernel
    obtain ⟨s,ran,found⟩ := (Option.any_eq_true _ _).mp cut
    exact ⟨s,ran,of_decide_eq_true found⟩

-- A crash between two publishes, then a restart whose replies are all lost: the window is recorded and whole.
theorem windowed_coverage_sample : ∃ s,
    Machine.replay (step plainYears dated) (fresh {early,late}) (started ++ [.turn interrupted,.start none,.turn bothLost]) = some s ∧
    s.published.length = 1 ∧ ∀ p ∈ s.published, p.mode = .windowed → p.Covered := by
  have recorded : (Machine.replay (step plainYears dated) (fresh {early,late})
      (started ++ [.turn interrupted,.start none,.turn bothLost])).any (fun s => decide (s.published.length = 1)) = true := by
    decide +kernel
  obtain ⟨s,ran,found⟩ := (Option.any_eq_true _ _).mp recorded
  exact ⟨s,ran,of_decide_eq_true found,(windowed_coverage ran).mpr (by decide +kernel)⟩
end Samples

end DeepFry.EventForwarder
