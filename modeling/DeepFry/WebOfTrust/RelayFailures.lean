import DeepFry.WebOfTrust.BatchResults

namespace DeepFry.WebOfTrust

def callsFor (s : Dispatch) (k : Nat) : List FailureClass := (s.calls.filter (·.1 = k)).map (·.2)

def queuedFor (s : Dispatch) (k : Nat) : List QueryError := (s.errors.filter (·.1 = k)).map (·.2)

-- The goroutine is past its send on the error channel.
def Stage.sent : Stage → Bool
  | .reported _ | .finished _ => true
  | _ => false

-- An error is sent once, and the dispatcher either still has it before it or has dealt with it.
inductive Tracked (stage : Stage) (queued : List QueryError) (calls : List FailureClass) : Prop where
  | unsent : stage.sent = false → queued = [] → calls = [] → Tracked stage queued calls
  | fine : stage.sent = true → (∀ e, stage.ending ≠ some (.failed e)) → queued = [] → calls = [] → Tracked stage queued calls
  | waiting (e : QueryError) : stage.sent = true → stage.ending = some (.failed e) → queued = [e] → calls = [] →
      Tracked stage queued calls
  | taken (e : QueryError) : stage.sent = true → stage.ending = some (.failed e) → queued = [] →
      calls = (if interrupted e then [] else [classifyRelayError e]) → Tracked stage queued calls

section Steps
variable {b : Batch} {s next : Dispatch} {action : Action} {k j : Nat} {stage : Stage} {e : QueryError}

theorem tracked_launch (b : Batch) (p : Pool) (g : Graph) (k : Nat) :
    Tracked ((launch b p g).stage k) (queuedFor (launch b p g) k) (callsFor (launch b p g) k) := .unsent rfl rfl rfl

theorem queued_head {rest : List (Nat × QueryError)} (here : s.errors = (k,e) :: rest) :
    queuedFor s j = if j = k then e :: (rest.filter (·.1 = j)).map (·.2) else (rest.filter (·.1 = j)).map (·.2) := by
  rw [queuedFor,here]
  by_cases own : j = k
  · rw [if_pos own,List.filter_cons_of_pos (by rw [own]; exact decide_eq_true rfl)]
    rfl
  · rw [if_neg own,List.filter_cons_of_neg (by rw [decide_eq_true_eq]; exact Ne.symm own)]

-- What is taken from the channel belongs to a query that waits for it.
theorem Tracked.head {rest : List QueryError} {calls : List FailureClass} (tracked : Tracked stage (e :: rest) calls) :
    stage.sent = true ∧ stage.ending = some (.failed e) ∧ rest = [] ∧ calls = [] := by
  cases tracked with
  | unsent _ empty _ => cases empty
  | fine _ _ empty _ => cases empty
  | waiting f sent ending one none =>
    cases one
    exact ⟨sent,ending,rfl,none⟩
  | taken f _ _ empty _ => cases empty

-- A stage that has not sent yet goes to another such stage.
theorem Tracked.unsent_step {queued : List QueryError} {calls : List FailureClass} (tracked : Tracked stage queued calls) {later : Stage}
    (before : stage.sent = false) (after : later.sent = false) : Tracked later queued calls := by
  cases tracked with
  | unsent _ empty none => exact .unsent after empty none
  | fine sent _ _ _ =>
    rw [before] at sent
    cases sent
  | waiting e sent _ _ _ =>
    rw [before] at sent
    cases sent
  | taken e sent _ _ _ =>
    rw [before] at sent
    cases sent

theorem Tracked.unsent_parts {queued : List QueryError} {calls : List FailureClass} (tracked : Tracked stage queued calls)
    (before : stage.sent = false) : queued = [] ∧ calls = [] := by
  cases tracked with
  | unsent _ empty none => exact ⟨empty,none⟩
  | fine sent _ _ _ =>
    rw [before] at sent
    cases sent
  | waiting e sent _ _ _ =>
    rw [before] at sent
    cases sent
  | taken e sent _ _ _ =>
    rw [before] at sent
    cases sent

def AllTracked (s : Dispatch) : Prop := ∀ k, Tracked (s.stage k) (queuedFor s k) (callsFor s k)

theorem AllTracked.enter (tracked : AllTracked s) (k : Nat) (stage : Stage)
    (goes : Tracked (s.stage k) (queuedFor s k) (callsFor s k) → Tracked stage (queuedFor s k) (callsFor s k)) (j : Nat) :
    Tracked ((s.enter k stage).stage j) (queuedFor s j) (callsFor s j) := by
  unfold Dispatch.enter
  dsimp only
  rw [Function.update_apply]
  split
  · rename_i own
    rw [own]
    exact goes (tracked k)
  · exact tracked j

theorem unsent_of_running (running : stage.ending = none) : stage.sent = false := by
  cases stage with
  | reported _ => cases running
  | finished _ => cases running
  | _ => rfl

theorem tracked_step (tracked : AllTracked s) (moved : step b s action = some next) (inside : ∀ exit, next.mode ≠ .returned exit) :
    AllTracked next := by
  cases step_moved moved with
  | subscribe k size author authors _ here =>
    exact tracked.enter k _ fun before => before.unsent_step (by rw [here]; rfl) rfl
  | send k e => exact tracked
  | eose k chunk rest _ here => exact tracked.enter k _ fun before => before.unsent_step (by rw [here]; rfl) rfl
  | exhaust k _ here => exact tracked.enter k _ fun before => before.unsent_step (by rw [here]; rfl) rfl
  | rejectProbe k _ here => exact tracked.enter k _ fun before => before.unsent_step (unsent_of_running here) rfl
  | fail k e _ here => exact tracked.enter k _ fun before => before.unsent_step (unsent_of_running here) rfl
  | stamp k ending _ here => exact tracked.enter k _ fun before => before.unsent_step (by rw [here]; rfl) rfl
  | reportError k e _ here =>
    obtain ⟨empty,none⟩ := (tracked k).unsent_parts (by rw [here]; rfl)
    intro j
    have queued : ∀ j, queuedFor { s.enter k (.reported (.failed e)) with errors := s.errors ++ [(k,e)] } j =
        queuedFor s j ++ if j = k then [e] else [] := by
      intro j
      unfold queuedFor
      dsimp only
      rw [List.filter_append,List.map_append]
      congr 1
      by_cases own : j = k
      · rw [if_pos own,List.filter_cons_of_pos (by rw [own]; exact decide_eq_true rfl)]
        rfl
      · rw [if_neg own,List.filter_cons_of_neg (by rw [decide_eq_true_eq]; exact Ne.symm own)]
        rfl
    rw [queued]
    by_cases own : j = k
    · rw [own,if_pos rfl,empty]
      refine .waiting e ?_ ?_ rfl none
      · exact congrArg Stage.sent (Function.update_self k _ s.stage)
      · exact congrArg Stage.ending (Function.update_self k _ s.stage)
    · rw [if_neg own,List.append_nil]
      have same : (s.enter k (.reported (.failed e))).stage j = s.stage j := Function.update_of_ne own _ _
      change Tracked ((s.enter k (.reported (.failed e))).stage j) _ (callsFor s j)
      rw [same]
      exact tracked j
  | reportDone k ending _ here unfailed =>
    refine tracked.enter k _ fun before => ?_
    obtain ⟨empty,none⟩ := before.unsent_parts (by rw [here]; rfl)
    exact .fine rfl (fun e same => unfailed e (Option.some.inj same)) empty none
  | finish k ending _ here =>
    refine tracked.enter k _ fun before => ?_
    rw [here] at before
    cases before with
    | unsent sent _ _ => cases sent
    | fine _ unfailed empty none => exact .fine rfl unfailed empty none
    | waiting e _ ending one none => exact .waiting e rfl ending one none
    | taken e _ ending empty calls => exact .taken e rfl ending empty calls
  | close _ => exact tracked
  | deadline => exact tracked
  | cancel => exact tracked
  | receive a e rest results _ _ => exact tracked
  | abort a rest error results => exact absurd rfl (inside _)
  | passOver k e rest here text =>
    intro j
    have before := tracked j
    rw [queued_head here] at before
    by_cases own : j = k
    · rw [if_pos own] at before
      obtain ⟨sent,ending,empty,none⟩ := before.head
      refine .taken e sent ending empty ?_
      rw [if_pos text]
      exact none
    · rw [if_neg own] at before
      exact before
  | markDead k e rest here text =>
    intro j
    have before := tracked j
    rw [queued_head here] at before
    have calls : (((k,classifyRelayError e) :: s.calls).filter (·.1 = j)).map (·.2) =
        (if j = k then [classifyRelayError e] else []) ++ callsFor s j := by
      unfold callsFor
      by_cases own : j = k
      · rw [if_pos own,List.filter_cons_of_pos (by rw [own]; exact decide_eq_true rfl)]
        rfl
      · rw [if_neg own,List.filter_cons_of_neg (by rw [decide_eq_true_eq]; exact Ne.symm own)]
        rfl
    by_cases own : j = k
    · rw [if_pos own] at before calls
      obtain ⟨sent,ending,empty,none⟩ := before.head
      refine .taken e sent ending empty (calls.trans ?_)
      rw [none,text]
      rfl
    · rw [if_neg own] at before calls
      change Tracked (s.stage j) _ ((((k,classifyRelayError e) :: s.calls).filter (·.1 = j)).map (·.2))
      rw [calls]
      exact before
  | wake late stop _ => exact tracked
  | leaveClosed _ _ => exact absurd rfl (inside _)
  | leaveCancelled => exact absurd rfl (inside _)
  | drained budgetExhausted _ =>
    refine absurd ?_ (inside .stopped)
    unfold leave
    dsimp only
    split
    · rfl
    · rfl
end Steps

-- The dispatcher took the error from the channel and its text does not read like a context's.
def Heard (s : Dispatch) (k : Nat) (e : QueryError) : Prop := (s.stage k).sent = true ∧ (k,e) ∉ s.errors ∧ interrupted e = false

-- The query had just failed when the deadline found its relay outstanding, which counts as a transport failure anyway.
def Outlasted (s : Dispatch) (k : Nat) (e : QueryError) : Prop :=
  s.mode = .draining true ∧ k ∈ outstanding s ∧ classifyRelayError e = .classTransport

section Leaving
variable {b : Batch} {p : Pool} {g : Graph} {s next : Dispatch} {action : Action} {k : Nat} {e : QueryError} {budgetExhausted : Bool}

theorem mem_queued : e ∈ queuedFor s k ↔ (k,e) ∈ s.errors := by
  constructor
  · intro member
    obtain ⟨⟨j,f⟩,inside,same⟩ := List.mem_map.mp member
    obtain ⟨there,own⟩ := List.mem_filter.mp inside
    cases same
    cases of_decide_eq_true own
    exact there
  · intro member
    exact List.mem_map.mpr ⟨(k,e),List.mem_filter.mpr ⟨member,decide_eq_true rfl⟩,rfl⟩

theorem callsFor_heard (tracked : AllTracked s) (ending : (s.stage k).ending = some (.failed e)) :
    callsFor s k = [classifyRelayError e] ↔ Heard s k e := by
  have before := tracked k
  unfold Heard
  rw [← mem_queued]
  cases before with
  | unsent unsent _ none =>
    rw [none,unsent]
    exact ⟨nofun,fun heard => by cases heard.1⟩
  | fine _ unfailed _ _ => exact absurd ending (unfailed e)
  | waiting f _ other one none =>
    rw [ending] at other
    cases other
    rw [none,one]
    exact ⟨nofun,fun heard => absurd (List.mem_singleton_self e) heard.2.1⟩
  | taken f sent other empty calls =>
    rw [ending] at other
    cases other
    rw [calls,empty,sent]
    cases interrupted e with
    | false => exact ⟨fun _ => ⟨rfl,List.not_mem_nil,rfl⟩,fun _ => rfl⟩
    | true => exact ⟨nofun,fun heard => by cases heard.2.2⟩

theorem outstanding_distinct (s : Dispatch) : (outstanding s).Nodup := s.pool.distinct.filter _

theorem stuck_calls {stuck : List Nat} (distinct : stuck.Nodup) (k : Nat) :
    ((stuck.map (·,FailureClass.classTransport)).filter (·.1 = k)).map (·.2) = if k ∈ stuck then [.classTransport] else [] := by
  induction stuck with
  | nil => rfl
  | cons first rest ih =>
    obtain ⟨absent,others⟩ := List.nodup_cons.mp distinct
    rw [List.map_cons]
    by_cases own : first = k
    · rw [List.filter_cons_of_pos (by exact decide_eq_true own),List.map_cons,ih others,← own,if_neg absent,if_pos List.mem_cons_self]
    · rw [List.filter_cons_of_neg (by rw [decide_eq_true_eq]; exact own),ih others]
      by_cases later : k ∈ rest
      · rw [if_pos later,if_pos (List.mem_cons_of_mem _ later)]
      · rw [if_neg later,if_neg (List.not_mem_cons_of_ne_of_not_mem (Ne.symm own) later)]

theorem leave_stage (b : Batch) (budgetExhausted : Bool) (s : Dispatch) :
    (leave b budgetExhausted s).stage = s.stage ∧ (leave b budgetExhausted s).launched = s.launched := by
  unfold leave
  dsimp only
  split
  · exact ⟨rfl,rfl⟩
  · exact ⟨rfl,rfl⟩

theorem leave_calls (b : Batch) (budgetExhausted : Bool) (s : Dispatch) (k : Nat) : callsFor (leave b budgetExhausted s) k =
    (if budgetExhausted = true ∧ k ∈ outstanding s then [.classTransport] else []) ++ callsFor s k := by
  unfold leave
  dsimp only
  cases budgetExhausted with
  | false => rfl
  | true =>
    rw [if_pos rfl]
    unfold callsFor
    dsimp only
    rw [List.filter_append,List.map_append,stuck_calls (outstanding_distinct s)]
    by_cases member : k ∈ outstanding s
    · rw [if_pos member,if_pos ⟨rfl,member⟩]
    · rw [if_neg member,if_neg fun both => member both.2]

-- What the deadline finds outstanding has sent nothing yet.
theorem outstanding_calls (tracked : AllTracked s) (member : k ∈ outstanding s) : callsFor s k = [] ∧ (s.stage k).sent = false := by
  have running := (List.mem_filter.mp member).2
  rw [Bool.and_eq_true,Bool.not_eq_true'] at running
  have unsent : (s.stage k).sent = false := by
    have incomplete := running.2
    generalize s.stage k = stage at incomplete
    cases stage with
    | reported _ => cases incomplete
    | finished _ => cases incomplete
    | _ => rfl
  exact ⟨((tracked k).unsent_parts unsent).2,unsent⟩

theorem leave_heard (tracked : AllTracked s) (mode : s.mode = .draining budgetExhausted) (ending : (s.stage k).ending = some (.failed e)) :
    callsFor (leave b budgetExhausted s) k = [classifyRelayError e] ↔ Heard s k e ∨ Outlasted s k e := by
  rw [leave_calls,← callsFor_heard tracked ending]
  unfold Outlasted
  rw [mode]
  by_cases stuck : budgetExhausted = true ∧ k ∈ outstanding s
  · obtain ⟨exhausted,member⟩ := stuck
    obtain ⟨none,unsent⟩ := outstanding_calls tracked member
    rw [if_pos ⟨exhausted,member⟩,none,exhausted]
    constructor
    · intro same
      cases class_ : classifyRelayError e with
      | classTransport => exact .inr ⟨rfl,member,rfl⟩
      | classFilterRej =>
        rw [class_] at same
        cases same
      | classSubFlap =>
        rw [class_] at same
        cases same
    · rintro (impossible | ⟨_,_,class_⟩)
      · cases impossible
      · rw [class_]
        rfl
  · rw [if_neg stuck]
    refine ⟨.inl,fun either => either.resolve_right fun ⟨same,member,_⟩ => stuck ⟨?_,member⟩⟩
    cases same
    rfl

theorem reached_tracked (path : Machine.Reached (step b) (fun _ _ => True) (launch b p g) s)
    (inside : ∀ exit, s.mode ≠ .returned exit) : AllTracked s := by
  induction path with
  | refl => exact tracked_launch b p g
  | @step s next action _ _ moved ih =>
    exact tracked_step (ih (step_running moved)) moved inside

-- When FetchAndUpdateFollows returns nil, each relay whose query failed was marked dead once and with its class exactly if
-- the dispatcher had heard its error before it left, or the deadline marked the relay as outstanding with the same class.
theorem relay_failures (path : Machine.Reached (step b) (fun _ _ => True) (launch b p g) s) (moved : step b s action = some next)
    (returned : next.mode = .returned .closed ∨ next.mode = .returned .stopped) :
    (∀ k ∈ next.launched, ∀ e, (next.stage k).ending = some (.failed e) → e.isContext = false →
      callsFor next k = [classifyRelayError e]) ↔
    ∀ k ∈ s.launched, ∀ e, (s.stage k).ending = some (.failed e) → e.isContext = false → Heard s k e ∨ Outlasted s k e := by
  have inside : ∀ exit, s.mode ≠ .returned exit := step_running moved
  have tracked := reached_tracked path inside
  have leaving : s.mode = .looping ∧ next = { s with mode := .returned .closed } ∨ ∃ budgetExhausted, s.mode = .draining budgetExhausted ∧ next = leave b budgetExhausted s := by
    cases step_moved moved with
    | leaveClosed looping _ => exact .inl ⟨looping,rfl⟩
    | drained budgetExhausted mode => exact .inr ⟨budgetExhausted,mode,rfl⟩
    | abort _ _ _ _ => rcases returned with same | same <;> cases same
    | leaveCancelled => rcases returned with same | same <;> cases same
    | wake _ _ _ => rcases returned with same | same <;> cases same
    | _ => exact absurd returned (not_or.mpr ⟨inside _,inside _⟩)
  rcases leaving with ⟨looping,rfl⟩ | ⟨budgetExhausted,mode,rfl⟩
  · constructor
    · intro marked k member e ending failure
      exact .inl ((callsFor_heard tracked ending).mp (marked k member e ending failure))
    · intro heard k member e ending failure
      rcases heard k member e ending failure with heard | ⟨draining,_⟩
      · exact (callsFor_heard tracked ending).mpr heard
      · rw [looping] at draining
        cases draining
  · obtain ⟨stage,launched⟩ := leave_stage b budgetExhausted s
    rw [stage,launched]
    constructor
    · intro marked k member e ending failure
      exact (leave_heard tracked mode ending).mp (marked k member e ending failure)
    · intro heard k member e ending failure
      exact (leave_heard tracked mode ending).mpr (heard k member e ending failure)
end Leaving

section Samples

def loneRelay : Batch where
  pubkeys := (∅ : Table Str Int).insert alice 0
  url _ := Bytes.text "wss://one"
  ejectionThresholds _ := 10
  quorumReached _ _ := false

def dropped : QueryError := .transportError (Bytes.text "connection reset")

def failing : List Action := [.subscribe 0 1,.fail 0 dropped,.stamp 0,.report 0,.finish 0,.close]

-- The error waits in its channel when the closed events channel is picked.
theorem relay_failures_fails : ∃ s, Machine.Reached (step loneRelay) (fun _ _ => True) (launch loneRelay oneRelay .empty) s ∧
    s.mode = .returned .closed ∧ 0 ∈ s.launched ∧ (s.stage 0).ending = some (.failed dropped) ∧ dropped.isContext = false ∧
    s.calls = [] := by
  obtain ⟨s,path,found⟩ := Machine.replay_final (step loneRelay) (fun _ _ => True) (launch loneRelay oneRelay .empty)
    (failing ++ [.leaveClosed])
    (fun s => decide (s.mode = .returned .closed ∧ 0 ∈ s.launched ∧ (s.stage 0).ending = some (.failed dropped) ∧
      dropped.isContext = false ∧ s.calls = [])) (by decide +kernel) (by decide +kernel)
  exact ⟨s,path,of_decide_eq_true found⟩

-- The error is taken first.
theorem relay_failures_sample : ∃ s, Machine.Reached (step loneRelay) (fun _ _ => True) (launch loneRelay oneRelay .empty) s ∧
    s.mode = .returned .closed ∧ callsFor s 0 = [.classTransport] := by
  obtain ⟨s,path,found⟩ := Machine.replay_final (step loneRelay) (fun _ _ => True) (launch loneRelay oneRelay .empty)
    (failing ++ [.takeError])
    (fun s => decide (s.launched = [0] ∧ s.stage 0 = .finished (.failed dropped) ∧ s.errors = [] ∧ interrupted dropped = false) &&
      (step loneRelay s .leaveClosed).any fun next : Dispatch =>
        decide (next.mode = .returned .closed ∧ 0 ∈ next.launched ∧ next.stage 0 = .finished (.failed dropped)))
    (by decide +kernel) (by decide +kernel)
  obtain ⟨ready,left⟩ := Bool.and_eq_true_iff.mp found
  obtain ⟨launched,stage,errors,text⟩ := of_decide_eq_true ready
  obtain ⟨next,moved,parts⟩ := (Option.any_eq_true _ _).mp left
  obtain ⟨closed,member,finished⟩ := of_decide_eq_true parts
  refine ⟨next,.step path trivial moved,closed,?_⟩
  refine (relay_failures path moved (.inl closed)).mpr ?_ 0 member dropped (by rw [finished]; rfl) rfl
  intro k inside e ending _
  rw [launched,List.mem_singleton] at inside
  rw [inside,stage] at ending
  cases ending
  rw [inside]
  exact .inl ⟨by rw [stage]; rfl,by rw [errors]; exact List.not_mem_nil,text⟩
end Samples

end DeepFry.WebOfTrust
