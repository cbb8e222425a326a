import DeepFry.Lib.Machine
import DeepFry.WebOfTrust.Dispatch

namespace DeepFry.WebOfTrust

def known (g : Graph) (pk : Str) : Prop := (g.eqPubkey pk).head?.isSome = true

section Store
variable {b : Batch} {g next : Graph} {c : Call} {a : Answer} {e : Event} {pk : Str} {u : Uid}

-- What a write for one signer does to the values the version guard reads.
structure Rising (g : Graph) (signer : Str) (createdAt : Int) (next : Graph) : Prop where
  unique : Unique next
  remembered : ∀ pk, known g pk → known next pk
  others : ∀ pk, pk ≠ signer → stored next pk = stored g pk
  rising : known g signer → stored g signer ≤ stored next signer
  value : stored next signer = stored g signer ∨ stored next signer = createdAt

theorem Rising.refl (unique : Unique g) (signer : Str) (createdAt : Int) : Rising g signer createdAt g :=
  ⟨unique,fun _ => id,fun _ _ => rfl,fun _ => le_refl _,.inl rfl⟩

theorem apply_rising (unique : Unique g) (c : Call) : Rising g c.event.signer c.event.createdAt (apply g c) ∧
    (returned g c = true → known (apply g c) c.event.signer ∧ c.event.createdAt ≤ stored (apply g c) c.event.signer) := by
  rcases apply_replaced unique c with ⟨passed,base,s,prepared,replaced⟩ | ⟨_,same,skipped⟩
  · have dated := prepared.dated unique replaced
    refine ⟨⟨replaced.unique,dated.remembered,dated.unstamped,fun there => ?_,.inr dated.stamped⟩,fun _ => ⟨dated.known,dated.stamped.ge⟩⟩
    rw [accepts,Bool.and_eq_true,Bool.or_eq_true,decide_eq_true_eq] at passed
    rw [dated.stamped]
    rcases passed.2 with empty | newer
    · rw [known,isEmpty_head.mp empty] at there
      cases there
    · exact newer.le
  · rw [same]
    exact ⟨.refl unique _ _,skipped⟩

theorem update_applied (a : Answer) (e : Event) (g : Graph) : (updateFollowsFromEvent a e g).2 = apply g (a.call e) ∧
    ((updateFollowsFromEvent a e g).1 = .ok () → returned g (a.call e) = true) := by
  unfold updateFollowsFromEvent apply returned Call.outcome Answer.call
  dsimp only
  generalize addFollowers e.kind3 a.fault a.lease a.now g = outcome
  obtain ⟨reply,next⟩ := outcome
  cases reply with
  | error error => exact ⟨rfl,nofun⟩
  | ok _ =>
    cases a.lost with
    | some error => exact ⟨rfl,nofun⟩
    | none => exact ⟨rfl,fun _ => rfl⟩

-- A mutation that leaves the pubkey and the date of its node alone.
theorem modify_stored {set : Node → Node} (pubkey : ∀ n : Node, (set n).pubkey = n.pubkey)
    (dated : ∀ n : Node, (set n).kind3CreatedAt = n.kind3CreatedAt) (pk : Str) :
    (g.modify u set).eqPubkey pk = g.eqPubkey pk ∧ stored (g.modify u set) pk = stored g pk := by
  have values : ∀ v, ((g.modify u set).node v).pubkey = (g.node v).pubkey ∧
      ((g.modify u set).node v).kind3CreatedAt = (g.node v).kind3CreatedAt := by
    intro v
    rw [Graph.node_modify]
    split
    · rename_i here
      rw [here.1]
      exact ⟨pubkey _,dated _⟩
    · exact ⟨rfl,rfl⟩
  have same : (g.modify u set).eqPubkey pk = g.eqPubkey pk := by
    apply List.filter_congr
    intro v _
    rw [(values v).1]
  refine ⟨same,?_⟩
  rw [stored,stored,same]
  cases (g.eqPubkey pk).head? with
  | none => rfl
  | some v =>
    rw [Option.bind_some,Option.bind_some,(values v).2]

theorem touch_rising (unique : Unique g) (read : Option StoreError) (now : Int) (outcome : Outcome) (pubkey signer : Str) (createdAt : Int) :
    Rising g signer createdAt (touchLastDBUpdate read now outcome pubkey g).2 ∧
      ∀ pk, stored (touchLastDBUpdate read now outcome pubkey g).2 pk = stored g pk := by
  have idle : Rising g signer createdAt g ∧ ∀ pk, stored g pk = stored g pk := ⟨.refl unique _ _,fun _ => rfl⟩
  unfold touchLastDBUpdate
  split
  · exact idle
  · cases read with
    | some e => exact idle
    | none =>
      dsimp only
      cases (g.eqPubkey pubkey).head? with
      | none => exact idle
      | some u =>
        dsimp only
        split
        · exact idle
        · dsimp only
          split
          · have same := @modify_stored g u (fun n => { n with lastDbUpdate := some now }) (fun _ => rfl) fun _ => rfl
            refine ⟨⟨?_,fun pk there => ?_,fun pk _ => (same pk).2,fun _ => (same _).2.ge,.inl (same _).2⟩,fun pk => (same pk).2⟩
            · intro v w pk left right
              have pubkeys : ∀ v, ((g.modify u fun n => { n with lastDbUpdate := some now }).node v).pubkey = (g.node v).pubkey := by
                intro v
                rw [Graph.node_modify]
                split
                · rename_i here
                  rw [here.1]
                · rfl
              rw [pubkeys] at left right
              exact unique v w pk left right
            · rw [known,(same pk).1]
              exact there
          · exact idle
end Store

-- The results of a batch, against what was handed to the dispatcher so far.
structure Honest (b : Batch) (start : Graph) (r : Results) : Prop where
  unique : Unique r.graph
  recorded : ∀ entry ∈ r.log, entry.1.pubkey ∈ r.hits ∨ entry.1.pubkey ∈ r.skipAttempt
  old : ∀ e, (e,Handling.old) ∈ r.log → e.createdAt ≤ b.since e.pubkey
  stored : ∀ e, (e,Handling.stored) ∈ r.log → known r.graph e.pubkey ∧ e.createdAt ≤ stored r.graph e.pubkey
  failed : ∀ after e before, r.log = after ++ (e,Handling.failed) :: before →
    e.pubkey ∈ r.skipAttempt ∨ ∃ later ∈ after, later.1.pubkey = e.pubkey ∧ later.2 = .stored
  floor : ∀ pk, b.since pk ≤ WebOfTrust.stored start pk → b.since pk ≤ WebOfTrust.stored r.graph pk

section Handle
variable {b : Batch} {start g : Graph} {r next : Results} {a : Answer} {e : Event}

theorem honest_start (unique : Unique g) : Honest b g ⟨g,[],[],[],[]⟩ where
  unique := unique
  recorded _ member := absurd member List.not_mem_nil
  old _ member := absurd member List.not_mem_nil
  stored _ member := absurd member List.not_mem_nil
  failed after e before same := absurd same.symm (by simp)
  floor _ := id

-- The parts that only look at the store survive a write for a signer whose event is newer than the batch's own date.
theorem Honest.rise (honest : Honest b start r) {signer : Str} {createdAt : Int} (rising : Rising r.graph signer createdAt g)
    (newer : b.since signer < createdAt ∨ ∀ pk, WebOfTrust.stored g pk = WebOfTrust.stored r.graph pk) :
    (∀ e, (e,Handling.stored) ∈ r.log → known g e.pubkey ∧ e.createdAt ≤ WebOfTrust.stored g e.pubkey) ∧
      ∀ pk, b.since pk ≤ WebOfTrust.stored start pk → b.since pk ≤ WebOfTrust.stored g pk := by
  refine ⟨fun e member => ?_,fun pk promised => ?_⟩
  · obtain ⟨there,bound⟩ := honest.stored e member
    refine ⟨rising.remembered _ there,?_⟩
    by_cases own : e.pubkey = signer
    · rw [own] at there bound ⊢
      exact bound.trans (rising.rising there)
    · rw [rising.others _ own]
      exact bound
  · have before := honest.floor pk promised
    rcases newer with newer | same
    · by_cases own : pk = signer
      · rw [own] at before ⊢
        rcases rising.value with kept | written
        · rw [kept]; exact before
        · rw [written]; exact newer.le
      · rw [rising.others _ own]
        exact before
    · rw [same]
      exact before

theorem cons_split {α : Type} {x y : α} {log after before : List α} (same : x :: log = after ++ y :: before) :
    (after = [] ∧ x = y) ∨ ∃ rest, after = x :: rest ∧ log = rest ++ y :: before := by
  cases after with
  | nil =>
    cases same
    exact .inl ⟨rfl,rfl⟩
  | cons first rest =>
    cases same
    exact .inr ⟨rest,rfl,rfl⟩

theorem honest_old (honest : Honest b start r) (old : e.createdAt ≤ b.since e.pubkey) (a : Answer) : Honest b start { r with
    graph := (touchLastDBUpdate a.touchRead a.now a.touch e.pubkey r.graph).2
    hits := r.hits.insert e.pubkey, log := (e,.old) :: r.log } := by
  obtain ⟨rising,same⟩ := touch_rising honest.unique a.touchRead a.now a.touch e.pubkey e.pubkey e.createdAt
  obtain ⟨stored,floor⟩ := honest.rise rising (.inr same)
  refine ⟨rising.unique,fun entry member => ?_,fun f member => ?_,fun f member => ?_,fun after f before split => ?_,floor⟩
  · rcases List.mem_cons.mp member with rfl | earlier
    · exact .inl (List.mem_insert_self)
    · exact (honest.recorded entry earlier).imp_left List.mem_insert_of_mem
  · rcases List.mem_cons.mp member with here | earlier
    · cases here
      exact old
    · exact honest.old f earlier
  · rcases List.mem_cons.mp member with here | earlier
    · cases here
    · exact stored f earlier
  · rcases cons_split split with ⟨_,here⟩ | ⟨rest,rfl,earlier⟩
    · cases here
    · refine (honest.failed rest f before earlier).imp_right fun ⟨later,member,own⟩ => ⟨later,List.mem_cons_of_mem _ member,own⟩

theorem honest_failed (honest : Honest b start r) (newer : b.since e.pubkey < e.createdAt) (rising : Rising r.graph e.pubkey e.createdAt g) :
    Honest b start { r with
      graph := g, skipAttempt := r.skipAttempt.insert e.pubkey
      processedEventIDs := r.processedEventIDs.insert e.id, log := (e,.failed) :: r.log } := by
  obtain ⟨stored,floor⟩ := honest.rise rising (.inl newer)
  refine ⟨rising.unique,fun entry member => ?_,fun f member => ?_,fun f member => ?_,fun after f before split => ?_,floor⟩
  · rcases List.mem_cons.mp member with rfl | earlier
    · exact .inr (List.mem_insert_self)
    · exact (honest.recorded entry earlier).imp_right List.mem_insert_of_mem
  · rcases List.mem_cons.mp member with here | earlier
    · cases here
    · exact honest.old f earlier
  · rcases List.mem_cons.mp member with here | earlier
    · cases here
    · exact stored f earlier
  · rcases cons_split split with ⟨_,here⟩ | ⟨rest,rfl,earlier⟩
    · cases here
      exact .inl (List.mem_insert_self)
    · rcases honest.failed rest f before earlier with skipped | ⟨later,member,own⟩
      · exact .inl (List.mem_insert_of_mem skipped)
      · exact .inr ⟨later,List.mem_cons_of_mem _ member,own⟩

theorem honest_stored (honest : Honest b start r) (newer : b.since e.pubkey < e.createdAt) (rising : Rising r.graph e.pubkey e.createdAt g)
    (written : known g e.pubkey ∧ e.createdAt ≤ stored g e.pubkey) : Honest b start {
      graph := g, hits := r.hits.insert e.pubkey, skipAttempt := r.skipAttempt.filter (· ≠ e.pubkey)
      processedEventIDs := r.processedEventIDs.insert e.id, log := (e,.stored) :: r.log } := by
  obtain ⟨stored,floor⟩ := honest.rise rising (.inl newer)
  have kept : ∀ pk, pk ≠ e.pubkey → pk ∈ r.skipAttempt → pk ∈ r.skipAttempt.filter (· ≠ e.pubkey) :=
    fun pk other member => List.mem_filter.mpr ⟨member,decide_eq_true other⟩
  refine ⟨rising.unique,fun entry member => ?_,fun f member => ?_,fun f member => ?_,fun after f before split => ?_,floor⟩
  · rcases List.mem_cons.mp member with rfl | earlier
    · exact .inl (List.mem_insert_self)
    · by_cases own : entry.1.pubkey = e.pubkey
      · rw [own]
        exact .inl (List.mem_insert_self)
      · exact (honest.recorded entry earlier).imp List.mem_insert_of_mem (kept _ own)
  · rcases List.mem_cons.mp member with here | earlier
    · cases here
    · exact honest.old f earlier
  · rcases List.mem_cons.mp member with here | earlier
    · cases here
      exact written
    · exact stored f earlier
  · rcases cons_split split with ⟨_,here⟩ | ⟨rest,rfl,earlier⟩
    · cases here
    · by_cases own : e.pubkey = f.pubkey
      · exact .inr ⟨_,List.mem_cons_self,own,rfl⟩
      · rcases honest.failed rest f before earlier with skipped | ⟨later,member,same⟩
        · exact .inl (kept _ (Ne.symm own) skipped)
        · exact .inr ⟨later,List.mem_cons_of_mem _ member,same⟩

theorem honest_handle (honest : Honest b start r) (handled : handle b a e r = (.ok (),next)) : Honest b start next := by
  unfold handle at handled
  split at handled
  · cases handled
    exact honest
  · split at handled
    · unfold processFetchedEvent at handled
      split at handled
      · rename_i old
        cases handled
        exact honest_old honest old a
      · rename_i newer
        have newer := not_le.mp newer
        obtain ⟨rising,returns⟩ := apply_rising honest.unique (a.call e)
        obtain ⟨applied,ok⟩ := update_applied a e r.graph
        generalize updateFollowsFromEvent a e r.graph = outcome at handled applied ok
        obtain ⟨reply,g⟩ := outcome
        change g = _ at applied
        rw [← applied] at rising returns
        cases reply with
        | error error =>
          dsimp only at handled
          split at handled
          · cases handled
            exact honest_failed honest newer rising
          · cases handled
        | ok _ =>
          cases handled
          exact honest_stored honest newer rising (returns (ok rfl))
    · cases handled
      exact honest
end Handle

-- The authors a query has yet to get an EOSE for.
def Stage.pending : Stage → List Str
  | .asking authors => authors
  | .subscribed chunk rest => chunk ++ rest
  | _ => []

-- The query ended with an error or a rejected probe.
def Stage.lapsed (stage : Stage) : Bool := stage.ending.any fun ending => decide (ending ≠ .eose)

structure Asked (b : Batch) (s : Dispatch) : Prop where
  covered : ∀ k ∈ s.launched, ∀ author ∈ b.authors, (∃ chunk, (k,chunk) ∈ s.answered ∧ author ∈ chunk) ∨
    author ∈ (s.stage k).pending ∨ (s.stage k).lapsed = true
  closed : s.closed = true → ∀ k ∈ s.launched, (s.stage k).isFinished = true
  left : s.mode = .returned .closed → s.closed = true

section Asked
variable {b : Batch} {s next : Dispatch} {action : Action} {k : Nat}

theorem enter_stage (s : Dispatch) (k j : Nat) (stage : Stage) : (s.enter k stage).stage j = if j = k then stage else s.stage j := by
  unfold Dispatch.enter
  dsimp only
  rw [Function.update_apply]

theorem asked_launch (b : Batch) (p : Pool) (g : Graph) : Asked b (launch b p g) where
  covered _ _ _ member := .inr (.inl member)
  closed := nofun
  left := nofun

-- A query that goes on to another stage, with what is answered by then.
theorem Asked.enter (asked : Asked b s) (stage : Stage) (answered : List (Nat × List Str)) (member : k ∈ s.launched)
    (running : (s.stage k).isFinished = false) (more : ∀ entry ∈ s.answered, entry ∈ answered)
    (goes : ∀ author, author ∈ (s.stage k).pending ∨ (s.stage k).lapsed = true →
      (∃ chunk, (k,chunk) ∈ answered ∧ author ∈ chunk) ∨ author ∈ stage.pending ∨ stage.lapsed = true) :
    (∀ j ∈ s.launched, ∀ author ∈ b.authors, (∃ chunk, (j,chunk) ∈ answered ∧ author ∈ chunk) ∨
      author ∈ ((s.enter k stage).stage j).pending ∨ ((s.enter k stage).stage j).lapsed = true) ∧
    (s.closed = true → ∀ j ∈ s.launched, ((s.enter k stage).stage j).isFinished = true) := by
  constructor
  · intro j there author wanted
    rw [enter_stage]
    rcases asked.covered j there author wanted with ⟨chunk,old,inside⟩ | waiting
    · exact .inl ⟨chunk,more _ old,inside⟩
    · split
      · rename_i own
        rw [own] at waiting ⊢
        exact goes author waiting
      · exact .inr waiting
  · intro closed
    have finished := asked.closed closed k member
    rw [running] at finished
    cases finished

theorem asked_step (asked : Asked b s) (moved : step b s action = some next) : Asked b next := by
  have left : s.mode = .returned .closed → s.closed = true := fun same => absurd same (step_running moved .closed)
  have same : ∀ entry ∈ s.answered, entry ∈ s.answered := fun _ => id
  cases step_moved moved with
  | subscribe k size author authors member here =>
    obtain ⟨covered,closed⟩ := asked.enter (.subscribed ((author :: authors).take size) ((author :: authors).drop size)) s.answered
        member (by rw [here]; rfl) same fun a waiting => .inr (.inl (by
      rw [here] at waiting
      rcases waiting with inside | lapsed
      · change a ∈ (author :: authors).take size ++ (author :: authors).drop size
        rw [List.take_append_drop]
        exact inside
      · cases lapsed))
    exact ⟨covered,closed,left⟩
  | send k e => exact ⟨asked.covered,asked.closed,left⟩
  | eose k chunk rest member here =>
    obtain ⟨covered,closed⟩ := asked.enter (.asking rest) ((k,chunk) :: s.answered) member (by rw [here]; rfl)
      (fun _ => List.mem_cons_of_mem _) fun a waiting => by
        rw [here] at waiting
        rcases waiting with inside | lapsed
        · rcases List.mem_append.mp inside with now | later
          · exact .inl ⟨chunk,List.mem_cons_self,now⟩
          · exact .inr (.inl later)
        · cases lapsed
    exact ⟨covered,closed,left⟩
  | exhaust k member here =>
    obtain ⟨covered,closed⟩ := asked.enter (.returned .eose) s.answered member (by rw [here]; rfl) same fun a waiting => by
      rw [here] at waiting
      rcases waiting with inside | lapsed
      · cases inside
      · cases lapsed
    exact ⟨covered,closed,left⟩
  | rejectProbe k member here =>
    have running : (s.stage k).isFinished = false := by
      generalize s.stage k = stage at here
      cases stage with
      | finished _ => cases here
      | _ => rfl
    obtain ⟨covered,closed⟩ := asked.enter (.returned .rejected) s.answered member running same fun a _ => .inr (.inr rfl)
    exact ⟨covered,closed,left⟩
  | fail k e member here =>
    have running : (s.stage k).isFinished = false := by
      generalize s.stage k = stage at here
      cases stage with
      | finished _ => cases here
      | _ => rfl
    obtain ⟨covered,closed⟩ := asked.enter (.returned (.failed e)) s.answered member running same fun a _ => .inr (.inr rfl)
    exact ⟨covered,closed,left⟩
  | stamp k ending member here =>
    obtain ⟨covered,closed⟩ := asked.enter (.stamped ending) s.answered member (by rw [here]; rfl) same fun a waiting => by
      rw [here] at waiting
      exact .inr waiting
    exact ⟨covered,closed,left⟩
  | reportError k e member here =>
    obtain ⟨covered,closed⟩ := asked.enter (.reported (.failed e)) s.answered member (by rw [here]; rfl) same fun a waiting => by
      rw [here] at waiting
      exact .inr waiting
    exact ⟨covered,closed,left⟩
  | reportDone k ending member here _ =>
    obtain ⟨covered,closed⟩ := asked.enter (.reported ending) s.answered member (by rw [here]; rfl) same fun a waiting => by
      rw [here] at waiting
      exact .inr waiting
    exact ⟨covered,closed,left⟩
  | finish k ending member here =>
    obtain ⟨covered,closed⟩ := asked.enter (.finished ending) s.answered member (by rw [here]; rfl) same fun a waiting => by
      rw [here] at waiting
      exact .inr waiting
    exact ⟨covered,closed,left⟩
  | close finished => exact ⟨asked.covered,fun _ => finished,fun same => absurd same (step_running moved .closed)⟩
  | deadline => exact ⟨asked.covered,asked.closed,left⟩
  | cancel => exact ⟨asked.covered,asked.closed,left⟩
  | receive a e rest results _ _ => exact ⟨asked.covered,asked.closed,left⟩
  | abort a rest error results => exact ⟨asked.covered,asked.closed,nofun⟩
  | passOver k e rest _ _ => exact ⟨asked.covered,asked.closed,left⟩
  | markDead k e rest _ _ => exact ⟨asked.covered,asked.closed,left⟩
  | wake late stop _ => exact ⟨asked.covered,asked.closed,nofun⟩
  | leaveClosed _ closed => exact ⟨asked.covered,asked.closed,fun _ => closed⟩
  | leaveCancelled => exact ⟨asked.covered,asked.closed,nofun⟩
  | drained budgetExhausted _ =>
    unfold leave
    dsimp only
    split
    · exact ⟨asked.covered,asked.closed,nofun⟩
    · exact ⟨asked.covered,asked.closed,nofun⟩

theorem leave_results (b : Batch) (budgetExhausted : Bool) (s : Dispatch) : (leave b budgetExhausted s).results = s.results := by
  unfold leave
  dsimp only
  split
  · rfl
  · rfl
end Asked

theorem honest_step {b : Batch} {start : Graph} {s next : Dispatch} {action : Action} (honest : Honest b start s.results)
    (moved : step b s action = some next) (alive : ∀ error, next.mode ≠ .returned (.failed error)) : Honest b start next.results := by
  cases step_moved moved with
  | receive a e rest results _ handled => exact honest_handle honest handled
  | abort a rest error results => exact absurd rfl (alive error)
  | drained budgetExhausted _ =>
    rw [leave_results]
    exact honest
  | _ => exact honest

theorem batch_invariant {b : Batch} {p : Pool} {g : Graph} {s : Dispatch} (unique : Unique g)
    (path : Machine.Reached (step b) (fun _ _ => True) (launch b p g) s) :
    Asked b s ∧ ((∀ error, s.mode ≠ .returned (.failed error)) → Honest b g s.results) := by
  induction path with
  | refl => exact ⟨asked_launch b p g,fun _ => honest_start unique⟩
  | @step s next action _ _ moved ih =>
    exact ⟨asked_step ih.1 moved,fun alive => honest_step (ih.2 fun error => step_running moved (.failed error)) moved alive⟩

-- A batch that ends without an error, whatever the relays sent, the store answered and the dispatcher picked first.
-- A hit that is not skipped is at least as new in the store as every event handed over for it, but for one whose write
-- failed transiently before another write of its author succeeded; an author in neither set had no event, and unless the
-- batch was cut short some relay answered for it or every query ended in an error or a rejected probe.
theorem batch_results {b : Batch} {p : Pool} {g : Graph} {s : Dispatch} (unique : Unique g)
    (path : Machine.Reached (step b) (fun _ _ => True) (launch b p g) s)
    (returned : s.mode = .returned .closed ∨ s.mode = .returned .stopped) :
    (∀ pk ∈ s.results.hits, pk ∉ s.results.skipAttempt → b.since pk ≤ stored g pk →
      ∀ after e handling before, s.results.log = after ++ (e,handling) :: before → e.pubkey = pk →
        e.createdAt ≤ stored s.results.graph pk ∨
          handling = .failed ∧ ∃ later ∈ after, later.1.pubkey = pk ∧ later.2 = .stored) ∧
    ∀ pk ∈ b.authors, pk ∉ s.results.hits → pk ∉ s.results.skipAttempt →
      (∀ entry ∈ s.results.log, entry.1.pubkey ≠ pk) ∧
      (s.mode = .returned .closed → (∃ k chunk, (k,chunk) ∈ s.answered ∧ pk ∈ chunk) ∨ ∀ k ∈ s.launched, (s.stage k).lapsed = true) := by
  obtain ⟨asked,honest⟩ := batch_invariant unique path
  have honest := honest fun error same => by
    rcases returned with closed | stopped
    · rw [closed] at same
      cases same
    · rw [stopped] at same
      cases same
  refine ⟨fun pk _ unskipped promised after e handling before split own => ?_,fun pk wanted unhit unskipped => ⟨fun entry member own => ?_,
    fun closed => ?_⟩⟩
  · have member : (e,handling) ∈ s.results.log := by
      rw [split]
      exact List.mem_append_right _ List.mem_cons_self
    cases handling with
    | old =>
      have bound := honest.old e member
      rw [own] at bound
      exact .inl (bound.trans (honest.floor pk promised))
    | stored =>
      have bound := (honest.stored e member).2
      rw [own] at bound
      exact .inl bound
    | failed =>
      rcases honest.failed after e before split with skipped | later
      · rw [own] at skipped
        exact absurd skipped unskipped
      · rw [own] at later
        exact .inr ⟨rfl,later⟩
  · rcases honest.recorded entry member with hit | skipped
    · rw [own] at hit
      exact unhit hit
    · rw [own] at skipped
      exact unskipped skipped
  · by_cases lapsed : ∀ k ∈ s.launched, (s.stage k).lapsed = true
    · exact .inr lapsed
    · push Not at lapsed
      obtain ⟨k,member,answered⟩ := lapsed
      have finished := asked.closed (asked.left closed) k member
      rcases asked.covered k member pk wanted with ⟨chunk,eose,inside⟩ | waiting | lapsed
      · exact .inl ⟨k,chunk,eose,inside⟩
      · generalize s.stage k = stage at finished waiting
        cases stage with
        | finished ending => cases waiting
        | _ => cases finished
      · exact absurd lapsed answered

section Samples

def twoAuthors : Batch where
  pubkeys := (∅ : Table Str Int).insert bob 0 |>.insert alice 0
  url _ := Bytes.text "wss://one"
  ejectionThresholds _ := 10
  quorumReached _ _ := false

def oneRelay : Pool := ⟨[0],by decide,fun _ => true,fun _ _ => 0⟩

def noRelay : Pool := ⟨[],by decide,fun _ => false,fun _ _ => 0⟩

def fine : Answer := ⟨fun _ _ => none,nextUid,0,none,none,.done⟩

def busy : Answer :=
  { fine with fault := fun phase _ => if phase = .commitTransaction then some ⟨some .Unavailable,Bytes.text "unavailable"⟩ else none }

def aliceOlder : Event := ⟨[1],alice,10,[carol],true⟩

def aliceNewer : Event := ⟨[2],alice,20,[bob],true⟩

def querying : List Action := [.subscribe 0 2,.send 0 aliceNewer,.send 0 aliceOlder,.eose 0,.exhaust 0,.stamp 0,.report 0,.finish 0,.close]

-- The newer event fails transiently, the older one is stored and takes its author out of the skipped ones; and a batch
-- without a live relay returns as well, with every author a miss.
theorem batch_results_fails :
    (∃ s, Machine.Reached (step twoAuthors) (fun _ _ => True) (launch twoAuthors oneRelay .empty) s ∧ s.mode = .returned .closed ∧
      alice ∈ s.results.hits ∧ alice ∉ s.results.skipAttempt ∧
      aliceNewer ∈ s.results.log.map (·.1) ∧ aliceNewer.signed = true ∧ stored s.results.graph alice < aliceNewer.createdAt) ∧
    ∃ s, Machine.Reached (step twoAuthors) (fun _ _ => True) (launch twoAuthors noRelay .empty) s ∧ s.mode = .returned .closed ∧
      alice ∈ twoAuthors.authors ∧ alice ∉ s.results.hits ∧ alice ∉ s.results.skipAttempt ∧ s.answered = [] := by
  obtain ⟨s,path,found⟩ := Machine.replay_final (step twoAuthors) (fun _ _ => True) (launch twoAuthors oneRelay .empty)
    (querying ++ [.receive busy,.receive fine,.leaveClosed])
    (fun s => decide (s.mode = .returned .closed ∧ alice ∈ s.results.hits ∧ alice ∉ s.results.skipAttempt ∧
      aliceNewer ∈ s.results.log.map (·.1) ∧ aliceNewer.signed = true ∧ stored s.results.graph alice < aliceNewer.createdAt))
    (by decide +kernel) (by decide +kernel)
  obtain ⟨t,idle,missed⟩ := Machine.replay_final (step twoAuthors) (fun _ _ => True) (launch twoAuthors noRelay .empty)
    [.close,.leaveClosed]
    (fun s => decide (s.mode = .returned .closed ∧ alice ∈ twoAuthors.authors ∧ alice ∉ s.results.hits ∧
      alice ∉ s.results.skipAttempt ∧ s.answered = [])) (by decide +kernel) (by decide +kernel)
  exact ⟨⟨s,path,of_decide_eq_true found⟩,t,idle,of_decide_eq_true missed⟩

-- The newer version is stored and the older one passes as known; the other author is answered for without an event.
theorem batch_results_sample : ∃ s,
    Machine.Reached (step twoAuthors) (fun _ _ => True) (launch twoAuthors oneRelay .empty) s ∧ s.mode = .returned .closed ∧
    aliceNewer.createdAt ≤ stored s.results.graph alice ∧
    ((∃ k chunk, (k,chunk) ∈ s.answered ∧ bob ∈ chunk) ∨ ∀ k ∈ s.launched, (s.stage k).lapsed = true) := by
  obtain ⟨s,path,found⟩ := Machine.replay_final (step twoAuthors) (fun _ _ => True) (launch twoAuthors oneRelay .empty)
    (querying ++ [.receive fine,.receive fine,.leaveClosed])
    (fun s => decide (s.mode = .returned .closed ∧ alice ∈ s.results.hits ∧ alice ∉ s.results.skipAttempt ∧
      s.results.log = [(aliceOlder,.stored)] ++ (aliceNewer,.stored) :: [] ∧
      bob ∈ twoAuthors.authors ∧ bob ∉ s.results.hits ∧ bob ∉ s.results.skipAttempt)) (by decide +kernel) (by decide +kernel)
  obtain ⟨closed,hit,unskipped,log,wanted,unhit,bystander⟩ := of_decide_eq_true found
  obtain ⟨newest,misses⟩ := batch_results empty_consistent.unique path (.inl closed)
  refine ⟨s,path,closed,?_,(misses bob wanted unhit bystander).2 closed⟩
  rcases newest alice hit unskipped (by decide +kernel) _ _ _ _ log rfl with bound | ⟨failed,_⟩
  · exact bound
  · cases failed
end Samples

end DeepFry.WebOfTrust
