import DeepFry.Rescue.Forward

namespace DeepFry.Rescue.Forward
open Machine

-- What becomes of every event: the lanes are the dispatcher's hands and the workers'.
def Dispatcher.events : Dispatcher → List RawEvent
  | .offering events _ => events
  | .givingUp events _ => events
  | _ => []

def Dispatcher.todo : Dispatcher → List (Bytes × List RawEvent)
  | .ranging todo => todo
  | .offering _ todo => todo
  | .givingUp _ todo => todo
  | .closed => []

def Worker.events : Worker → List RawEvent
  | .unconnected events => events
  | .serving events => events
  | .publishing raw rest => raw :: rest
  | .recording _ _ rest => rest
  | _ => []

-- Published, and not yet in either list.
def Worker.noted : Worker → Multiset Bytes
  | .recording _ raw _ => {raw.id}
  | _ => 0

section Outcome

variable {k : Nat}

def held (s : State k) : Option (Fin k) → List RawEvent
  | none => s.dispatcher.events
  | some i => (s.workers i).events

def lanes (s : State k) (out : List RawEvent) : Lanes (Option (Fin k)) RawEvent :=
  ⟨s.dispatcher.todo.map Prod.snd,held s,out⟩

-- The event that a step takes out of its lane, to publish it or to fail it.
def dropped (s : State k) : Action k → List RawEvent
  | .giveUp => s.dispatcher.events.take 1
  | .failOne i => (s.workers i).events.take 1
  | .stop i => (s.workers i).events.take 1
  | .decode i false => (s.workers i).events.take 1
  | .publish i _ _ => (s.workers i).events.take 1
  | _ => []

theorem held_enter (s : State k) (i : Fin k) (worker : Worker) :
    held (s.enter i worker) = Function.update (held s) (some i) worker.events := by
  funext place
  cases place with
  | none => rfl
  | some j =>
    by_cases same : j = i
    · subst same
      simp [held,State.enter]
    · have apart : some j ≠ some i := fun equal => same (Option.some.inj equal)
      rw [Function.update_of_ne apart]
      simp [held,State.enter,same]

theorem held_dispatcher (s : State k) (dispatcher : Dispatcher) :
    held {s with dispatcher := dispatcher} = Function.update (held s) none dispatcher.events := by
  funext place
  cases place with
  | none => rfl
  | some j => rfl

-- A step of one worker leaves the lanes as they were when it holds the same events after it.
theorem lanes_enter {s : State k} {i : Fin k} {worker : Worker} (same : worker.events = (s.workers i).events)
    (out : List RawEvent) : lanes (s.enter i worker) out = lanes s out := by
  unfold lanes
  rw [held_enter,same]
  have own : Function.update (held s) (some i) (s.workers i).events = held s := Function.update_eq_self (some i) (held s)
  rw [own]
  rfl

theorem lanes_dispatcher {s : State k} {dispatcher : Dispatcher} (events : dispatcher.events = s.dispatcher.events)
    (todo : dispatcher.todo = s.dispatcher.todo) (out : List RawEvent) :
    lanes {s with dispatcher := dispatcher} out = lanes s out := by
  unfold lanes
  rw [held_dispatcher,events]
  have own : Function.update (held s) none s.dispatcher.events = held s := Function.update_eq_self none (held s)
  rw [own]
  dsimp only
  rw [todo]

theorem lanes_drop (s : State k) (i : Fin k) (worker : Worker) (event : RawEvent) (out : List RawEvent) :
    lanes (s.enter i worker) (out ++ [event]) = (lanes s out).drop (some i) event worker.events := by
  unfold lanes Lanes.drop
  rw [held_enter]
  rfl

-- The events of a pubkey are in one lane, oldest first, and all the events are somewhere.
structure Kept (all : Multiset RawEvent) (s : State k) (out : List RawEvent) : Prop where
  ordered : Lanes.Ordered RawEvent.pubkey (fun a b => a.createdAt ≤ b.createdAt) (lanes s out)
  everything : (lanes s out).everything = all

section Steps

variable {all : Multiset RawEvent} {s next : State k} {action : Action k} {out : List RawEvent}

theorem Kept.idle (kept : Kept all s out) (none : dropped s action = []) (same : lanes next out = lanes s out) :
    Kept all next (out ++ dropped s action) := by
  rw [none,List.append_nil]
  refine ⟨?_,?_⟩
  · rw [same]
    exact kept.ordered
  · rw [same]
    exact kept.everything

theorem Kept.drop (kept : Kept all s out) (place : Option (Fin k)) {event : RawEvent} {rest : List RawEvent}
    (first : held s place = event :: rest) (one : dropped s action = [event])
    (same : lanes next (out ++ [event]) = (lanes s out).drop place event rest) :
    Kept all next (out ++ dropped s action) := by
  rw [one]
  refine ⟨?_,?_⟩
  · rw [same]
    exact Lanes.drop_ordered kept.ordered first
  · rw [same,Lanes.drop_everything first]
    exact kept.everything

-- A worker's first event leaves its lane.
theorem Kept.drop_worker (kept : Kept all s out) {i : Fin k} (worker : Worker) {event : RawEvent}
    (first : (s.workers i).events = event :: worker.events) (one : dropped s action = (s.workers i).events.take 1)
    (same : ∀ out, lanes next out = lanes (s.enter i worker) out) : Kept all next (out ++ dropped s action) := by
  rw [first,List.take_succ_cons,List.take_zero] at one
  apply kept.drop (some i) first one
  rw [same,lanes_drop]

theorem Kept.hand (kept : Kept all s out) {i : Fin k} (free : held s (some i) = [])
    (same : lanes next out = (lanes s out).hand none (some i)) : Kept all next out := by
  refine ⟨?_,?_⟩
  · rw [same]
    exact Lanes.hand_ordered kept.ordered none (some i)
  · rw [same,Lanes.hand_everything (Option.some_ne_none i) free]
    exact kept.everything

theorem sortOldestFirst_perm (events : List RawEvent) : (sortOldestFirst events).Perm events :=
  List.mergeSort_perm events _

theorem sortOldestFirst_sorted (events : List RawEvent) :
    (sortOldestFirst events).Pairwise fun a b => a.createdAt ≤ b.createdAt := by
  have sorted := @List.pairwise_mergeSort RawEvent (fun a b => a.createdAt ≤ b.createdAt)
    (fun a b c first second => by simp only [decide_eq_true_eq] at first second ⊢; omega)
    (fun a b => by simp only [Bool.or_eq_true,decide_eq_true_eq]; omega) events
  unfold sortOldestFirst
  simpa using sorted

theorem moved_kept (kept : Kept all s out) (moved : Moved s action next) : Kept all next (out ++ dropped s action) := by
  cases moved with
  | cancel _ => exact kept.idle rfl rfl
  | @next pubkey events todo ranging =>
    have queue : (lanes s out).todo = events :: todo.map Prod.snd := by simp [lanes,ranging,Dispatcher.todo]
    have free : (lanes s out).held none = [] := by simp [lanes,held,ranging,Dispatcher.events]
    have same : lanes {s with dispatcher := .offering (sortOldestFirst events) todo} out =
        (lanes s out).take none (sortOldestFirst events) (todo.map Prod.snd) := by
      unfold lanes Lanes.take
      rw [held_dispatcher]
      rfl
    have nothing : out ++ dropped s .next = out := List.append_nil out
    rw [nothing]
    refine ⟨?_,?_⟩
    · rw [same]
      exact Lanes.take_ordered kept.ordered queue (sortOldestFirst_perm events) (sortOldestFirst_sorted events)
    · rw [same,Lanes.take_everything queue free (sortOldestFirst_perm events)]
      exact kept.everything
  | @serve i events todo offering idle | @drain i events todo offering idle =>
    have nothing : out ++ dropped s (.send i) = out := List.append_nil out
    rw [nothing]
    apply kept.hand (i := i) (by simp [held,idle,Worker.events])
    unfold lanes Lanes.hand
    rw [held_enter,held_dispatcher]
    simp [held,offering,Dispatcher.todo,Dispatcher.events,Worker.events,State.enter]
  | abandon offering _ => exact kept.idle rfl (lanes_dispatcher (by rw [offering]; rfl) (by rw [offering]; rfl) out)
  | @giveUp event rest todo giving =>
    have first : held s none = event :: rest := by simp [held,giving,Dispatcher.events]
    apply kept.drop none first (by simp [dropped,giving,Dispatcher.events])
    have same : lanes ({s with dispatcher := .givingUp rest todo}.fail event) (out ++ [event]) =
        lanes {s with dispatcher := .givingUp rest todo} (out ++ [event]) := rfl
    rw [same]
    unfold lanes Lanes.drop
    rw [held_dispatcher]
    simp [giving,Dispatcher.todo,Dispatcher.events]
  | resume giving => exact kept.idle rfl (lanes_dispatcher (by rw [giving]; rfl) (by rw [giving]; rfl) out)
  | close ranging => exact kept.idle rfl (lanes_dispatcher (by rw [ranging]; rfl) (by rw [ranging]; rfl) out)
  | @connect i ok connecting => exact kept.idle rfl (lanes_enter (by rw [connecting]; cases ok <;> rfl) out)
  | @failOne i event rest draining =>
    exact kept.drop_worker (.unconnected rest) (by rw [draining]; rfl) rfl fun _ => rfl
  | @stop i raw rest serving _ =>
    exact kept.drop_worker (.serving rest) (by rw [serving]; rfl) rfl fun _ => rfl
  | decoded serving _ => exact kept.idle rfl (lanes_enter (by rw [serving]; rfl) out)
  | @undecoded i raw rest serving _ =>
    exact kept.drop_worker (.serving rest) (by rw [serving]; rfl) rfl fun _ => rfl
  | @publish i accepted ok raw rest publishing =>
    exact kept.drop_worker (.recording ok raw rest) (by rw [publishing]; rfl) rfl fun _ => rfl
  | @succeed i raw rest recording =>
    have same : lanes (s.enter i (.serving rest)) out = lanes s out := lanes_enter (by rw [recording]; rfl) out
    exact kept.idle rfl same
  | @reject i raw rest recording =>
    have same : lanes (s.enter i (.serving rest)) out = lanes s out := lanes_enter (by rw [recording]; rfl) out
    exact kept.idle rfl same
  | leave _ idle => obtain idle | idle := idle <;> exact kept.idle rfl (lanes_enter (by rw [idle]; rfl) out)

-- Every event out of its lane is in one of the lists, or about to be entered in one.
def Counted (s : State k) (out : List RawEvent) : Prop :=
  (out.map RawEvent.id : Multiset Bytes) = s.success + s.failed + ∑ i, (s.workers i).noted

theorem noted_enter (s : State k) (i : Fin k) (worker : Worker) :
    ∑ j, ((s.enter i worker).workers j).noted + (s.workers i).noted = ∑ j, (s.workers j).noted + worker.noted :=
  Lanes.sum_update Worker.noted s.workers i worker

-- A step of one worker that notes no more and no less than before.
theorem noted_same {i : Fin k} {worker : Worker} (same : worker.noted = (s.workers i).noted) :
    ∑ j, ((s.enter i worker).workers j).noted = ∑ j, (s.workers j).noted := by
  have moved := noted_enter s i worker
  rw [same] at moved
  exact add_right_cancel moved

theorem noted_gain {i : Fin k} {worker : Worker} {id : Bytes} (before : (s.workers i).noted = 0)
    (after : worker.noted = {id}) :
    ∑ j, ((s.enter i worker).workers j).noted = ∑ j, (s.workers j).noted + {id} := by
  have moved := noted_enter s i worker
  rwa [before,after,add_zero] at moved

theorem noted_loss {i : Fin k} {worker : Worker} {id : Bytes} (before : (s.workers i).noted = {id})
    (after : worker.noted = 0) :
    ∑ j, (s.workers j).noted = ∑ j, ((s.enter i worker).workers j).noted + {id} := by
  have moved := noted_enter s i worker
  rw [before,after,add_zero] at moved
  exact moved.symm

theorem Counted.fail (counted : Counted s out) {event : RawEvent} (one : dropped s action = [event])
    (success : next.success = s.success) (failed : next.failed = s.failed ++ [event.id])
    (noted : ∑ i, (next.workers i).noted = ∑ i, (s.workers i).noted) : Counted next (out ++ dropped s action) := by
  unfold Counted at counted ⊢
  rw [one,List.map_append,← Multiset.coe_add,counted,success,failed,noted,← Multiset.coe_add]
  simp only [List.map_cons,List.map_nil]
  abel

theorem Counted.idle (counted : Counted s out) (none : dropped s action = []) (success : next.success = s.success)
    (failed : next.failed = s.failed) (noted : ∑ i, (next.workers i).noted = ∑ i, (s.workers i).noted) :
    Counted next (out ++ dropped s action) := by
  unfold Counted at counted ⊢
  rw [none,List.append_nil,counted,success,failed,noted]

theorem moved_counted (counted : Counted s out) (moved : Moved s action next) :
    Counted next (out ++ dropped s action) := by
  cases moved with
  | cancel _ => exact counted.idle rfl rfl rfl rfl
  | next _ => exact counted.idle rfl rfl rfl rfl
  | serve _ idle => exact counted.idle rfl rfl rfl (noted_same (by rw [idle]; rfl))
  | drain _ idle => exact counted.idle rfl rfl rfl (noted_same (by rw [idle]; rfl))
  | abandon _ _ => exact counted.idle rfl rfl rfl rfl
  | giveUp giving => exact counted.fail (by simp [dropped,giving,Dispatcher.events]) rfl rfl rfl
  | resume _ => exact counted.idle rfl rfl rfl rfl
  | close _ => exact counted.idle rfl rfl rfl rfl
  | @connect i ok connecting =>
    exact counted.idle rfl rfl rfl (noted_same (by rw [connecting]; cases ok <;> rfl))
  | failOne draining =>
    exact counted.fail (by simp [dropped,draining,Worker.events]) rfl rfl (noted_same (by rw [draining]; rfl))
  | stop serving _ =>
    exact counted.fail (by simp [dropped,serving,Worker.events]) rfl rfl (noted_same (by rw [serving]; rfl))
  | decoded serving _ => exact counted.idle rfl rfl rfl (noted_same (by rw [serving]; rfl))
  | undecoded serving _ =>
    exact counted.fail (by simp [dropped,serving,Worker.events]) rfl rfl (noted_same (by rw [serving]; rfl))
  | @publish i accepted ok raw rest publishing =>
    have noted := @noted_gain k s i (.recording ok raw rest) raw.id (by rw [publishing]; rfl) rfl
    have one : dropped s (.publish i accepted ok) = [raw] := by simp [dropped,publishing,Worker.events]
    unfold Counted at counted ⊢
    rw [one,List.map_append,← Multiset.coe_add,counted]
    change _ = _ + _ + ∑ j, ((s.enter i (.recording ok raw rest)).workers j).noted
    rw [noted]
    simp only [List.map_cons,List.map_nil,Multiset.coe_singleton,State.enter]
    abel
  | @succeed i raw rest recording =>
    have noted := @noted_loss k s i (.serving rest) raw.id (by rw [recording]; rfl) rfl
    have nothing : out ++ dropped s (.record i) = out := List.append_nil out
    unfold Counted at counted ⊢
    rw [nothing,counted,noted]
    simp only [← Multiset.coe_add,Multiset.coe_singleton,State.enter]
    abel
  | @reject i raw rest recording =>
    have noted := @noted_loss k s i (.serving rest) raw.id (by rw [recording]; rfl) rfl
    have nothing : out ++ dropped s (.record i) = out := List.append_nil out
    unfold Counted at counted ⊢
    rw [nothing,counted,noted]
    simp only [← Multiset.coe_add,Multiset.coe_singleton,State.enter,State.fail]
    abel
  | leave _ idle =>
    obtain idle | idle := idle <;> exact counted.idle rfl rfl rfl (noted_same (by rw [idle]; rfl))

-- What the lists may be trusted for: a success was accepted, and what is published keeps the order of the lanes.
structure Trusted (s : State k) (out : List RawEvent) : Prop where
  published : s.published.Sublist out
  accepted : s.accepted.Sublist s.published
  recording : ∀ i raw rest, s.workers i = .recording true raw rest → raw ∈ s.accepted
  success : ∀ id ∈ s.success, ∃ raw ∈ s.accepted, raw.id = id
  returned : ∀ i, s.workers i = .returned → s.dispatcher = .closed

theorem enter_worker {i j : Fin k} {worker found : Worker} (there : (s.enter i worker).workers j = found) :
    (j = i ∧ worker = found) ∨ (j ≠ i ∧ s.workers j = found) := by
  simp only [State.enter] at there
  by_cases same : j = i
  · subst same
    rw [Function.update_self] at there
    exact .inl ⟨rfl,there⟩
  · rw [Function.update_of_ne same] at there
    exact .inr ⟨same,there⟩

-- A step that publishes nothing, and after which no worker has a new success to record.
theorem Trusted.idle (trusted : Trusted s out) (published : next.published = s.published)
    (accepted : next.accepted = s.accepted) (success : next.success = s.success)
    (recording : ∀ i raw rest, next.workers i = .recording true raw rest → s.workers i = .recording true raw rest)
    (returned : ∀ i, next.workers i = .returned → next.dispatcher = .closed) :
    Trusted next (out ++ dropped s action) := by
  refine ⟨?_,?_,?_,?_,returned⟩
  · rw [published]
    exact trusted.published.trans (List.sublist_append_left _ _)
  · rw [accepted,published]
    exact trusted.accepted
  · intro i raw rest there
    rw [accepted]
    exact trusted.recording i raw rest (recording i raw rest there)
  · rw [success,accepted]
    exact trusted.success

-- The same, for a step of one worker.
theorem Trusted.enter (trusted : Trusted s out) {i : Fin k} {worker : Worker} (calm : worker.noted = 0)
    (left : worker = .returned → next.dispatcher = .closed) (published : next.published = s.published)
    (accepted : next.accepted = s.accepted) (success : next.success = s.success)
    (dispatcher : s.dispatcher = .closed → next.dispatcher = .closed)
    (workers : next.workers = (s.enter i worker).workers) : Trusted next (out ++ dropped s action) := by
  apply trusted.idle published accepted success
  · intro j raw rest there
    rw [workers] at there
    obtain ⟨_,same⟩ | ⟨_,there⟩ := enter_worker there
    · rw [same] at calm
      exact absurd calm (Multiset.singleton_ne_zero raw.id)
    · exact there
  · intro j there
    rw [workers] at there
    obtain ⟨_,same⟩ | ⟨_,there⟩ := enter_worker there
    · exact left same
    · exact dispatcher (trusted.returned j there)

theorem moved_trusted (trusted : Trusted s out) (allowed : honest s action) (moved : Moved s action next) :
    Trusted next (out ++ dropped s action) := by
  have returned := trusted.returned
  cases moved with
  | cancel _ => exact trusted.idle rfl rfl rfl (fun _ _ _ there => there) returned
  | next ranging =>
    refine trusted.idle rfl rfl rfl (fun _ _ _ there => there) ?_
    intro i there
    exact absurd ((returned i there).symm.trans ranging) Dispatcher.noConfusion
  | serve offering _ =>
    refine trusted.enter rfl Worker.noConfusion rfl rfl rfl ?_ rfl
    intro closed
    exact absurd (offering.symm.trans closed) Dispatcher.noConfusion
  | drain offering _ =>
    refine trusted.enter rfl Worker.noConfusion rfl rfl rfl ?_ rfl
    intro closed
    exact absurd (offering.symm.trans closed) Dispatcher.noConfusion
  | abandon offering _ =>
    refine trusted.idle rfl rfl rfl (fun _ _ _ there => there) ?_
    intro i there
    exact absurd ((returned i there).symm.trans offering) Dispatcher.noConfusion
  | giveUp giving =>
    refine trusted.idle rfl rfl rfl (fun _ _ _ there => there) ?_
    intro i there
    exact absurd ((returned i there).symm.trans giving) Dispatcher.noConfusion
  | resume giving =>
    refine trusted.idle rfl rfl rfl (fun _ _ _ there => there) ?_
    intro i there
    exact absurd ((returned i there).symm.trans giving) Dispatcher.noConfusion
  | close _ => exact trusted.idle rfl rfl rfl (fun _ _ _ there => there) fun _ _ => rfl
  | @connect i ok _ =>
    cases ok with
    | true => exact trusted.enter rfl Worker.noConfusion rfl rfl rfl id rfl
    | false => exact trusted.enter rfl Worker.noConfusion rfl rfl rfl id rfl
  | failOne _ => exact trusted.enter rfl Worker.noConfusion rfl rfl rfl id rfl
  | stop _ _ => exact trusted.enter rfl Worker.noConfusion rfl rfl rfl id rfl
  | decoded _ _ => exact trusted.enter rfl Worker.noConfusion rfl rfl rfl id rfl
  | undecoded _ _ => exact trusted.enter rfl Worker.noConfusion rfl rfl rfl id rfl
  | reject _ => exact trusted.enter rfl Worker.noConfusion rfl rfl rfl id rfl
  | leave closed _ => exact trusted.enter rfl (fun _ => closed) rfl rfl rfl id rfl
  | @publish i accepted ok raw rest publishing =>
    have one : dropped s (.publish i accepted ok) = [raw] := by simp [dropped,publishing,Worker.events]
    rw [one]
    refine ⟨trusted.published.append (List.Sublist.refl _),?_,?_,?_,?_⟩
    · dsimp only
      split
      · exact trusted.accepted.append (List.Sublist.refl _)
      · exact trusted.accepted.trans (List.sublist_append_left _ _)
    · intro j event others there
      obtain ⟨_,same⟩ | ⟨_,there⟩ := enter_worker there
      · cases same
        have taken : accepted = true := allowed rfl
        dsimp only
        rw [if_pos taken]
        exact List.mem_append_right _ (List.mem_singleton_self raw)
      · have before := trusted.recording j event others there
        dsimp only
        split
        · exact List.mem_append_left _ before
        · exact before
    · intro id member
      obtain ⟨event,there,same⟩ := trusted.success id member
      refine ⟨event,?_,same⟩
      dsimp only
      split
      · exact List.mem_append_left _ there
      · exact there
    · intro j there
      obtain ⟨_,same⟩ | ⟨_,there⟩ := enter_worker there
      · cases same
      · exact returned j there
  | @succeed i raw rest recording =>
    refine ⟨trusted.published.trans (List.sublist_append_left _ _),trusted.accepted,?_,?_,?_⟩
    · intro j event others there
      obtain ⟨_,same⟩ | ⟨_,there⟩ := enter_worker there
      · cases same
      · exact trusted.recording j event others there
    · intro id member
      obtain member | last := List.mem_append.mp member
      · exact trusted.success id member
      · exact ⟨raw,trusted.recording i raw rest recording,(List.mem_singleton.mp last).symm⟩
    · intro j there
      obtain ⟨_,same⟩ | ⟨_,there⟩ := enter_worker there
      · cases same
      · exact returned j there

end Steps

-- The batches of the groups, each of one pubkey of its own.
def batches (eventsByPubkey : List (Bytes × List RawEvent)) : List (List RawEvent) := eventsByPubkey.map Prod.snd

theorem mem_batches {eventsByPubkey : List (Bytes × List RawEvent)} {event : RawEvent} :
    event ∈ (batches eventsByPubkey).flatten ↔ ∃ pubkey members, (pubkey,members) ∈ eventsByPubkey ∧ event ∈ members := by
  unfold batches
  rw [List.mem_flatten]
  constructor
  · intro ⟨members,listed,inside⟩
    obtain ⟨⟨pubkey,held⟩,member,rfl⟩ := List.mem_map.mp listed
    exact ⟨pubkey,held,member,inside⟩
  · intro ⟨pubkey,members,member,inside⟩
    exact ⟨members,List.mem_map.mpr ⟨_,member,rfl⟩,inside⟩

structure Sorted (eventsByPubkey : List (Bytes × List RawEvent)) : Prop where
  keyed : (eventsByPubkey.map Prod.fst).Nodup
  own : ∀ entry ∈ eventsByPubkey, ∀ event ∈ entry.2, event.pubkey = entry.1

theorem sorted_batches {eventsByPubkey : List (Bytes × List RawEvent)} (sorted : Sorted eventsByPubkey) :
    (batches eventsByPubkey).Pairwise fun x y => ∀ a ∈ x, ∀ b ∈ y, a.pubkey ≠ b.pubkey := by
  obtain ⟨keyed,own⟩ := sorted
  unfold batches
  rw [List.pairwise_map]
  rw [List.Nodup,List.pairwise_map] at keyed
  apply List.Pairwise.imp_of_mem _ keyed
  intro x y first second apart a inside b there same
  apply apart
  rw [← own x first a inside,← own y second b there,same]

theorem start_trusted (eventsByPubkey : List (Bytes × List RawEvent)) (cancelled : Bool) :
    Trusted (start eventsByPubkey cancelled : State k) [] :=
  ⟨.slnil,.slnil,fun _ _ _ => Worker.noConfusion,fun _ none => absurd none List.not_mem_nil,fun _ => Worker.noConfusion⟩

theorem start_kept {eventsByPubkey : List (Bytes × List RawEvent)} (sorted : Sorted eventsByPubkey) (cancelled : Bool) :
    Kept ((batches eventsByPubkey).flatten : Multiset RawEvent) (start eventsByPubkey cancelled : State k) [] := by
  have empty : held (start eventsByPubkey cancelled : State k) = fun _ => [] := by
    funext place
    cases place with
    | none => rfl
    | some i => rfl
  refine ⟨?_,?_⟩
  · unfold lanes
    rw [empty]
    exact Lanes.fresh_ordered (sorted_batches sorted)
  · unfold lanes Lanes.everything
    rw [empty]
    simp [start,Dispatcher.todo,batches]

-- Every reachable state of the phase, under any schedule and any failures.
structure Sound (eventsByPubkey : List (Bytes × List RawEvent)) (s : State k) (out : List RawEvent) : Prop where
  kept : Kept ((batches eventsByPubkey).flatten : Multiset RawEvent) s out
  counted : Counted s out
  trusted : Trusted s out

theorem reached_sound {eventsByPubkey : List (Bytes × List RawEvent)} (sorted : Sorted eventsByPubkey) {cancelled : Bool}
    {s : State k} (path : Reached step honest (start eventsByPubkey cancelled) s) : ∃ out, Sound eventsByPubkey s out := by
  apply path.invariant fun s => ∃ out, Sound eventsByPubkey s out
  · refine ⟨[],start_kept sorted cancelled,?_,start_trusted eventsByPubkey cancelled⟩
    simp [Counted,start,Worker.noted]
  · intro s action next ⟨out,sound⟩ allowed moved
    have parts := step_moved moved
    exact ⟨out ++ dropped s action,moved_kept sound.kept parts,moved_counted sound.counted parts,
      moved_trusted sound.trusted allowed parts⟩

-- When Forward has returned, every event is in exactly one of its lists.
theorem returned_outcome {eventsByPubkey : List (Bytes × List RawEvent)} {s : State k} {out : List RawEvent}
    (sound : Sound eventsByPubkey s out) (returned : Returned s) :
    (s.success ++ s.failed).Perm ((batches eventsByPubkey).flatten.map RawEvent.id) := by
  have empty : held s = fun _ => [] := by
    funext place
    cases place with
    | none => simp [held,returned.closed,Dispatcher.events]
    | some i => simp [held,returned.workers i,Worker.events]
  have quiet : ∑ i, (s.workers i).noted = 0 := by
    apply Finset.sum_eq_zero
    intro i _
    rw [returned.workers i]
    rfl
  have everything := sound.kept.everything
  unfold lanes Lanes.everything at everything
  rw [empty] at everything
  simp only [returned.closed,Dispatcher.todo,List.map_nil,List.flatten_nil,Multiset.coe_nil,Finset.sum_const_zero,
    add_zero] at everything
  have counted := sound.counted
  unfold Counted at counted
  rw [quiet,add_zero,Multiset.coe_add,Multiset.coe_eq_coe] at counted
  exact counted.symm.trans ((Multiset.coe_eq_coe.mp everything).map RawEvent.id)

-- The events of one pubkey are published oldest first.
theorem published_order {eventsByPubkey : List (Bytes × List RawEvent)} {s : State k} {out : List RawEvent}
    (sound : Sound eventsByPubkey s out) :
    s.published.Pairwise fun a b => a.pubkey = b.pubkey → a.createdAt ≤ b.createdAt :=
  sound.kept.ordered.order.sublist sound.trusted.published

-- A success is one of the events given, and the main relay has it.
theorem success_accepted {eventsByPubkey : List (Bytes × List RawEvent)} {s : State k} {out : List RawEvent}
    (sound : Sound eventsByPubkey s out) : ∀ id ∈ s.success, ∃ raw ∈ s.accepted,
      raw ∈ (batches eventsByPubkey).flatten ∧ raw.id = id := by
  intro id member
  obtain ⟨raw,there,same⟩ := sound.trusted.success id member
  have dropped := sound.trusted.published.subset (sound.trusted.accepted.subset there)
  refine ⟨raw,there,?_,same⟩
  rw [← Multiset.mem_coe,← sound.kept.everything]
  unfold lanes Lanes.everything
  apply Multiset.mem_add.mpr
  left
  apply Multiset.mem_add.mpr
  left
  exact dropped

-- What is left to do, lowered by every step.
def todoWork (todo : List (Bytes × List RawEvent)) : Nat := (todo.map fun entry => 4 * entry.2.length + 4).sum

def Dispatcher.work : Dispatcher → Nat
  | .ranging todo => todoWork todo + 1
  | .offering events todo => 4 * events.length + 3 + todoWork todo + 1
  | .givingUp events todo => 4 * events.length + 2 + todoWork todo + 1
  | .closed => 0

def Worker.work : Worker → Nat
  | .connecting => 2
  | .unconnected events => 4 * events.length + 1
  | .serving events => 4 * events.length + 1
  | .publishing _ rest => 4 * rest.length + 4
  | .recording _ _ rest => 4 * rest.length + 3
  | .returned => 0

def work (s : State k) : Nat := s.dispatcher.work + ∑ i, (s.workers i).work + (!s.cancelled).toNat

theorem work_enter (s : State k) (i : Fin k) (worker : Worker) :
    ∑ j, ((s.enter i worker).workers j).work + (s.workers i).work = ∑ j, (s.workers j).work + worker.work :=
  Lanes.sum_update Worker.work s.workers i worker

theorem work_worker {s next : State k} {i : Fin k} {worker : Worker} (less : worker.work < (s.workers i).work)
    (dispatcher : next.dispatcher = s.dispatcher) (cancelled : next.cancelled = s.cancelled)
    (workers : next.workers = (s.enter i worker).workers) : work next < work s := by
  have moved := work_enter s i worker
  unfold work
  rw [dispatcher,cancelled,workers]
  omega

theorem work_handed {s : State k} {i : Fin k} {worker : Worker} {events : List RawEvent}
    {todo : List (Bytes × List RawEvent)} (offering : s.dispatcher = .offering events todo)
    (idle : (s.workers i).work = 1) (busy : worker.work = 4 * events.length + 1) :
    work ({s with dispatcher := .ranging todo}.enter i worker) < work s := by
  have moved := work_enter {s with dispatcher := .ranging todo} i worker
  unfold work
  rw [offering]
  simp only [Dispatcher.work,State.enter] at moved ⊢
  omega

theorem moved_work {s next : State k} {action : Action k} (moved : Moved s action next) : work next < work s := by
  cases moved with
  | cancel fresh => simp [work,fresh]
  | next ranging =>
    unfold work
    rw [ranging]
    simp only [Dispatcher.work,todoWork,List.map_cons,List.sum_cons,(sortOldestFirst_perm _).length_eq]
    omega
  | serve offering idle => exact work_handed offering (by rw [idle]; rfl) rfl
  | drain offering idle => exact work_handed offering (by rw [idle]; rfl) rfl
  | abandon offering _ =>
    unfold work
    rw [offering]
    simp only [Dispatcher.work]
    omega
  | giveUp giving =>
    unfold work
    rw [giving]
    simp only [Dispatcher.work,State.fail,List.length_cons]
    omega
  | resume giving =>
    unfold work
    rw [giving]
    simp only [Dispatcher.work]
    omega
  | close ranging =>
    unfold work
    rw [ranging]
    simp only [Dispatcher.work]
    omega
  | @connect i ok connecting =>
    refine work_worker ?_ rfl rfl rfl
    rw [connecting]
    cases ok <;> simp [Worker.work]
  | failOne draining =>
    refine work_worker ?_ rfl rfl rfl
    rw [draining]
    simp [Worker.work]
  | stop serving _ =>
    refine work_worker ?_ rfl rfl rfl
    rw [serving]
    simp [Worker.work]
  | decoded serving _ =>
    refine work_worker ?_ rfl rfl rfl
    rw [serving]
    simp only [Worker.work,List.length_cons]
    omega
  | undecoded serving _ =>
    refine work_worker ?_ rfl rfl rfl
    rw [serving]
    simp [Worker.work]
  | publish publishing =>
    refine work_worker ?_ rfl rfl rfl
    rw [publishing]
    simp [Worker.work]
  | succeed recording =>
    refine work_worker ?_ rfl rfl rfl
    rw [recording]
    simp [Worker.work]
  | reject recording =>
    refine work_worker ?_ rfl rfl rfl
    rw [recording]
    simp [Worker.work]
  | leave _ idle =>
    refine work_worker ?_ rfl rfl rfl
    obtain idle | idle := idle <;> rw [idle] <;> simp [Worker.work]

-- A worker that is neither idle nor gone can take a step.
theorem worker_live {s : State k} (i : Fin k) : (s.workers i = .returned) ∨ (s.workers i = .serving []) ∨
    (s.workers i = .unconnected []) ∨ ∃ action next, honest s action ∧ step s action = some next := by
  cases working : s.workers i with
  | returned => exact .inl rfl
  | connecting => exact .inr (.inr (.inr ⟨.connect i false,_,trivial,by simp only [step,stepWorker,working]; rfl⟩))
  | unconnected events =>
    cases events with
    | nil => exact .inr (.inr (.inl rfl))
    | cons event rest => exact .inr (.inr (.inr ⟨.failOne i,_,trivial,by simp only [step,stepWorker,working]; rfl⟩))
  | serving events =>
    cases events with
    | nil => exact .inr (.inl rfl)
    | cons raw rest =>
      cases cancelled : s.cancelled with
      | true => exact .inr (.inr (.inr ⟨.stop i,_,trivial,by simp only [step,stepWorker,working,cancelled]; rfl⟩))
      | false => exact .inr (.inr (.inr ⟨.decode i false,_,trivial,by simp only [step,stepWorker,working,cancelled]; rfl⟩))
  | publishing raw rest =>
    refine .inr (.inr (.inr ⟨.publish i false false,_,?_,by simp only [step,stepWorker,working]; rfl⟩))
    intro accepted
    cases accepted
  | recording ok raw rest =>
    cases ok with
    | true => exact .inr (.inr (.inr ⟨.record i,_,trivial,by simp only [step,stepWorker,working]; rfl⟩))
    | false => exact .inr (.inr (.inr ⟨.record i,_,trivial,by simp only [step,stepWorker,working]; rfl⟩))

-- The dispatcher never waits for good: some worker takes its jobs, also when none could connect.
theorem forward_live (some_worker : 0 < k) {s : State k}
    (gone : ∀ i, s.workers i = .returned → s.dispatcher = .closed) (unmet : ¬ Returned s) :
    ∃ action next, honest s action ∧ step s action = some next := by
  cases dispatching : s.dispatcher with
  | ranging todo =>
    cases todo with
    | nil => exact ⟨.close,_,trivial,by simp only [step,stepDispatcher,dispatching]; rfl⟩
    | cons entry rest =>
      obtain ⟨pubkey,events⟩ := entry
      exact ⟨.next,_,trivial,by simp only [step,stepDispatcher,dispatching]; rfl⟩
  | givingUp events todo =>
    cases events with
    | nil => exact ⟨.resume,_,trivial,by simp only [step,stepDispatcher,dispatching]; rfl⟩
    | cons event rest => exact ⟨.giveUp,_,trivial,by simp only [step,stepDispatcher,dispatching]; rfl⟩
  | offering events todo =>
    obtain left | idle | idle | live := @worker_live k s ⟨0,some_worker⟩
    · exact absurd (dispatching.symm.trans (gone _ left)) Dispatcher.noConfusion
    · exact ⟨.send ⟨0,some_worker⟩,_,trivial,by simp only [step,stepDispatcher,dispatching,idle]; rfl⟩
    · exact ⟨.send ⟨0,some_worker⟩,_,trivial,by simp only [step,stepDispatcher,dispatching,idle]; rfl⟩
    · exact live
  | closed =>
    have busy : ∃ i, s.workers i ≠ .returned := by
      by_contra none
      simp only [ne_eq,not_exists,not_not] at none
      exact unmet ⟨dispatching,none⟩
    obtain ⟨i,staying⟩ := busy
    obtain left | idle | idle | live := @worker_live k s i
    · exact absurd left staying
    · exact ⟨.leave i,_,trivial,by simp only [step,stepWorker,dispatching,idle]; rfl⟩
    · exact ⟨.leave i,_,trivial,by simp only [step,stepWorker,dispatching,idle]; rfl⟩
    · exact live

theorem forward_returns (some_worker : 0 < k) (eventsByPubkey : List (Bytes × List RawEvent)) (cancelled : Bool) :
    Inevitable step honest Returned (start eventsByPubkey cancelled : State k) := by
  have kept : ∀ {s : State k} {action next}, (∃ out, Trusted s out) → honest s action → step s action = some next →
      ∃ out, Trusted next out := by
    intro s action next ⟨out,trusted⟩ allowed moved
    exact ⟨_,moved_trusted trusted allowed (step_moved moved)⟩
  have live : ∀ {s : State k}, (∃ out, Trusted s out) → ¬ Returned s →
      ∃ action next, honest s action ∧ step s action = some next := by
    intro s ⟨_,trusted⟩ unmet
    exact forward_live some_worker trusted.returned unmet
  exact .of_measure (fun s => ∃ out, Trusted s out) work kept (fun _ _ moved => moved_work (step_moved moved)) live
    ⟨[],start_trusted eventsByPubkey cancelled⟩

end Outcome

end DeepFry.Rescue.Forward
