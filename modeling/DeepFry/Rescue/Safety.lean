import DeepFry.Rescue.Run

namespace DeepFry.Rescue
open Machine Export

-- Only events of these ids were asked to be deleted, and only they are gone.
structure Spared (w : Store) (ids : List Bytes) : Prop where
  calls : ∀ call ∈ w.calls, ∀ id ∈ call, id ∈ ids
  stored : ∀ event ∈ w.ever, event ∈ w.stored ∨ event.id ∈ ids

theorem Spared.weaken {w : Store} {ids : List Bytes} (spared : Spared w []) : Spared w ids := by
  refine ⟨?_,?_⟩
  · intro call member id there
    exact absurd (spared.calls call member id there) List.not_mem_nil
  · intro event member
    obtain there | gone := spared.stored event member
    · exact .inl there
    · exact absurd gone List.not_mem_nil

theorem Spared.arrive {w : Store} {ids : List Bytes} (spared : Spared w ids) (event : RawEvent) :
    Spared (arrive event w) ids := by
  refine ⟨spared.calls,?_⟩
  intro other member
  obtain older | last := List.mem_append.mp member
  · obtain there | gone := spared.stored other older
    · exact .inl (List.mem_append_left _ there)
    · exact .inr gone
  · exact .inl (List.mem_append_right _ last)

-- One delete call, whatever arrives around it and however it ends.
theorem Spared.runDelete {w : Store} {ids batch : List Bytes} (spared : Spared w ids) (around : Nat → Circumstance)
    (inside : ∀ id ∈ batch, id ∈ ids) : Spared (runDelete around batch w).2 ids := by
  refine ⟨?_,?_⟩
  · intro call member id there
    obtain older | last := List.mem_append.mp member
    · exact spared.calls call older id there
    · rw [List.mem_singleton.mp last] at there
      exact inside id there
  · intro event member
    by_cases named : event.id ∈ ids
    · exact .inr named
    · have present : event ∈ w.stored ++ (around w.calls.length).arrivals := by
        obtain older | new := List.mem_append.mp member
        · obtain there | gone := spared.stored event older
          · exact List.mem_append_left _ there
          · exact absurd gone named
        · exact List.mem_append_right _ new
      have safe : event.id ∉ batch := fun named_now => named (inside event.id named_now)
      refine .inl (List.mem_filter.mpr ⟨present,?_⟩)
      simp [safe]

-- The whitelisted part of an export, on its way through Forward.
structure Forwarded (c : Config) (ever taken : List RawEvent) (eventsByPubkey : List (Bytes × List RawEvent))
    (answers : List (Bytes × Check.Reply)) (s : Forward.State c.workers) : Prop where
  groups : eventsByPubkey = group taken
  distinct : Distinct taken
  read : ∀ event ∈ taken, event ∈ ever
  asked : (answers.map Prod.fst).Perm (eventsByPubkey.map Prod.fst)
  path : ∃ todo cancelled, todo.Perm (Check.whitelisted eventsByPubkey answers) ∧
    Reached Forward.step Forward.honest (Forward.start todo cancelled) s

-- What each stage of a rescue has behind it.
def Behind (c : Config) (r : Run c.workers) : Prop :=
  match r.stage with
  | .idle => Spared r.store [] ∧ r.store.lines = [] ∧ Distinct r.store.stored ∧ ∀ event ∈ r.store.stored, event ∈ r.store.ever
  | .collecting s => Spared r.store [] ∧ (∃ taken dropped, Held c.unmarshal c.limit r.store.lines taken dropped s) ∧
      Distinct (r.store.lines.filterMap (parse c.unmarshal)) ∧
      ∀ event ∈ r.store.lines.filterMap (parse c.unmarshal), event ∈ r.store.ever
  | .checking eventsByPubkey s => Spared r.store [] ∧ eventsByPubkey = group (r.store.taken c) ∧ Distinct (r.store.taken c) ∧
      (∀ event ∈ r.store.taken c, event ∈ r.store.ever) ∧ ∃ pubkeys, pubkeys.Perm (eventsByPubkey.map Prod.fst) ∧
      Reached (Check.step (Check.concurrencyOf c.whitelistConcurrency)) (fun _ _ => True) (Check.start pubkeys) s
  | .forwarding eventsByPubkey answers s => Spared r.store [] ∧
      Forwarded c r.store.ever (r.store.taken c) eventsByPubkey answers s
  | .finished eventsByPubkey answers s result => Spared r.store s.success ∧ Forward.Returned s ∧
      (result.deleted ++ result.failed).Perm s.success ∧ Forwarded c r.store.ever (r.store.taken c) eventsByPubkey answers s
  | .stopped => Spared r.store []

theorem Forwarded.grouped {c : Config} {ever taken : List RawEvent} {eventsByPubkey : List (Bytes × List RawEvent)}
    {answers : List (Bytes × Check.Reply)} {s : Forward.State c.workers}
    (forwarded : Forwarded c ever taken eventsByPubkey answers s) : Grouped eventsByPubkey taken := by
  rw [forwarded.groups]
  exact grouped_group taken

theorem Forwarded.grow {c : Config} {ever later taken : List RawEvent} {eventsByPubkey : List (Bytes × List RawEvent)}
    {answers : List (Bytes × Check.Reply)} {s : Forward.State c.workers}
    (forwarded : Forwarded c ever taken eventsByPubkey answers s) (more : ∀ event ∈ ever, event ∈ later) :
    Forwarded c later taken eventsByPubkey answers s :=
  ⟨forwarded.groups,forwarded.distinct,fun event member => more event (forwarded.read event member),forwarded.asked,
    forwarded.path⟩

theorem startFailed_held (unmarshal : Bytes → Option MinEvent) (limit : Int) (cause : String) :
    Held unmarshal limit [] [] [] (startFailed cause) := by
  refine ⟨rfl,rfl,rfl,.inl rfl,Nat.zero_le _,?_,?_,?_,?_,nofun⟩
  · intro _ positive
    exact positive
  · intro left
    exact absurd rfl left
  · simp [startFailed]
  · simp [startFailed]

theorem distinct_subperm {few many : List RawEvent} (distinct : Distinct many) (part : few.Subperm many) : Distinct few := by
  obtain ⟨some_order,same,inside⟩ := part
  unfold Distinct
  rw [← (same.map RawEvent.id).nodup_iff]
  exact List.Nodup.sublist (inside.map RawEvent.id) distinct

-- What has been grouped was exported.
theorem held_taken {unmarshal : Bytes → Option MinEvent} {limit : Int} {lines : List Bytes} {taken dropped : List RawEvent}
    {s : Export.State} (held : Held unmarshal limit lines taken dropped s) :
    taken.Sublist (lines.filterMap (parse unmarshal)) := by
  rw [← held.order,List.append_assoc,List.append_assoc]
  exact List.sublist_append_left taken _

theorem arrive_behind {c : Config} {r : Run c.workers} {event : RawEvent} (behind : Behind c r)
    (fresh : event.id ∉ r.store.stored.map RawEvent.id) : Behind c {r with store := arrive event r.store} := by
  have more : ∀ other ∈ r.store.ever, other ∈ (arrive event r.store).ever := fun _ => List.mem_append_left _
  unfold Behind at behind ⊢
  dsimp only
  split
  · rename_i idle
    simp only [idle] at behind
    obtain ⟨spared,printed,distinct,known⟩ := behind
    refine ⟨spared.arrive event,printed,?_,?_⟩
    · unfold Distinct arrive
      rw [List.map_append,List.map_singleton,← List.concat_eq_append]
      exact distinct.concat fresh
    · intro other member
      obtain older | last := List.mem_append.mp member
      · exact more other (known other older)
      · exact List.mem_append_right _ last
  · rename_i s collecting
    simp only [collecting] at behind
    obtain ⟨spared,held,distinct,read⟩ := behind
    exact ⟨spared.arrive event,held,distinct,fun other member => more other (read other member)⟩
  · rename_i groups s checking
    simp only [checking] at behind
    obtain ⟨spared,grouped,distinct,read,pubkeys⟩ := behind
    exact ⟨spared.arrive event,grouped,distinct,fun other member => more other (read other member),pubkeys⟩
  · rename_i groups answers s forwarding
    simp only [forwarding] at behind
    exact ⟨behind.1.arrive event,behind.2.grow more⟩
  · rename_i groups answers s result finished
    simp only [finished] at behind
    obtain ⟨spared,returned,split,forwarded⟩ := behind
    exact ⟨spared.arrive event,returned,split,forwarded.grow more⟩
  · rename_i stopped
    simp only [stopped] at behind
    exact behind.arrive event

-- The delete phase, whatever arrives around its calls.
theorem deleteByIDs_spared (around : Nat → Circumstance) (batchSize : Int) {ids : List Bytes} {w : Store} (spared : Spared w ids) :
    Spared (Delete.deleteByIDs (runDelete around) batchSize ids w).2 ids ∧
      (∀ event ∈ w.ever, event ∈ (Delete.deleteByIDs (runDelete around) batchSize ids w).2.ever) ∧
      (Delete.deleteByIDs (runDelete around) batchSize ids w).2.lines = w.lines := by
  have passed := @Delete.deleteByIDs_passed Store (runDelete around) batchSize ids w
  apply passed.invariant fun after => Spared after ids ∧ (∀ event ∈ w.ever, event ∈ after.ever) ∧ after.lines = w.lines
  · intro batch after inside ⟨spared,more,printed⟩
    exact ⟨spared.runDelete around inside,fun event member => List.mem_append_left _ (more event member),printed⟩
  · exact ⟨spared,fun _ member => member,rfl⟩

theorem step_behind {c : Config} {r next : Run c.workers} (behind : Behind c r) (moved : Step c r next) : Behind c next := by
  cases moved with
  | arrive event fresh => exact arrive_behind behind fresh
  | @begin lines idle read =>
    simp only [Behind,idle] at behind
    obtain ⟨spared,_,distinct,known⟩ := behind
    refine ⟨⟨spared.calls,spared.stored⟩,⟨[],[],start_held⟩,?_,?_⟩
    · exact distinct_subperm distinct read
    · intro event member
      exact known event (read.subset member)
  | unstarted cause idle =>
    simp only [Behind,idle] at behind
    obtain ⟨spared,printed,_⟩ := behind
    simp only [Behind,Run.at,printed]
    exact ⟨spared,⟨[],[],startFailed_held c.unmarshal c.limit cause⟩,List.nodup_nil,fun _ none => absurd none List.not_mem_nil⟩
  | exporting collecting exported =>
    simp only [Behind,collecting] at behind
    obtain ⟨spared,⟨taken,dropped,held⟩,distinct,read⟩ := behind
    exact ⟨spared,moved_held held (Export.step_moved exported),distinct,read⟩
  | exportFailed collecting _ =>
    simp only [Behind,collecting] at behind
    exact behind.1
  | nothingExported collecting _ _ =>
    simp only [Behind,collecting] at behind
    exact behind.1
  | @collected s pubkeys collecting returned _ order =>
    simp only [Behind,collecting] at behind
    obtain ⟨spared,⟨taken,dropped,held⟩,distinct,read⟩ := behind
    have part := held_taken held
    have all : taken = r.store.taken c := held.expected returned
    rw [all] at part
    exact ⟨spared,held.groups.trans (by rw [all]; rfl),distinct_subperm distinct part.subperm,
      fun event member => read event (part.subset member),pubkeys,order,.refl⟩
  | check checking asked =>
    simp only [Behind,checking] at behind
    obtain ⟨spared,grouped,distinct,read,pubkeys,order,path⟩ := behind
    exact ⟨spared,grouped,distinct,read,pubkeys,order,.step path trivial asked⟩
  | nothingToForward checking _ _ =>
    simp only [Behind,checking] at behind
    exact behind.1
  | checked cancelled checking done _ _ order =>
    simp only [Behind,checking] at behind
    obtain ⟨spared,grouped,distinct,read,pubkeys,asked,path⟩ := behind
    exact ⟨spared,grouped,distinct,read,(Check.done_asked path done).trans asked,_,cancelled,order,.refl⟩
  | forward forwarding allowed sent =>
    simp only [Behind,forwarding] at behind
    obtain ⟨spared,forwarded⟩ := behind
    obtain ⟨todo,cancelled,order,path⟩ := forwarded.path
    exact ⟨spared,{forwarded with path := ⟨todo,cancelled,order,.step path allowed sent⟩}⟩
  | nothingForwarded forwarding returned empty =>
    simp only [Behind,forwarding] at behind
    obtain ⟨spared,forwarded⟩ := behind
    refine ⟨?_,returned,?_,forwarded⟩
    · rw [empty]
      exact spared
    · rw [empty]
      exact .nil
  | @deleted groups answers s around forwarding returned _ =>
    simp only [Behind,forwarding] at behind
    obtain ⟨spared,forwarded⟩ := behind
    obtain ⟨spared,more,printed⟩ := deleteByIDs_spared around c.batchSize (@Spared.weaken r.store s.success spared)
    have same : Store.taken c (Delete.deleteByIDs (runDelete around) c.batchSize s.success r.store).2 = r.store.taken c := by
      unfold Store.taken
      rw [printed]
    refine ⟨spared,returned,(@Delete.deleteByIDs_passed Store (runDelete around) c.batchSize s.success r.store).split,?_⟩
    dsimp only
    rw [same]
    exact forwarded.grow more

theorem begun_behind (c : Config) {quarantine : List RawEvent} (distinct : Distinct quarantine) :
    Behind c (begun c.workers quarantine) :=
  ⟨⟨fun _ none => absurd none List.not_mem_nil,fun _ member => .inl member⟩,rfl,distinct,fun _ member => member⟩

theorem reached_behind {c : Config} {quarantine : List RawEvent} (distinct : Distinct quarantine) {r : Run c.workers}
    (path : Relation.ReflTransGen (Step c) (begun c.workers quarantine) r) : Behind c r := by
  induction path with
  | refl => exact begun_behind c distinct
  | tail _ moved ih => exact step_behind ih moved

-- Whatever was deleted or is gone was accepted, its author answered whitelisted, and a pubkey is published oldest first.
structure Safe {k : Nat} (r : Run k) : Prop where
  calls : ∀ call ∈ r.store.calls, ∀ id ∈ call, ∃ event ∈ r.accepted, event.id = id ∧
    Check.answeredWhitelisted r.answers event.pubkey
  gone : ∀ event ∈ r.store.ever, event ∉ r.store.stored → ∃ saved ∈ r.accepted, saved.id = event.id ∧
    Check.answeredWhitelisted r.answers saved.pubkey
  order : r.published.Pairwise fun a b => a.pubkey = b.pubkey → a.createdAt ≤ b.createdAt

-- Where the exported events of whitelisted authors end, once Forward and the deletion have returned: the events of all the lines
-- printed, as far as the limit goes, are grouped, and each of a whitelisted author is in one of the lists.
structure Settled (c : Config) (r : Run c.workers) (eventsByPubkey : List (Bytes × List RawEvent)) (s : Forward.State c.workers)
    (result : Delete.Result) : Prop where
  exported : ∀ event ∈ r.store.taken c, event ∈ r.store.ever
  grouped : eventsByPubkey = group (r.store.taken c)
  forwarded : ∀ id, id ∈ s.success ++ s.failed ↔ ∃ event ∈ r.store.taken c,
    Check.answeredWhitelisted r.answers event.pubkey ∧ event.id = id
  once : (s.success ++ s.failed).Nodup
  deleted : (result.deleted ++ result.failed).Perm s.success

section Reached

variable {c : Config} {ever taken : List RawEvent} {eventsByPubkey : List (Bytes × List RawEvent)}
  {answers : List (Bytes × Check.Reply)} {s : Forward.State c.workers}

theorem Forwarded.success (forwarded : Forwarded c ever taken eventsByPubkey answers s) :
    ∀ id ∈ s.success, ∃ event ∈ s.accepted, event.id = id ∧ Check.answeredWhitelisted answers event.pubkey := by
  intro id member
  obtain ⟨todo,cancelled,order,path⟩ := forwarded.path
  obtain ⟨out,sound⟩ := Forward.reached_sound (whitelisted_sorted forwarded.grouped forwarded.asked order) path
  obtain ⟨event,accepted,listed,same⟩ := Forward.success_accepted sound id member
  exact ⟨event,accepted,same,((forwarded_mem forwarded.grouped forwarded.asked order event).mp listed).2⟩

theorem Forwarded.order (forwarded : Forwarded c ever taken eventsByPubkey answers s) :
    s.published.Pairwise fun a b => a.pubkey = b.pubkey → a.createdAt ≤ b.createdAt := by
  obtain ⟨todo,cancelled,order,path⟩ := forwarded.path
  obtain ⟨out,sound⟩ := Forward.reached_sound (whitelisted_sorted forwarded.grouped forwarded.asked order) path
  exact Forward.published_order sound

theorem Forwarded.outcome (forwarded : Forwarded c ever taken eventsByPubkey answers s) (returned : Forward.Returned s) :
    (s.success ++ s.failed).Nodup ∧ ∀ id, id ∈ s.success ++ s.failed ↔
      ∃ event ∈ taken, Check.answeredWhitelisted answers event.pubkey ∧ event.id = id := by
  obtain ⟨todo,cancelled,order,path⟩ := forwarded.path
  obtain ⟨out,sound⟩ := Forward.reached_sound (whitelisted_sorted forwarded.grouped forwarded.asked order) path
  have everyone := Forward.returned_outcome sound returned
  have listed := forwarded_mem forwarded.grouped forwarded.asked order
  constructor
  · rw [everyone.nodup_iff]
    apply List.Nodup.map_on
    · intro a first b second same
      exact List.inj_on_of_nodup_map forwarded.distinct ((listed a).mp first).1 ((listed b).mp second).1 same
    · exact forwarded_nodup forwarded.grouped forwarded.asked order forwarded.distinct.of_map
  · intro id
    rw [everyone.mem_iff,List.mem_map]
    constructor
    · intro ⟨event,member,same⟩
      obtain ⟨there,answered⟩ := (listed event).mp member
      exact ⟨event,there,answered,same⟩
    · intro ⟨event,there,answered,same⟩
      exact ⟨event,(listed event).mpr ⟨there,answered⟩,same⟩

-- Before the deletion no call was made and nothing is gone.
theorem Spared.safe {k : Nat} {r : Run k} (spared : Spared r.store [])
    (order : r.published.Pairwise fun a b => a.pubkey = b.pubkey → a.createdAt ≤ b.createdAt) : Safe r := by
  refine ⟨?_,?_,order⟩
  · intro call member id there
    exact absurd (spared.calls call member id there) List.not_mem_nil
  · intro event member missing
    obtain there | gone := spared.stored event member
    · exact absurd there missing
    · exact absurd gone List.not_mem_nil

theorem behind_safe {r : Run c.workers} (behind : Behind c r) : Safe r := by
  obtain ⟨w,stage⟩ := r
  cases stage with
  | idle => exact Spared.safe behind.1 .nil
  | collecting s => exact Spared.safe behind.1 .nil
  | checking groups s => exact Spared.safe behind.1 .nil
  | stopped => exact Spared.safe behind .nil
  | forwarding groups answers s =>
    obtain ⟨spared,forwarded⟩ := behind
    exact Spared.safe spared forwarded.order
  | finished groups answers s result =>
    obtain ⟨spared,returned,split,forwarded⟩ := behind
    refine ⟨?_,?_,forwarded.order⟩
    · intro call member id there
      exact forwarded.success id (spared.calls call member id there)
    · intro event member missing
      obtain there | named := spared.stored event member
      · exact absurd there missing
      · exact forwarded.success event.id named

theorem rescue_never_loses (c : Config) (quarantine : List RawEvent) (distinct : Distinct quarantine) :
    (∀ todo cancelled, Inevitable Forward.step Forward.honest Forward.Returned
      (Forward.start todo cancelled : Forward.State c.workers)) ∧
    ∀ r, Relation.ReflTransGen (Step c) (begun c.workers quarantine) r → Safe r ∧
      ∀ eventsByPubkey answers s result, r.stage = .finished eventsByPubkey answers s result →
        Settled c r eventsByPubkey s result := by
  constructor
  · intro todo cancelled
    exact Forward.forward_returns (Forward.workers_pos c.forwardConcurrency) todo cancelled
  · intro r path
    have behind := reached_behind distinct path
    refine ⟨behind_safe behind,?_⟩
    intro groups answers s result finished
    have same : r.answers = answers := by
      unfold Run.answers
      rw [finished]
    simp only [Behind,finished] at behind
    obtain ⟨_,returned,split,forwarded⟩ := behind
    obtain ⟨once,members⟩ := forwarded.outcome returned
    refine ⟨forwarded.read,forwarded.groups,?_,once,split⟩
    rw [same]
    exact members

end Reached

-- The runs of the single phases are runs of the rescue.
theorem run_export {c : Config} (w : Store) {s last : Export.State}
    (path : Reached (Export.step c.unmarshal c.limit) (fun _ _ => True) s last) :
    Relation.ReflTransGen (Step c) ⟨w,.collecting s⟩ ⟨w,.collecting last⟩ := by
  induction path with
  | refl => exact .refl
  | step _ _ moved ih => exact ih.tail (.exporting rfl moved)

theorem run_check {c : Config} (w : Store) (eventsByPubkey : List (Bytes × List RawEvent)) {s last : Check.State}
    (path : Reached (Check.step (Check.concurrencyOf c.whitelistConcurrency)) (fun _ _ => True) s last) :
    Relation.ReflTransGen (Step c) ⟨w,.checking eventsByPubkey s⟩ ⟨w,.checking eventsByPubkey last⟩ := by
  induction path with
  | refl => exact .refl
  | step _ _ moved ih => exact ih.tail (.check rfl moved)

theorem run_forward {c : Config} (w : Store) (eventsByPubkey : List (Bytes × List RawEvent))
    (answers : List (Bytes × Check.Reply)) {s last : Forward.State c.workers}
    (path : Reached Forward.step Forward.honest s last) :
    Relation.ReflTransGen (Step c) ⟨w,.forwarding eventsByPubkey answers s⟩ ⟨w,.forwarding eventsByPubkey answers last⟩ := by
  induction path with
  | refl => exact .refl
  | step _ allowed moved ih => exact ih.tail (.forward rfl allowed moved)

-- Two notes of a first author, the later one exported first, one of a second author, and one of a third that is not whitelisted.
def laterNote : MinEvent := noteOf 1 1 2
def firstNote : MinEvent := noteOf 1 2 1
def secondAuthors : MinEvent := noteOf 2 3 1
def strangers : MinEvent := noteOf 3 4 1

def twoAuthors : Config := ⟨reads [laterNote,firstNote,secondAuthors,strangers],0,1,2,0,false⟩

def exportedNotes : List Bytes := [laterNote,firstNote,secondAuthors,strangers].map noteLine

def rawNote (ev : MinEvent) : RawEvent := ⟨ev.id,ev.pubkey,ev.kind,ev.createdAt,noteLine ev⟩

def quarantined : List RawEvent := [rawNote laterNote,rawNote firstNote,rawNote secondAuthors,rawNote strangers]

def afterExport : Store := ⟨quarantined,quarantined,[],exportedNotes⟩

def authorsReplies : List (Bytes × Check.Reply) :=
  [(laterNote.pubkey,.body true),(secondAuthors.pubkey,.body true),(strangers.pubkey,.body false)]

def toForward : List (Bytes × List RawEvent) :=
  [(laterNote.pubkey,[rawNote laterNote,rawNote firstNote]),(secondAuthors.pubkey,[rawNote secondAuthors])]

def oneRound : Nat → Circumstance := fun _ => ⟨[],true,[]⟩

def left : Fin twoAuthors.workers := ⟨0,by decide⟩
def right : Fin twoAuthors.workers := ⟨1,by decide⟩

theorem notes_exported : ∃ collected, Reached (Export.step twoAuthors.unmarshal 0) (fun _ _ => True) (Export.start exportedNotes) collected ∧
    collected.consumer = .returned none ∧ collected.byPubkey = toForward ++ [(strangers.pubkey,[rawNote strangers])] := by
  obtain ⟨collected,path,seen⟩ := replay_final (Export.step twoAuthors.unmarshal 0) (fun _ _ => True) (Export.start exportedNotes)
    [.scan,.send,.receive,.scan,.send,.scan,.send,.receive,.receive,.scan,.send,.receive,.finish .clean,.closeErrs,.closeEvents,.drained,
      .answer]
    (fun s => s.consumer = .returned none ∧ s.byPubkey = toForward ++ [(strangers.pubkey,[rawNote strangers])])
    (by decide +kernel) (by decide +kernel)
  exact ⟨collected,path,of_decide_eq_true seen⟩

theorem authors_checked : Reached (Check.step 1) (fun _ _ => True)
    (Check.start [laterNote.pubkey,secondAuthors.pubkey,strangers.pubkey]) ⟨[],[],authorsReplies⟩ := by
  obtain ⟨asked,path,answered⟩ := replay_final (Check.step 1) (fun _ _ => True)
    (Check.start [laterNote.pubkey,secondAuthors.pubkey,strangers.pubkey])
    [.spawn,.answer laterNote.pubkey (.body true),.spawn,.answer secondAuthors.pubkey (.body true),.spawn,
      .answer strangers.pubkey (.body false)]
    (fun s => s = ⟨[],[],authorsReplies⟩) (by decide +kernel) (by decide +kernel)
  rwa [of_decide_eq_true answered] at path

theorem notes_sorted : Forward.sortOldestFirst [rawNote laterNote,rawNote firstNote] = [rawNote firstNote,rawNote laterNote] := by
  have later : decide ((rawNote laterNote).createdAt ≤ (rawNote firstNote).createdAt) = false := by decide
  simp [Forward.sortOldestFirst,List.mergeSort,later]

-- The publish of the second author's note fails.
theorem notes_forwarded : ∃ sent : Forward.State twoAuthors.workers,
    Reached Forward.step Forward.honest (Forward.start toForward false) sent ∧ Forward.Returned sent ∧
    sent.success = [firstNote.id,laterNote.id] ∧ sent.failed = [secondAuthors.id] := by
  let offered : Forward.State twoAuthors.workers := {(Forward.start toForward false) with
    dispatcher := .offering [rawNote firstNote,rawNote laterNote] [(secondAuthors.pubkey,[rawNote secondAuthors])]}
  have first : Forward.step (Forward.start toForward false) .next = some offered := by
    simp only [Forward.step,Forward.stepDispatcher,Forward.start,toForward,notes_sorted]
    rfl
  obtain ⟨sent,path,published⟩ := replay_final Forward.step Forward.honest offered
    [.connect left true,.connect right true,.send left,.next,.send right,.close,.decode left true,.decode right true,
      .publish left true true,.publish right false false,.record left,.decode left true,.record right,.publish left true true,
      .record left,.leave left,.leave right]
    (fun s => s.dispatcher = .closed ∧ (∀ i, s.workers i = .returned) ∧ s.success = [firstNote.id,laterNote.id] ∧
      s.failed = [secondAuthors.id])
    (by decide +kernel) (by decide +kernel)
  obtain ⟨closed,workers,success,failed⟩ := of_decide_eq_true published
  exact ⟨sent,path.head (by trivial) first,⟨closed,workers⟩,success,failed⟩

-- The two ids that were accepted are deleted by one call.
theorem oneRound_deleted : (Delete.deleteByIDs (runDelete oneRound) 0 [firstNote.id,laterNote.id] afterExport).2 =
    ⟨[rawNote secondAuthors,rawNote strangers],quarantined,[[firstNote.id,laterNote.id]],exportedNotes⟩ := by
  have one : (runDelete oneRound [firstNote.id,laterNote.id] afterExport) =
      (true,⟨[rawNote secondAuthors,rawNote strangers],quarantined,[[firstNote.id,laterNote.id]],exportedNotes⟩) := by decide +kernel
  unfold Delete.deleteByIDs
  rw [Delete.deleteRange]
  simp [Delete.batchSizeOf,Delete.defaultBatchSize,Delete.deleteRange,one]

-- What was published is gone from the quarantine; what was not, is still there.
theorem rescue_never_loses_two : ∃ r, Relation.ReflTransGen (Step twoAuthors) (begun twoAuthors.workers quarantined) r ∧
    r.store.stored = [rawNote secondAuthors,rawNote strangers] ∧ Safe r ∧ ∃ groups answers s result,
      r.stage = .finished groups answers s result ∧ s.success = [firstNote.id,laterNote.id] ∧ s.failed = [secondAuthors.id] ∧
      Settled twoAuthors r groups s result := by
  obtain ⟨collected,exported,returned,groups⟩ := notes_exported
  obtain ⟨sent,forwarded,done,success,failed⟩ := notes_forwarded
  have started : Relation.ReflTransGen (Step twoAuthors) (begun twoAuthors.workers quarantined)
      ⟨afterExport,.collecting (Export.start exportedNotes)⟩ := by
    refine .single (@Step.begin twoAuthors (begun _ quarantined) exportedNotes rfl ?_)
    have same : exportedNotes.filterMap (parse twoAuthors.unmarshal) = quarantined := by decide +kernel
    rw [same]
    exact List.Subperm.refl quarantined
  have one := started.trans (run_export afterExport exported)
  have grouped : collected.byPubkey ≠ [] := by
    rw [groups]
    exact List.cons_ne_nil _ _
  have order : [laterNote.pubkey,secondAuthors.pubkey,strangers.pubkey].Perm (collected.byPubkey.map Prod.fst) := by
    rw [groups]
    exact List.Perm.refl _
  have two := (one.tail (.collected rfl returned grouped order)).trans (run_check afterExport collected.byPubkey authors_checked)
  have kept : Check.whitelisted collected.byPubkey authorsReplies = toForward := by
    rw [groups]
    decide +kernel
  have three := two.trans (.single (.checked false rfl ⟨rfl,rfl⟩ rfl (by dsimp only; rw [kept]; decide +kernel) (by dsimp only; rw [kept])))
  have four := three.trans (run_forward afterExport collected.byPubkey authorsReplies forwarded)
  have last := four.tail (.deleted oneRound rfl done (by rw [success]; exact List.cons_ne_nil _ _))
  obtain ⟨safe,settled⟩ := (rescue_never_loses twoAuthors quarantined (by unfold Distinct; decide +kernel)).2 _ last
  refine ⟨_,last,?_,safe,_,_,_,_,rfl,success,failed,settled _ _ _ _ rfl⟩
  dsimp only
  rw [success]
  exact congrArg Store.stored oneRound_deleted

end DeepFry.Rescue
