import DeepFry.Rescue.Check
import DeepFry.Rescue.Delete

namespace DeepFry.Rescue
open Machine Export

-- The whole rescue: four phases over a quarantine that goes on receiving events.
structure Config where
  unmarshal : Bytes → Option MinEvent
  limit : Int
  whitelistConcurrency : Int
  forwardConcurrency : Int
  batchSize : Int
  dryRun : Bool

def Config.workers (c : Config) : Nat := Forward.workers c.forwardConcurrency

-- The quarantine now, all that was ever in it, the delete calls made, and the lines the export printed.
structure Store where
  stored : List RawEvent
  ever : List RawEvent
  calls : List (List Bytes)
  lines : List Bytes
deriving Repr,DecidableEq

-- What happens around one delete call: events arrive before it, and a call that fails may have removed some ids.
structure Circumstance where
  arrivals : List RawEvent
  ok : Bool
  removed : List Bytes
deriving Repr,DecidableEq

-- strfry delete removes exactly the ids given, or fails.
def runDelete (around : Nat → Circumstance) (batch : List Bytes) (w : Store) : Bool × Store :=
  let now := around w.calls.length
  (now.ok,⟨(w.stored ++ now.arrivals).filter fun event => ¬ (event.id ∈ batch ∧ (now.ok = true ∨ event.id ∈ now.removed)),
    w.ever ++ now.arrivals,w.calls ++ [batch],w.lines⟩)

def arrive (event : RawEvent) (w : Store) : Store := {w with stored := w.stored ++ [event],ever := w.ever ++ [event]}

-- The events of the lines, as far as the limit goes.
def Store.taken (c : Config) (w : Store) : List RawEvent := expected c.limit (w.lines.filterMap (parse c.unmarshal))

inductive Stage (k : Nat) where
  | idle
  | collecting (s : Export.State)
  | checking (eventsByPubkey : List (Bytes × List RawEvent)) (s : Check.State)
  | forwarding (eventsByPubkey : List (Bytes × List RawEvent)) (answers : List (Bytes × Check.Reply)) (s : Forward.State k)
  | finished (eventsByPubkey : List (Bytes × List RawEvent)) (answers : List (Bytes × Check.Reply)) (s : Forward.State k)
      (result : Delete.Result)
  | stopped

structure Run (k : Nat) where
  store : Store
  stage : Stage k

def Run.at {k : Nat} (r : Run k) (stage : Stage k) : Run k := {r with stage := stage}

inductive Step (c : Config) : Run c.workers → Run c.workers → Prop where
  -- The quarantine takes an event whose id it does not hold.
  | arrive {r : Run c.workers} (event : RawEvent) : event.id ∉ r.store.stored.map RawEvent.id →
      Step c r {r with store := arrive event r.store}
  -- The export reads events of the quarantine, each once.
  | begin {r : Run c.workers} {lines : List Bytes} : r.stage = .idle →
      (lines.filterMap (parse c.unmarshal)).Subperm r.store.stored → Step c r ⟨{r.store with lines},.collecting (Export.start lines)⟩
  | unstarted {r : Run c.workers} (cause : String) : r.stage = .idle →
      Step c r (r.at (.collecting (Export.startFailed cause)))
  | exporting {r : Run c.workers} {s next : Export.State} {action : Export.Action} : r.stage = .collecting s →
      Export.step c.unmarshal c.limit s action = some next → Step c r (r.at (.collecting next))
  | exportFailed {r : Run c.workers} {s : Export.State} {err : String} : r.stage = .collecting s →
      s.consumer = .returned (some err) → Step c r (r.at .stopped)
  | nothingExported {r : Run c.workers} {s : Export.State} : r.stage = .collecting s →
      s.consumer = .returned none → s.byPubkey = [] → Step c r (r.at .stopped)
  | collected {r : Run c.workers} {s : Export.State} {pubkeys : List Bytes} : r.stage = .collecting s →
      s.consumer = .returned none → s.byPubkey ≠ [] → pubkeys.Perm (s.byPubkey.map Prod.fst) →
      Step c r (r.at (.checking s.byPubkey (Check.start pubkeys)))
  | check {r : Run c.workers} {eventsByPubkey : List (Bytes × List RawEvent)} {s next : Check.State}
      {action : Check.Action} : r.stage = .checking eventsByPubkey s →
      Check.step (Check.concurrencyOf c.whitelistConcurrency) s action = some next →
      Step c r (r.at (.checking eventsByPubkey next))
  | nothingToForward {r : Run c.workers} {eventsByPubkey : List (Bytes × List RawEvent)} {s : Check.State} :
      r.stage = .checking eventsByPubkey s → Check.Done s →
      c.dryRun = true ∨ (Forward.batches (Check.whitelisted eventsByPubkey s.answers)).flatten = [] → Step c r (r.at .stopped)
  | checked {r : Run c.workers} {eventsByPubkey todo : List (Bytes × List RawEvent)} {s : Check.State}
      (cancelled : Bool) : r.stage = .checking eventsByPubkey s → Check.Done s → c.dryRun = false →
      (Forward.batches (Check.whitelisted eventsByPubkey s.answers)).flatten ≠ [] →
      todo.Perm (Check.whitelisted eventsByPubkey s.answers) →
      Step c r (r.at (.forwarding eventsByPubkey s.answers (Forward.start todo cancelled)))
  | forward {r : Run c.workers} {eventsByPubkey : List (Bytes × List RawEvent)} {answers : List (Bytes × Check.Reply)}
      {s next : Forward.State c.workers} {action : Forward.Action c.workers} :
      r.stage = .forwarding eventsByPubkey answers s → Forward.honest s action → Forward.step s action = some next →
      Step c r (r.at (.forwarding eventsByPubkey answers next))
  | nothingForwarded {r : Run c.workers} {eventsByPubkey : List (Bytes × List RawEvent)}
      {answers : List (Bytes × Check.Reply)} {s : Forward.State c.workers} :
      r.stage = .forwarding eventsByPubkey answers s → Forward.Returned s → s.success = [] →
      Step c r (r.at (.finished eventsByPubkey answers s ⟨[],[]⟩))
  | deleted {r : Run c.workers} {eventsByPubkey : List (Bytes × List RawEvent)} {answers : List (Bytes × Check.Reply)}
      {s : Forward.State c.workers} (around : Nat → Circumstance) :
      r.stage = .forwarding eventsByPubkey answers s → Forward.Returned s → s.success ≠ [] →
      Step c r ⟨(Delete.deleteByIDs (runDelete around) c.batchSize s.success r.store).2,.finished eventsByPubkey answers s
        (Delete.deleteByIDs (runDelete around) c.batchSize s.success r.store).1⟩

def begun (k : Nat) (quarantine : List RawEvent) : Run k := ⟨⟨quarantine,quarantine,[],[]⟩,.idle⟩

-- What the main relay accepted and was asked to publish, and what the whitelist server answered.
def Run.accepted {k : Nat} (r : Run k) : List RawEvent :=
  match r.stage with
  | .forwarding _ _ s => s.accepted
  | .finished _ _ s _ => s.accepted
  | _ => []

def Run.published {k : Nat} (r : Run k) : List RawEvent :=
  match r.stage with
  | .forwarding _ _ s => s.published
  | .finished _ _ s _ => s.published
  | _ => []

def Run.answers {k : Nat} (r : Run k) : List (Bytes × Check.Reply) :=
  match r.stage with
  | .forwarding _ answers _ => answers
  | .finished _ answers _ _ => answers
  | _ => []

def Distinct (events : List RawEvent) : Prop := (events.map RawEvent.id).Nodup

-- An entry of the groups is found under its key.
theorem lookup_entry {groups : List (Bytes × List RawEvent)} (keyed : (groups.map Prod.fst).Nodup)
    {pubkey : Bytes} {members : List RawEvent} (member : (pubkey,members) ∈ groups) :
    groups.lookup pubkey = some members := by
  induction groups with
  | nil => cases member
  | cons entry rest ih =>
    obtain ⟨key,held⟩ := entry
    rw [List.map_cons,List.nodup_cons] at keyed
    cases member with
    | head => exact List.lookup_cons_self
    | tail _ later =>
      have apart : pubkey ≠ key := by
        intro same
        subst same
        exact keyed.1 (List.mem_map.mpr ⟨_,later,rfl⟩)
      rw [List.lookup_cons]
      have unequal : (pubkey == key) = false := by simpa using apart
      rw [unequal]
      exact ih keyed.2 later

section Whitelisted

variable {eventsByPubkey : List (Bytes × List RawEvent)} {taken : List RawEvent} {answers : List (Bytes × Check.Reply)}

theorem whitelisted_mem (grouped : Grouped eventsByPubkey taken)
    (asked : (answers.map Prod.fst).Perm (eventsByPubkey.map Prod.fst)) (pubkey : Bytes) (members : List RawEvent) :
    (pubkey,members) ∈ Check.whitelisted eventsByPubkey answers ↔ Check.answeredWhitelisted answers pubkey ∧
      members = taken.filter fun event => event.pubkey = pubkey := by
  have found : ∀ reply, (pubkey,reply) ∈ answers → (eventsByPubkey.lookup pubkey).getD [] =
      taken.filter fun event => event.pubkey = pubkey := by
    intro reply answered
    have listed : pubkey ∈ eventsByPubkey.map Prod.fst := asked.mem_iff.mp (List.mem_map.mpr ⟨_,answered,rfl⟩)
    obtain ⟨⟨key,held⟩,member,same⟩ := List.mem_map.mp listed
    subst same
    rw [lookup_entry grouped.keyed member]
    exact ((grouped.entries _ _).mp member).1
  unfold Check.whitelisted Check.answeredWhitelisted
  rw [List.mem_filterMap]
  constructor
  · intro ⟨⟨key,reply⟩,member,kept⟩
    obtain ⟨yes,same⟩ := Option.ite_none_right_eq_some.mp kept
    cases same
    have told : reply = .body true := Check.isWhitelisted_body yes
    rw [told] at member
    exact ⟨member,found _ member⟩
  · intro ⟨member,same⟩
    refine ⟨(pubkey,.body true),member,?_⟩
    rw [same,← found _ member]
    rfl

theorem whitelisted_keyed (asked : (answers.map Prod.fst).Nodup) :
    ((Check.whitelisted eventsByPubkey answers).map Prod.fst).Nodup := by
  apply List.Nodup.sublist _ asked
  unfold Check.whitelisted
  induction answers with
  | nil => exact .slnil
  | cons answer rest ih =>
    rw [List.map_cons,List.nodup_cons] at asked
    rw [List.filterMap_cons]
    split
    · exact (ih asked.2).cons _
    · rename_i kept
      obtain ⟨_,same⟩ := Option.ite_none_right_eq_some.mp kept
      cases same
      exact (ih asked.2).cons_cons _

-- The batches to forward: each of one pubkey, and together the exported events of the whitelisted.
theorem whitelisted_sorted (grouped : Grouped eventsByPubkey taken)
    (asked : (answers.map Prod.fst).Perm (eventsByPubkey.map Prod.fst)) {todo : List (Bytes × List RawEvent)}
    (order : todo.Perm (Check.whitelisted eventsByPubkey answers)) : Forward.Sorted todo := by
  refine ⟨?_,?_⟩
  · rw [(order.map Prod.fst).nodup_iff]
    exact whitelisted_keyed (asked.nodup_iff.mpr grouped.keyed)
  · intro entry member event inside
    obtain ⟨pubkey,members⟩ := entry
    have listed := ((whitelisted_mem grouped asked pubkey members).mp (order.mem_iff.mp member)).2
    dsimp only at inside
    rw [listed] at inside
    simpa using (List.mem_filter.mp inside).2

theorem forwarded_mem (grouped : Grouped eventsByPubkey taken)
    (asked : (answers.map Prod.fst).Perm (eventsByPubkey.map Prod.fst)) {todo : List (Bytes × List RawEvent)}
    (order : todo.Perm (Check.whitelisted eventsByPubkey answers)) (event : RawEvent) :
    event ∈ (Forward.batches todo).flatten ↔ event ∈ taken ∧ Check.answeredWhitelisted answers event.pubkey := by
  rw [Forward.mem_batches]
  constructor
  · intro ⟨pubkey,members,member,inside⟩
    obtain ⟨answered,filtered⟩ := (whitelisted_mem grouped asked pubkey members).mp (order.mem_iff.mp member)
    rw [filtered] at inside
    obtain ⟨there,own⟩ := List.mem_filter.mp inside
    have own : event.pubkey = pubkey := by simpa using own
    rw [own]
    exact ⟨there,answered⟩
  · intro ⟨there,answered⟩
    have entry := (whitelisted_mem grouped asked event.pubkey _).mpr ⟨answered,rfl⟩
    exact ⟨event.pubkey,_,order.mem_iff.mpr entry,List.mem_filter.mpr ⟨there,by simp⟩⟩

theorem forwarded_nodup (grouped : Grouped eventsByPubkey taken)
    (asked : (answers.map Prod.fst).Perm (eventsByPubkey.map Prod.fst)) {todo : List (Bytes × List RawEvent)}
    (order : todo.Perm (Check.whitelisted eventsByPubkey answers)) (once : taken.Nodup) :
    (Forward.batches todo).flatten.Nodup := by
  apply List.nodup_flatten.mpr
  constructor
  · intro members listed
    obtain ⟨⟨pubkey,held⟩,member,same⟩ := List.mem_map.mp listed
    subst same
    rw [((whitelisted_mem grouped asked pubkey held).mp (order.mem_iff.mp member)).2]
    exact once.filter _
  · apply (Forward.sorted_batches (whitelisted_sorted grouped asked order)).imp
    intro x y apart event inX inY
    exact apart event inX event inY rfl

end Whitelisted

end DeepFry.Rescue
