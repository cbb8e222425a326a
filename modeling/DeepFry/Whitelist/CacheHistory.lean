import DeepFry.Whitelist.Cache

namespace DeepFry.Whitelist.Cache
open Recency

-- Whole histories of calls, the latest first.
variable {K : Type} [DecidableEq K]

structure Event (K : Type) where
  now : Int
  call : Call K
  answer : Option Bool
deriving Repr,DecidableEq

-- Any calls, under a clock that does not go back.
inductive History (size ttl : Int) : List (Event K) → TtlCache K → Prop where
  | start : History size ttl [] (newTtlCache size ttl)
  | call {log : List (Event K)} {c : TtlCache K} (now : Int) (call : Call K) : History size ttl log c →
      (∀ event ∈ log, event.now ≤ now) → History size ttl (⟨now,call,(c.call now call).1⟩ :: log) (c.call now call).2

-- The value of the last Set for a key, and when it was.
def lastSet (key : K) : List (Event K) → Option (Bool × Int)
  | [] => none
  | event :: log =>
    match event.call with
    | .set set_key value => if set_key = key then some (value,event.now) else lastSet key log
    | .get _ => lastSet key log

-- The key that a call sets or hits.
def Event.touches (event : Event K) : Option K :=
  match event.call,event.answer with
  | .set key _,_ => some key
  | .get key,some _ => some key
  | .get _,none => none

def uses (log : List (Event K)) : List K := log.filterMap Event.touches

def keysOf (entries : List (Entry K)) : List K := entries.map Entry.key

-- The entries are the last Sets, in the order of their last use, and a key that is missing has expired or has been pushed out.
structure Kept (ttl : Int) (cap : Nat) (log : List (Event K)) (entries : List (Entry K)) : Prop where
  room : entries.length ≤ cap
  recent : Recent (keysOf entries) (uses log)
  current : ∀ e ∈ entries, ∃ time, lastSet e.key log = some (e.value,time) ∧ e.expiresAt = time + ttl
  lost : ∀ key value time, key ∉ keysOf entries → lastSet key log = some (value,time) →
    (∃ event ∈ log, time + ttl < event.now) ∨ cap ≤ (since key (uses log)).card

section Kept
variable {ttl now : Int} {cap : Nat} {log : List (Event K)} {entries : List (Entry K)} {key : K}

theorem keysOf_without (key : K) (entries : List (Entry K)) : keysOf (without key entries) = (keysOf entries).filter (· ≠ key) := by
  unfold keysOf without
  rw [List.filter_map]
  rfl

theorem without_absent (key : K) (entries : List (Entry K)) : key ∉ keysOf (without key entries) := by
  rw [keysOf_without]
  simp

theorem without_sublist (key : K) (entries : List (Entry K)) : (without key entries).Sublist entries := List.filter_sublist

theorem lastSet_own (key : K) (value : Bool) (answer : Option Bool) (log : List (Event K)) :
    lastSet key (⟨now,.set key value,answer⟩ :: log) = some (value,now) := if_pos rfl

theorem lastSet_other {other : K} (apart : key ≠ other) (value : Bool) (answer : Option Bool) (log : List (Event K)) :
    lastSet other (⟨now,.set key value,answer⟩ :: log) = lastSet other log := if_neg apart

theorem Kept.missed (kept : Kept ttl cap log entries) (now : Int) (key : K) : Kept ttl cap (⟨now,.get key,none⟩ :: log) entries := by
  refine ⟨kept.room,kept.recent,kept.current,?_⟩
  intro other value time absent last
  obtain ⟨event,member,late⟩ | many := kept.lost other value time absent last
  · exact .inl ⟨event,List.mem_cons_of_mem _ member,late⟩
  · exact .inr many

theorem Kept.drop (kept : Kept ttl cap log entries) {e : Entry K} (member : e ∈ entries) (late : e.expiresAt < now) :
    Kept ttl cap (⟨now,.get e.key,none⟩ :: log) (without e.key entries) := by
  have part := without_sublist e.key entries
  refine ⟨part.length_le.trans kept.room,kept.recent.sublist (part.map Entry.key),?_,?_⟩
  · intro f inside
    exact kept.current f (part.subset inside)
  · intro other value time absent last
    by_cases own : other = e.key
    · subst own
      obtain ⟨set_at,there,expires⟩ := kept.current e member
      cases there.symm.trans last
      refine .inl ⟨_,List.mem_cons_self,?_⟩
      dsimp only
      omega
    · have outside : other ∉ keysOf entries := by
        intro inside
        rw [keysOf_without] at absent
        exact absent (List.mem_filter.mpr ⟨inside,by simpa using own⟩)
      exact (kept.missed now e.key).lost other value time outside last

-- A call that sets or hits a key: its entry comes to the front, and some of the others stay behind it in their order.
theorem Kept.touch (kept : Kept ttl cap log entries) {event : Event K} {e : Entry K} {rest : List (Entry K)}
    (touches : event.touches = some e.key) (part : rest.Sublist entries) (absent : e.key ∉ keysOf rest)
    (room : rest.length < cap) (own : ∃ time, lastSet e.key (event :: log) = some (e.value,time) ∧ e.expiresAt = time + ttl)
    (others : ∀ other, e.key ≠ other → lastSet other (event :: log) = lastSet other log)
    (pushed : ∀ other, other ∈ keysOf entries → other ∉ keysOf rest → other ≠ e.key →
      cap ≤ (since other (e.key :: uses log)).card) : Kept ttl cap (event :: log) (e :: rest) := by
  have used : uses (event :: log) = e.key :: uses log := by
    unfold uses
    rw [List.filterMap_cons,touches]
  refine ⟨room,?_,?_,?_⟩
  · rw [used]
    exact (kept.recent.sublist (part.map Entry.key)).touch absent
  · intro f inside
    obtain same | later := List.mem_cons.mp inside
    · rw [same]
      exact own
    · have apart : e.key ≠ f.key := by
        intro same
        rw [same] at absent
        exact absent (List.mem_map.mpr ⟨f,later,rfl⟩)
      rw [others f.key apart]
      exact kept.current f (part.subset later)
  · intro other value time missing last
    have missing : other ≠ e.key ∧ other ∉ keysOf rest := by
      constructor
      · intro same
        exact missing (List.mem_cons.mpr (.inl same))
      · intro inside
        exact missing (List.mem_cons_of_mem _ inside)
    rw [used]
    by_cases there : other ∈ keysOf entries
    · exact .inr (pushed other there missing.2 missing.1)
    · rw [others other missing.1.symm] at last
      obtain ⟨event',member,late⟩ | many := kept.lost other value time there last
      · exact .inl ⟨event',List.mem_cons_of_mem _ member,late⟩
      · exact .inr (many.trans (Finset.card_le_card (since_grow missing.1.symm _)))

theorem without_shorter {e : Entry K} (member : e ∈ entries) : (without e.key entries).length < entries.length := by
  unfold without
  rw [List.length_filter_lt_length_iff_exists]
  exact ⟨e,member,by simp⟩

-- A key that is not the one taken out is still there.
theorem without_kept {other : K} (member : other ∈ keysOf entries) (apart : other ≠ key) : other ∈ keysOf (without key entries) := by
  rw [keysOf_without]
  exact List.mem_filter.mpr ⟨member,by simpa using apart⟩

theorem change_kept {c : TtlCache K} {call : Call K} {answer : Option Bool} {next : List (Entry K)}
    (kept : Kept c.ttl c.cap log c.entries) (once : c.keys.Nodup) (change : Change c now call answer next) :
    Kept c.ttl c.cap (⟨now,call,answer⟩ :: log) next := by
  cases change with
  | @miss key absent => exact kept.missed now key
  | expired member late => exact kept.drop member late
  | @hit e member early =>
    apply kept.touch rfl (without_sublist e.key c.entries) (without_absent e.key c.entries)
    · exact (without_shorter member).trans_le kept.room
    · exact kept.current e member
    · intro other _
      rfl
    · intro other there gone apart
      exact absurd (without_kept there apart) gone
  | @overwrite key value present =>
    obtain ⟨e,member,same⟩ := List.mem_map.mp present
    subst same
    apply kept.touch (e := ⟨e.key,value,now + c.ttl⟩) rfl (without_sublist e.key c.entries) (without_absent e.key c.entries)
    · exact (without_shorter member).trans_le kept.room
    · exact ⟨now,lastSet_own e.key value none log,rfl⟩
    · intro other apart
      exact lastSet_other apart value none log
    · intro other there gone apart
      exact absurd (without_kept there apart) gone
  | @insert key value absent free =>
    apply kept.touch rfl (List.Sublist.refl c.entries) absent free
    · exact ⟨now,lastSet_own key value none log,rfl⟩
    · intro other apart
      exact lastSet_other apart value none log
    · intro other there gone _
      exact absurd there gone
  | @evict key value front oldest absent full split =>
    have room := kept.room
    have recent := kept.recent
    have keys : keysOf c.entries = keysOf front ++ [oldest.key] := by
      rw [split]
      exact List.map_append
    have size : c.entries.length = front.length + 1 := by
      rw [split,List.length_append]
      rfl
    unfold TtlCache.keys at once absent
    change (keysOf c.entries).Nodup at once
    change key ∉ keysOf c.entries at absent
    rw [keys] at once absent recent
    apply kept.touch rfl
    · rw [split]
      exact List.sublist_append_left front [oldest]
    · intro inside
      exact absent (List.mem_append_left _ inside)
    · omega
    · exact ⟨now,lastSet_own key value none log,rfl⟩
    · intro other apart
      exact lastSet_other apart value none log
    · intro other there gone _
      rw [keys] at there
      have last : other = oldest.key := List.mem_singleton.mp ((List.mem_append.mp there).resolve_left gone)
      rw [last]
      change c.cap ≤ (since oldest.key (key :: uses log)).card
      have behind := recent.evicted once absent
      have long : (keysOf front).length = front.length := List.length_map _
      omega

end Kept

def capacity (size : Int) : Nat := if size ≤ 0 then 1 else size.toNat

-- The invariant of a history.
structure Sound (size ttl : Int) (log : List (Event K)) (c : TtlCache K) : Prop where
  linked : Linked c
  kept : Kept c.ttl c.cap log c.entries
  ttl : c.ttl = ttl
  cap : c.cap = capacity size

theorem call_spec {c : TtlCache K} (linked : Linked c) (room : 0 < c.cap) (now : Int) (call : Call K) : Spec c now call := by
  cases call with
  | get key => exact get_spec linked now key
  | set key value => exact set_spec linked room now key value

theorem history_sound {size ttl : Int} {log : List (Event K)} {c : TtlCache K} (history : History size ttl log c) :
    Sound size ttl log c := by
  induction history with
  | start =>
    refine ⟨⟨List.nodup_nil,?_,?_,?_⟩,⟨Nat.zero_le _,.nil,?_,?_⟩,rfl,rfl⟩
    · intro el none
      exact absurd none List.not_mem_nil
    · intro el none
      exact absurd none List.not_mem_nil
    · intro key el none
      cases none
    · intro e none
      exact absurd none List.not_mem_nil
    · intro key value time _ none
      cases none
  | @call log c now call _ _ sound =>
    have room : 0 < c.cap := by
      rw [sound.cap]
      unfold capacity
      split <;> omega
    have spec := call_spec sound.linked room now call
    refine ⟨spec.linked,?_,spec.ttl.trans sound.ttl,spec.cap.trans sound.cap⟩
    rw [spec.ttl,spec.cap]
    exact change_kept sound.kept sound.linked.keys_nodup spec.change

-- The list and the map hold the same keys, each once, and no more than the capacity.
structure WellFormed (size : Int) (c : TtlCache K) : Prop where
  once : c.keys.Nodup
  same : ∀ key, key ∈ c.keys ↔ (c.items key).isSome
  elements : c.keys.length = c.ll.length
  room : c.ll.length ≤ capacity size

theorem decision_cache {size ttl : Int} {log : List (Event K)} {c : TtlCache K} (history : History size ttl log c) :
    WellFormed size c ∧ ∀ now, (∀ event ∈ log, event.now ≤ now) → ∀ key,
      (∀ value, (c.get now key).1 = some value → ∃ time, lastSet key log = some (value,time) ∧ now ≤ time + ttl) ∧
      ∀ value time, lastSet key log = some (value,time) → now ≤ time + ttl →
        (c.get now key).1 = some value ∨ capacity size ≤ (since key (uses log)).card := by
  obtain ⟨linked,kept,same_ttl,cap⟩ := history_sound history
  have keys : c.keys.length = c.ll.length := (List.length_map _).trans linked.length
  constructor
  · refine ⟨linked.keys_nodup,linked.keys_mem,keys,?_⟩
    rw [← linked.length,← cap]
    exact kept.room
  · intro now later key
    have change := (get_spec linked now key).change
    change Change c now (.get key) (c.get now key).1 (c.get now key).2.entries at change
    rw [← same_ttl,← cap]
    generalize answered : (c.get now key).1 = answer at change
    generalize (c.get now key).2.entries = next at change
    cases change with
    | miss absent =>
      constructor
      · intro value same
        cases same
      intro value time last early
      obtain ⟨event,member,late⟩ | many := kept.lost key value time absent last
      · have before := later event member
        omega
      · exact .inr many
    | @expired e member late =>
      constructor
      · intro value same
        cases same
      intro value time last early
      obtain ⟨set_at,there,expires⟩ := kept.current e member
      cases there.symm.trans last
      omega
    | @hit e member early =>
      obtain ⟨time,there,expires⟩ := kept.current e member
      constructor
      · intro value same
        cases same
        exact ⟨time,there,by omega⟩
      · intro value time' last _
        cases there.symm.trans last
        exact .inl rfl

-- Three keys in a cache of two: the key whose last use is the oldest is gone, the one that was hit is there.
def threeCalls : TtlCache Nat := ((((newTtlCache 2 10).set 0 1 true).set 1 2 false).get 2 1).2.set 3 3 true

def threeLog : List (Event Nat) :=
  [⟨3,.set 3 true,none⟩,⟨2,.get 1,some true⟩,⟨1,.set 2 false,none⟩,⟨0,.set 1 true,none⟩]

theorem decision_cache_three : (threeCalls.get 4 2).1 = none ∧ lastSet 2 threeLog = some (false,1) ∧
    capacity 2 ≤ (since 2 (uses threeLog)).card ∧ ∃ time, lastSet 1 threeLog = some (true,time) ∧ 4 ≤ time + 10 := by
  have history : History 2 10 threeLog threeCalls := by
    refine .call 3 (.set 3 true) (.call 2 (.get 1) (.call 1 (.set 2 false) (.call 0 (.set 1 true) .start ?_) ?_) ?_) ?_
    · decide
    · decide
    · decide
    · decide
  obtain ⟨_,answers⟩ := decision_cache history
  have later : ∀ event ∈ threeLog, event.now ≤ 4 := by decide
  refine ⟨by decide,by decide,?_,(answers 4 later 1).1 true (by decide)⟩
  obtain present | pushed := (answers 4 later 2).2 false 1 (by decide) (by decide)
  · exact absurd present (by decide)
  · exact pushed

end DeepFry.Whitelist.Cache
