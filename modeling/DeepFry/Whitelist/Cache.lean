import DeepFry.Lib.Recency

namespace DeepFry.Whitelist.Cache
open Recency

-- The decision cache: list elements are allocated by number, the map points at them.
variable {K : Type}

structure Entry (K : Type) where
  key : K
  value : Bool
  expiresAt : Int
deriving Repr,DecidableEq

structure TtlCache (K : Type) where
  ttl : Int
  cap : Nat
  ll : List Nat
  items : K → Option Nat
  entry : Nat → Option (Entry K)
  next : Nat

def newTtlCache (size ttl : Int) : TtlCache K := ⟨ttl,if size ≤ 0 then 1 else size.toNat,[],fun _ => none,fun _ => none,0⟩

def moveToFront (el : Nat) (ll : List Nat) : List Nat := if el ∈ ll then el :: ll.erase el else ll

section Calls
variable [DecidableEq K]

def TtlCache.get (c : TtlCache K) (now : Int) (key : K) : Option Bool × TtlCache K :=
  match c.items key with
  | none => (none,c)
  | some el =>
    match c.entry el with
    | none => (none,c)
    | some entry =>
      if now > entry.expiresAt then (none,{c with ll := c.ll.erase el,items := Function.update c.items key none})
      else (some entry.value,{c with ll := moveToFront el c.ll})

-- The oldest element goes, and the key of its entry out of the map.
def TtlCache.evict (c : TtlCache K) : TtlCache K :=
  match c.ll.getLast? with
  | none => c
  | some oldest =>
    match c.entry oldest with
    | none => {c with ll := c.ll.erase oldest}
    | some entry => {c with ll := c.ll.erase oldest,items := Function.update c.items entry.key none}

def TtlCache.pushFront (c : TtlCache K) (entry : Entry K) : TtlCache K := {c with
  ll := c.next :: c.ll
  items := Function.update c.items entry.key (some c.next)
  entry := Function.update c.entry c.next (some entry)
  next := c.next + 1}

def TtlCache.set (c : TtlCache K) (now : Int) (key : K) (value : Bool) : TtlCache K :=
  match c.items key with
  | some el => {c with
      ll := moveToFront el c.ll
      entry := Function.update c.entry el (some ⟨key,value,now + c.ttl⟩)}
  | none => (if c.ll.length ≥ c.cap then c.evict else c).pushFront ⟨key,value,now + c.ttl⟩

end Calls

-- The entries from front to back: what the two structures are for.
def TtlCache.entries (c : TtlCache K) : List (Entry K) := c.ll.filterMap c.entry

def TtlCache.keys (c : TtlCache K) : List K := c.entries.map Entry.key

def without [DecidableEq K] (key : K) (entries : List (Entry K)) : List (Entry K) := entries.filter fun e => e.key ≠ key

-- Each element has an entry that the map finds, and the map finds nothing else.
structure Linked (c : TtlCache K) : Prop where
  once : c.ll.Nodup
  fresh : ∀ el ∈ c.ll, el < c.next
  entry : ∀ el ∈ c.ll, ∃ e, c.entry el = some e ∧ c.items e.key = some el
  item : ∀ key el, c.items key = some el → el ∈ c.ll ∧ ∃ e, c.entry el = some e ∧ e.key = key

section Linked
variable {c : TtlCache K} {key : K} {el : Nat} {e : Entry K}

theorem Linked.same (linked : Linked c) {other : Nat} (left : el ∈ c.ll) (right : other ∈ c.ll) {f : Entry K}
    (first : c.entry el = some e) (second : c.entry other = some f) (key : e.key = f.key) : el = other := by
  obtain ⟨e',there,found⟩ := linked.entry el left
  obtain ⟨f',here,again⟩ := linked.entry other right
  cases first.symm.trans there
  cases second.symm.trans here
  rw [key] at found
  exact Option.some.inj (found.symm.trans again)

theorem Linked.keys_nodup (linked : Linked c) : c.keys.Nodup := by
  unfold TtlCache.keys TtlCache.entries
  rw [List.Nodup,List.pairwise_map,List.pairwise_filterMap]
  apply List.Pairwise.imp_of_mem _ linked.once
  intro el other left right apart e first f second same
  exact apart (linked.same left right first second same)

theorem Linked.keys_mem (linked : Linked c) (key : K) : key ∈ c.keys ↔ (c.items key).isSome := by
  unfold TtlCache.keys TtlCache.entries
  constructor
  · intro member
    obtain ⟨e,listed,same⟩ := List.mem_map.mp member
    obtain ⟨el,inside,there⟩ := List.mem_filterMap.mp listed
    obtain ⟨e',again,found⟩ := linked.entry el inside
    cases there.symm.trans again
    rw [← same,found]
    rfl
  · intro found
    obtain ⟨el,found⟩ := Option.isSome_iff_exists.mp found
    obtain ⟨inside,e,there,same⟩ := linked.item key el found
    exact List.mem_map.mpr ⟨e,List.mem_filterMap.mpr ⟨el,inside,there⟩,same⟩

theorem Linked.length (linked : Linked c) : c.entries.length = c.ll.length := by
  unfold TtlCache.entries
  apply List.filterMap_length_eq_length.mpr
  intro el member
  obtain ⟨e,there,_⟩ := linked.entry el member
  rw [there]
  rfl

-- Taking an element off the list takes its key off the entries.
theorem Linked.erase [DecidableEq K] (linked : Linked c) (member : el ∈ c.ll) (there : c.entry el = some e) :
    (c.ll.erase el).filterMap c.entry = without e.key c.entries := by
  unfold without TtlCache.entries
  rw [linked.once.erase_eq_filter,List.filterMap_filter,List.filter_filterMap]
  apply List.filterMap_congr
  intro other inside
  obtain ⟨f,here,_⟩ := linked.entry other inside
  rw [here]
  by_cases same : f.key = e.key
  · have equal := linked.same inside member here there same
    simp [Option.filter,same,equal]
  · have apart : other ≠ el := by
      intro equal
      rw [equal] at here
      cases here.symm.trans there
      exact same rfl
    simp [Option.filter,same,apart]

theorem Linked.remove [DecidableEq K] (linked : Linked c) (member : el ∈ c.ll) (there : c.entry el = some e) :
    Linked {c with ll := c.ll.erase el,items := Function.update c.items e.key none} := by
  refine ⟨linked.once.erase el,?_,?_,?_⟩
  · intro other inside
    exact linked.fresh other (List.mem_of_mem_erase inside)
  · intro other inside
    obtain ⟨apart,old⟩ := linked.once.mem_erase_iff.mp inside
    obtain ⟨f,here,found⟩ := linked.entry other old
    refine ⟨f,here,?_⟩
    have distinct : f.key ≠ e.key := fun same => apart (linked.same old member here there same)
    dsimp only
    rw [Function.update_of_ne distinct,found]
  · intro key other found
    dsimp only at found
    by_cases own : key = e.key
    · rw [own,Function.update_self] at found
      cases found
    · rw [Function.update_of_ne own] at found
      obtain ⟨old,f,here,same⟩ := linked.item key other found
      refine ⟨linked.once.mem_erase_iff.mpr ⟨?_,old⟩,f,here,same⟩
      intro equal
      rw [equal] at here
      cases here.symm.trans there
      exact own same.symm

-- An element brought to the front, with the entry it has or one written over it.
theorem Linked.front (linked : Linked c) (member : el ∈ c.ll) (there : c.entry el = some e) {f : Entry K} (same : f.key = e.key) :
    Linked {c with ll := moveToFront el c.ll,entry := Function.update c.entry el (some f)} := by
  have order : ∀ other, other ∈ moveToFront el c.ll ↔ other ∈ c.ll := by
    intro other
    unfold moveToFront
    rw [if_pos member]
    exact (List.perm_cons_erase member).symm.mem_iff
  refine ⟨?_,?_,?_,?_⟩
  · unfold moveToFront
    rw [if_pos member]
    exact (List.perm_cons_erase member).nodup_iff.mp linked.once
  · intro other inside
    exact linked.fresh other ((order other).mp inside)
  · intro other inside
    have old := (order other).mp inside
    dsimp only
    by_cases own : other = el
    · rw [own,Function.update_self]
      obtain ⟨e',here,found⟩ := linked.entry el member
      cases there.symm.trans here
      refine ⟨f,rfl,?_⟩
      rw [same]
      exact found
    · rw [Function.update_of_ne own]
      exact linked.entry other old
  · intro key other found
    obtain ⟨old,g,here,named⟩ := linked.item key other found
    refine ⟨(order other).mpr old,?_⟩
    dsimp only
    by_cases own : other = el
    · rw [own] at here
      cases there.symm.trans here
      rw [own,Function.update_self]
      exact ⟨f,rfl,same.trans named⟩
    · rw [Function.update_of_ne own]
      exact ⟨g,here,named⟩

theorem Linked.front_entries [DecidableEq K] (linked : Linked c) (member : el ∈ c.ll) (there : c.entry el = some e) (f : Entry K) :
    (moveToFront el c.ll).filterMap (Function.update c.entry el (some f)) = f :: without e.key c.entries := by
  unfold moveToFront
  rw [if_pos member,List.filterMap_cons,Function.update_self,← linked.erase member there]
  dsimp only
  congr 1
  apply List.filterMap_congr
  intro other inside
  exact Function.update_of_ne (linked.once.mem_erase_iff.mp inside).1 _ _

theorem Linked.pushFront [DecidableEq K] (linked : Linked c) (absent : c.items e.key = none) : Linked (c.pushFront e) := by
  have unused : c.next ∉ c.ll := fun member => absurd (linked.fresh c.next member) (lt_irrefl _)
  have other_entry : ∀ el ∈ c.ll, (c.pushFront e).entry el = c.entry el := by
    intro el member
    exact Function.update_of_ne (linked.fresh el member).ne _ _
  refine ⟨List.nodup_cons.mpr ⟨unused,linked.once⟩,?_,?_,?_⟩
  · intro el member
    obtain same | old := List.mem_cons.mp member
    · rw [same]
      exact Nat.lt_succ_self c.next
    · exact Nat.lt_succ_of_lt (linked.fresh el old)
  · intro el member
    obtain same | old := List.mem_cons.mp member
    · rw [same]
      exact ⟨e,Function.update_self _ _ _,Function.update_self _ _ _⟩
    · obtain ⟨f,here,found⟩ := linked.entry el old
      refine ⟨f,(other_entry el old).trans here,?_⟩
      have apart : f.key ≠ e.key := by
        intro same
        rw [same,absent] at found
        cases found
      exact (Function.update_of_ne apart _ _).trans found
  · intro key el found
    by_cases own : key = e.key
    · subst own
      change Function.update c.items e.key (some c.next) e.key = some el at found
      rw [Function.update_self] at found
      rw [← Option.some.inj found]
      exact ⟨List.mem_cons_self,e,Function.update_self _ _ _,rfl⟩
    · have older : c.items key = some el := (Function.update_of_ne own _ _).symm.trans found
      obtain ⟨old,f,here,same⟩ := linked.item key el older
      exact ⟨List.mem_cons_of_mem _ old,f,(other_entry el old).trans here,same⟩

theorem Linked.pushFront_entries [DecidableEq K] (linked : Linked c) (e : Entry K) : (c.pushFront e).entries = e :: c.entries := by
  unfold TtlCache.entries TtlCache.pushFront
  rw [List.filterMap_cons]
  dsimp only
  rw [Function.update_self]
  dsimp only
  congr 1
  apply List.filterMap_congr
  intro el member
  exact Function.update_of_ne (linked.fresh el member).ne _ _

theorem evict_ttl [DecidableEq K] (c : TtlCache K) : c.evict.ttl = c.ttl := by
  unfold TtlCache.evict
  split
  · rfl
  · split <;> rfl

theorem evict_cap [DecidableEq K] (c : TtlCache K) : c.evict.cap = c.cap := by
  unfold TtlCache.evict
  split
  · rfl
  · split <;> rfl

theorem Linked.evict [DecidableEq K] (linked : Linked c) (filled : c.ll ≠ []) : ∃ front oldest,
    c.entries = front ++ [oldest] ∧ Linked c.evict ∧ c.evict.entries = front ∧
      ∀ key, c.items key = none → c.evict.items key = none := by
  obtain ⟨rest,el,split⟩ := List.eq_nil_or_concat'  c.ll |>.resolve_left filled
  have member : el ∈ c.ll := by
    rw [split]
    exact List.mem_append_right rest (List.mem_singleton_self el)
  obtain ⟨oldest,there,_⟩ := linked.entry el member
  have once := linked.once
  rw [split] at once
  have erased : c.ll.erase el = rest := by
    have apart : el ∉ rest := fun inside => (List.nodup_append.mp once).2.2 el inside el (List.mem_singleton_self el) rfl
    rw [split,List.erase_append_right _ apart]
    simp
  have evicted : c.evict = {c with ll := c.ll.erase el,items := Function.update c.items oldest.key none} := by
    unfold TtlCache.evict
    rw [split,List.getLast?_append_of_ne_nil _ (List.cons_ne_nil el [])]
    dsimp only [List.getLast?_singleton]
    rw [there]
  refine ⟨rest.filterMap c.entry,oldest,?_,?_,?_,?_⟩
  · unfold TtlCache.entries
    rw [split,List.filterMap_append]
    simp [there]
  · rw [evicted]
    exact linked.remove member there
  · rw [evicted]
    unfold TtlCache.entries
    dsimp only
    rw [erased]
  · intro key absent
    rw [evicted]
    dsimp only
    by_cases own : key = oldest.key
    · rw [own,Function.update_self]
    · rw [Function.update_of_ne own,absent]

end Linked

inductive Call (K : Type) where
  | get (key : K)
  | set (key : K) (value : Bool)
deriving Repr,DecidableEq

section History
variable [DecidableEq K]

def TtlCache.call (c : TtlCache K) (now : Int) : Call K → Option Bool × TtlCache K
  | .get key => c.get now key
  | .set key value => (none,c.set now key value)

-- What each call does to the entries, once for all the invariants.
inductive Change (c : TtlCache K) (now : Int) : Call K → Option Bool → List (Entry K) → Prop where
  | miss {key : K} : key ∉ c.keys → Change c now (.get key) none c.entries
  | expired {e : Entry K} : e ∈ c.entries → e.expiresAt < now → Change c now (.get e.key) none (without e.key c.entries)
  | hit {e : Entry K} : e ∈ c.entries → now ≤ e.expiresAt →
      Change c now (.get e.key) (some e.value) (e :: without e.key c.entries)
  | overwrite {key : K} (value : Bool) : key ∈ c.keys →
      Change c now (.set key value) none (⟨key,value,now + c.ttl⟩ :: without key c.entries)
  | insert {key : K} (value : Bool) : key ∉ c.keys → c.entries.length < c.cap →
      Change c now (.set key value) none (⟨key,value,now + c.ttl⟩ :: c.entries)
  | evict {key : K} (value : Bool) {front : List (Entry K)} {oldest : Entry K} : key ∉ c.keys →
      c.cap ≤ c.entries.length → c.entries = front ++ [oldest] →
      Change c now (.set key value) none (⟨key,value,now + c.ttl⟩ :: front)

structure Spec (c : TtlCache K) (now : Int) (call : Call K) : Prop where
  linked : Linked (c.call now call).2
  change : Change c now call (c.call now call).1 (c.call now call).2.entries
  ttl : (c.call now call).2.ttl = c.ttl
  cap : (c.call now call).2.cap = c.cap

variable {c : TtlCache K}

theorem get_spec (linked : Linked c) (now : Int) (key : K) : Spec c now (.get key) := by
  have listed := linked.keys_mem key
  cases found : c.items key with
  | none =>
    have same : c.call now (.get key) = (none,c) := by
      change c.get now _ = _
      unfold TtlCache.get
      rw [found]
    rw [found] at listed
    refine ⟨?_,?_,?_,?_⟩ <;> rw [same]
    · exact linked
    · exact .miss (fun member => Bool.noConfusion (listed.mp member))
  | some el =>
    obtain ⟨member,e,there,own⟩ := linked.item key el found
    have inside : e ∈ c.entries := List.mem_filterMap.mpr ⟨el,member,there⟩
    subst own
    by_cases late : now > e.expiresAt
    · have same : c.call now (.get e.key) = (none,{c with ll := c.ll.erase el,items := Function.update c.items e.key none}) := by
        change c.get now _ = _
        unfold TtlCache.get
        rw [found]
        dsimp only
        rw [there]
        exact if_pos late
      refine ⟨?_,?_,?_,?_⟩ <;> rw [same]
      · exact linked.remove member there
      · have change : Change c now _ _ _ := .expired inside late
        rw [← linked.erase member there] at change
        exact change
    · have same : c.call now (.get e.key) = (some e.value,{c with
          ll := moveToFront el c.ll,entry := Function.update c.entry el (some e)}) := by
        have kept : Function.update c.entry el (some e) = c.entry := by
          rw [← there,Function.update_eq_self]
        change c.get now _ = _
        unfold TtlCache.get
        rw [found,kept]
        dsimp only
        rw [there]
        exact if_neg late
      refine ⟨?_,?_,?_,?_⟩ <;> rw [same]
      · exact linked.front member there rfl
      · have change : Change c now _ _ _ := .hit inside (not_lt.mp late)
        rw [← linked.front_entries member there] at change
        exact change

theorem set_spec (linked : Linked c) (room : 0 < c.cap) (now : Int) (key : K) (value : Bool) :
    Spec c now (.set key value) := by
  have listed := linked.keys_mem key
  cases found : c.items key with
  | some el =>
    obtain ⟨member,e,there,own⟩ := linked.item key el found
    rw [found] at listed
    have same : c.call now (.set key value) = (none,{c with
        ll := moveToFront el c.ll,entry := Function.update c.entry el (some ⟨key,value,now + c.ttl⟩)}) := by
      change (none,c.set now _ _) = _
      unfold TtlCache.set
      rw [found]
    refine ⟨?_,?_,?_,?_⟩ <;> rw [same]
    · exact linked.front member there own.symm
    · have change : Change c now _ _ _ := .overwrite value (listed.mpr rfl)
      have entries := linked.front_entries member there ⟨key,value,now + c.ttl⟩
      rw [own] at entries
      rw [← entries] at change
      exact change
  | none =>
    rw [found] at listed
    have absent : key ∉ c.keys := fun member => Bool.noConfusion (listed.mp member)
    by_cases full : c.ll.length ≥ c.cap
    · have filled : c.ll ≠ [] := by
        intro empty
        rw [empty,List.length_nil] at full
        omega
      obtain ⟨front,oldest,split,linked',entries,kept⟩ := linked.evict filled
      have same : c.call now (.set key value) = (none,c.evict.pushFront ⟨key,value,now + c.ttl⟩) := by
        change (none,c.set now _ _) = _
        unfold TtlCache.set
        rw [found]
        dsimp only
        rw [if_pos full]
      refine ⟨?_,?_,?_,?_⟩ <;> rw [same]
      · exact linked'.pushFront (kept key found)
      · rw [linked'.pushFront_entries,entries]
        apply Change.evict value absent _ split
        rw [linked.length]
        exact full
      · exact evict_ttl c
      · exact evict_cap c
    · have same : c.call now (.set key value) = (none,c.pushFront ⟨key,value,now + c.ttl⟩) := by
        change (none,c.set now _ _) = _
        unfold TtlCache.set
        rw [found]
        dsimp only
        rw [if_neg full]
      refine ⟨?_,?_,?_,?_⟩ <;> rw [same]
      · exact linked.pushFront found
      · rw [linked.pushFront_entries]
        apply Change.insert value absent
        rw [linked.length]
        omega
      · rfl
      · rfl

end History

end DeepFry.Whitelist.Cache
