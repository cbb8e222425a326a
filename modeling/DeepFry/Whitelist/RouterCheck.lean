import DeepFry.Lib.Machine
import DeepFry.Whitelist.CacheHistory
import DeepFry.Whitelist.Repository

namespace DeepFry.Whitelist.RouterCheck
open Cache Repository

def DefaultCacheSize : Int := 8192

-- Times and durations in nanoseconds.
def DefaultCacheTTL : Int := 30 * 1000000000

inductive RejectReason where
  | notInWoT
  | checkFailed
deriving DecidableEq

inductive Verdict where
  | accept
  | reject (reason : RejectReason)
deriving DecidableEq

-- One refresh: the store at each request of the walk, how many requests were made, and the keys.
structure Refresh where
  db : Nat → Profiles
  requests : Nat
  keys : List Bytes32

-- What happened, for the invariants; nothing reads it. served: the server's answer to a check, decided: the router's answer to an event.
inductive Entry where
  | refreshed (now : Int) (refresh : Refresh)
  | served (now : Int) (pubkey : Str) (whitelisted : Bool)
  | decided (now : Int) (pubkey : Str) (verdict : Verdict)

-- The router's one check at a time: asking since the request was sent, replied once the server has answered it.
inductive Phase where
  | idle
  | asking (pubkey : Str) (sent : Int)
  | replied (pubkey : Str) (sent : Int) (whitelisted : Bool)

structure World where
  clock : Int
  list : List Bytes32
  cache : TtlCache Str
  calls : List (Event Str)
  phase : Phase
  journal : List Entry

-- unicode: the letter tables of strings.ToLower. route: the pubkey that the server's mux finds in the URL made of a pubkey, none
-- where it finds no check. timeout: CheckTimeout, on the whole request with its body.
structure Setting where
  unicode : Unicode
  route : Str → Option Str
  timeout : Int
  pageSize : Nat
  retryCount : Nat

-- A URL is its own text where the pubkey is hexadecimal.
structure Setting.Lawful (cfg : Setting) : Prop where
  route : ∀ s, isHexKey s = true → cfg.route s = some s
  pageSize : 0 < cfg.pageSize

-- One attempt of GetAll: the store and the failures its requests meet, and how long it is let to run.
structure Attempt where
  db : Nat → Profiles
  fails : Nat → Option Str
  fuel : Nat

-- refresh: the attempts until one succeeds or all have failed; none where the context ends first.
def refresh (cfg : Setting) : Nat → List Attempt → Option Refresh
  | 0,_ => none
  | _,[] => none
  | left + 1,a :: rest =>
    match getAll cfg.pageSize (serve a.db cfg.pageSize a.fails) a.fuel with
    | none => none
    | some (.error _,_) => refresh cfg left rest
    | some (.ok keys,requests) => some ⟨a.db,requests,keys⟩

-- handleCheck, on the path value; an empty one is refused.
def handleCheck (cfg : Setting) (list : List Bytes32) (pubkey : Str) : Option Bool :=
  if pubkey.isEmpty then none
  else
    match isWhitelisted cfg.unicode (some list) pubkey with
    | .error _ => none
    | .ok (result,_) => some result

def verdict (whitelisted : Bool) : Verdict := if whitelisted then .accept else .reject .notInWoT

def World.call (now : Int) (call : Call Str) (w : World) : World :=
  { w with cache := (w.cache.call now call).2, calls := ⟨now,call,(w.cache.call now call).1⟩ :: w.calls }

def World.decide (now : Int) (pubkey : Str) (v : Verdict) (w : World) : World :=
  { w with phase := .idle, journal := .decided now pubkey v :: w.journal }

-- check: the router takes an event of that pubkey. answer: the server's handler runs. deliver: the reply is decoded.
-- fail: the request ends in an error, before or after the server has seen it.
inductive Action where
  | refresh (attempts : List Attempt)
  | check (pubkey : Str)
  | answer
  | deliver
  | fail

def perform (cfg : Setting) (now : Int) (w : World) : Action → Option World
  | .refresh attempts =>
    match refresh cfg (cfg.retryCount + 1) attempts with
    | none => some w
    | some r => some { w with list := r.keys, journal := .refreshed now r :: w.journal }
  | .check pubkey =>
    match w.phase with
    | .idle =>
      match (w.cache.get now pubkey).1 with
      | some whitelisted => some ((w.call now (.get pubkey)).decide now pubkey (verdict whitelisted))
      | none => some { w.call now (.get pubkey) with phase := .asking pubkey now }
    | _ => none
  | .answer =>
    match w.phase with
    | .asking pubkey sent =>
      match (cfg.route pubkey).bind (handleCheck cfg w.list) with
      | none => some (w.decide now pubkey (.reject .checkFailed))
      | some whitelisted =>
        some { w with phase := .replied pubkey sent whitelisted, journal := .served now pubkey whitelisted :: w.journal }
    | _ => none
  | .deliver =>
    match w.phase with
    | .replied pubkey sent whitelisted =>
      if sent + cfg.timeout < now then some (w.decide now pubkey (.reject .checkFailed))
      else some ((w.call now (.set pubkey whitelisted)).decide now pubkey (verdict whitelisted))
    | _ => none
  | .fail =>
    match w.phase with
    | .idle => none
    | .asking pubkey _ | .replied pubkey _ _ => some (w.decide now pubkey (.reject .checkFailed))

-- The clock does not go back.
def step (cfg : Setting) (w : World) (action : Int × Action) : Option World :=
  if action.1 < w.clock then none else perform cfg action.1 { w with clock := action.1 } action.2

def boot (now : Int) : World := ⟨now,[],newTtlCache DefaultCacheSize DefaultCacheTTL,[],.idle,[]⟩

-- The refresh in force.
def latest : List Entry → Option Refresh
  | [] => none
  | .refreshed _ r :: _ => some r
  | .served _ _ _ :: rest => latest rest
  | .decided _ _ _ :: rest => latest rest

def inForce (journal : List Entry) : List Bytes32 := ((latest journal).map Refresh.keys).getD []

-- The server gave that answer, not long before now.
def Backed (journal : List Entry) (pubkey : Str) (whitelisted : Bool) (now age : Int) : Prop :=
  ∃ newer ts rest, journal = newer ++ .served ts pubkey whitelisted :: rest ∧ now ≤ ts + age

-- What every entry is held to, by the entries before it.
def Honest (cfg : Setting) : List Entry → Prop
  | [] => True
  | .refreshed _ r :: rest =>
    (∃ a : Attempt, a.db = r.db ∧ getAll cfg.pageSize (serve a.db cfg.pageSize a.fails) a.fuel = some (.ok r.keys,r.requests)) ∧
      Honest cfg rest
  | .served _ pubkey whitelisted :: rest => (cfg.route pubkey).bind (handleCheck cfg (inForce rest)) = some whitelisted ∧ Honest cfg rest
  | .decided now pubkey v :: rest =>
    (∀ whitelisted, v = verdict whitelisted → Backed rest pubkey whitelisted now (cfg.timeout + DefaultCacheTTL)) ∧ Honest cfg rest

theorem Backed.cons {journal : List Entry} {pubkey : Str} {whitelisted : Bool} {now age : Int}
    (backed : Backed journal pubkey whitelisted now age) (entry : Entry) : Backed (entry :: journal) pubkey whitelisted now age := by
  obtain ⟨newer,ts,rest,rfl,fresh⟩ := backed
  exact ⟨entry :: newer,ts,rest,rfl,fresh⟩

theorem Backed.mono {journal : List Entry} {pubkey : Str} {whitelisted : Bool} {now later age more : Int}
    (backed : Backed journal pubkey whitelisted now age) (within : later - now ≤ more - age) :
    Backed journal pubkey whitelisted later more := by
  obtain ⟨newer,ts,rest,same,fresh⟩ := backed
  exact ⟨newer,ts,rest,same,by omega⟩

structure Sound (cfg : Setting) (w : World) : Prop where
  history : History DefaultCacheSize DefaultCacheTTL w.calls w.cache
  dated : ∀ event ∈ w.calls, event.now ≤ w.clock
  set_ : ∀ pubkey whitelisted time, lastSet pubkey w.calls = some (whitelisted,time) →
    Backed w.journal pubkey whitelisted time cfg.timeout
  asked : ∀ pubkey sent, w.phase = .asking pubkey sent → sent ≤ w.clock
  replied : ∀ pubkey sent whitelisted, w.phase = .replied pubkey sent whitelisted → Backed w.journal pubkey whitelisted sent 0
  list : w.list = inForce w.journal
  honest : Honest cfg w.journal

-- A hit answers with the last Set, and not later than it lasts.
theorem hit_last {size ttl now : Int} {calls : List (Event Str)} {c : TtlCache Str} (history : History size ttl calls c) {pubkey : Str}
    {whitelisted : Bool} (hit : (c.get now pubkey).1 = some whitelisted) :
    ∃ time, lastSet pubkey calls = some (whitelisted,time) ∧ now ≤ time + ttl := by
  obtain ⟨linked,kept,same,_⟩ := history_sound history
  have change := (get_spec linked now pubkey).change
  change Change c now (.get pubkey) (c.get now pubkey).1 (c.get now pubkey).2.entries at change
  rw [hit] at change
  generalize (c.get now pubkey).2.entries = next at change
  cases change with
  | @hit e member early =>
    obtain ⟨time,last,expires⟩ := kept.current e member
    exact ⟨time,last,by omega⟩

section Steps
variable {cfg : Setting} {w next : World} {now : Int}

theorem refresh_honest {left : Nat} {attempts : List Attempt} {r : Refresh} (refreshed : refresh cfg left attempts = some r) :
    ∃ a : Attempt, a.db = r.db ∧ getAll cfg.pageSize (serve a.db cfg.pageSize a.fails) a.fuel = some (.ok r.keys,r.requests) := by
  induction attempts generalizing left with
  | nil => cases left <;> cases refreshed
  | cons a rest ih =>
    cases left with
    | zero => cases refreshed
    | succ left =>
      rw [refresh] at refreshed
      split at refreshed
      · cases refreshed
      · exact ih refreshed
      · next keys requests read =>
        cases refreshed
        exact ⟨a,rfl,read⟩

theorem Sound.tick (sound : Sound cfg w) (later : w.clock ≤ now) : Sound cfg { w with clock := now } :=
  ⟨sound.history,fun event member => (sound.dated event member).trans later,sound.set_,
    fun pubkey sent asking => (sound.asked pubkey sent asking).trans later,sound.replied,sound.list,sound.honest⟩

theorem decide_sound (sound : Sound cfg w) (pubkey : Str) (v : Verdict)
    (backed : ∀ whitelisted, v = verdict whitelisted → Backed w.journal pubkey whitelisted now (cfg.timeout + DefaultCacheTTL)) :
    Sound cfg (w.decide now pubkey v) :=
  ⟨sound.history,sound.dated,fun pk whitelisted time last => (sound.set_ pk whitelisted time last).cons _,
    fun _ _ => (nomatch ·),fun _ _ _ => (nomatch ·),sound.list,backed,sound.honest⟩

theorem failed_sound (sound : Sound cfg w) (pubkey : Str) : Sound cfg (w.decide now pubkey (.reject .checkFailed)) := by
  refine decide_sound sound pubkey _ fun whitelisted same => ?_
  cases whitelisted <;> cases same

theorem get_sound (sound : Sound cfg w) (pubkey : Str) : Sound cfg (w.call w.clock (.get pubkey)) := by
  refine ⟨.call w.clock (.get pubkey) sound.history sound.dated,fun event member => ?_,sound.set_,sound.asked,sound.replied,
    sound.list,sound.honest⟩
  rcases List.mem_cons.mp member with rfl | old
  · exact le_refl _
  · exact sound.dated event old

theorem set_sound (sound : Sound cfg w) {pubkey : Str} {whitelisted : Bool}
    (backed : Backed w.journal pubkey whitelisted w.clock cfg.timeout) : Sound cfg (w.call w.clock (.set pubkey whitelisted)) := by
  refine ⟨.call w.clock (.set pubkey whitelisted) sound.history sound.dated,fun event member => ?_,fun pk other time last => ?_,
    sound.asked,sound.replied,sound.list,sound.honest⟩
  · rcases List.mem_cons.mp member with rfl | old
    · exact le_refl _
    · exact sound.dated event old
  · by_cases own : pubkey = pk
    · subst own
      cases (lastSet_own pubkey whitelisted _ w.calls).symm.trans last
      exact backed
    · exact sound.set_ pk other time ((lastSet_other own whitelisted _ w.calls).symm.trans last)

theorem verdict_injective {one other : Bool} (same : verdict one = verdict other) : one = other := by
  cases one <;> cases other <;> first | rfl | cases same

theorem perform_sound (sound : Sound cfg w) {action : Action} (moved : perform cfg w.clock w action = some next) : Sound cfg next := by
  cases action with
  | refresh attempts =>
    simp only [perform] at moved
    split at moved
    · cases moved
      exact sound
    · next r refreshed =>
      cases moved
      exact ⟨sound.history,sound.dated,fun pk whitelisted time last => (sound.set_ pk whitelisted time last).cons _,sound.asked,
        fun pk sent whitelisted replied => (sound.replied pk sent whitelisted replied).cons _,rfl,refresh_honest refreshed,sound.honest⟩
  | check pubkey =>
    simp only [perform] at moved
    split at moved
    · have asked := get_sound sound pubkey
      split at moved
      · next whitelisted hit =>
        cases moved
        refine decide_sound asked pubkey _ fun other same => ?_
        obtain rfl := verdict_injective same
        obtain ⟨time,last,early⟩ := hit_last sound.history hit
        exact (sound.set_ pubkey _ time last).mono (by omega)
      · cases moved
        refine ⟨asked.history,asked.dated,asked.set_,fun pk sent asking => ?_,fun _ _ _ => (nomatch ·),asked.list,asked.honest⟩
        cases asking
        exact le_refl _
    · cases moved
  | answer =>
    simp only [perform] at moved
    split at moved
    · next pubkey sent asking =>
      split at moved
      · cases moved
        exact failed_sound sound pubkey
      · next whitelisted answered =>
        cases moved
        refine ⟨sound.history,sound.dated,fun pk other time last => (sound.set_ pk other time last).cons _,
          fun _ _ => (nomatch ·),fun pk sent' other replied => ?_,sound.list,?_,sound.honest⟩
        · cases replied
          have before := sound.asked pubkey sent asking
          exact ⟨[],w.clock,w.journal,rfl,by omega⟩
        · rw [← sound.list]
          exact answered
    · cases moved
  | deliver =>
    simp only [perform] at moved
    split at moved
    · next pubkey sent whitelisted replied =>
      have backed := sound.replied pubkey sent whitelisted replied
      split at moved
      · cases moved
        exact failed_sound sound pubkey
      · next early =>
        cases moved
        refine decide_sound (set_sound sound (backed.mono (by omega))) pubkey _ fun other same => ?_
        obtain rfl := verdict_injective same
        have lasting : 0 ≤ DefaultCacheTTL := by decide
        exact backed.mono (by omega)
    · cases moved
  | fail =>
    simp only [perform] at moved
    split at moved
    · cases moved
    · cases moved
      exact failed_sound sound _
    · cases moved
      exact failed_sound sound _

theorem step_sound (sound : Sound cfg w) {action : Int × Action} (moved : step cfg w action = some next) : Sound cfg next := by
  unfold step at moved
  split at moved
  · cases moved
  · next later => exact perform_sound (sound.tick (not_lt.mp later)) moved

theorem boot_sound (cfg : Setting) (start : Int) : Sound cfg (boot start) :=
  ⟨.start,fun _ member => absurd member List.not_mem_nil,fun _ _ _ last => (nomatch last),fun _ _ => (nomatch ·),
    fun _ _ _ => (nomatch ·),rfl,trivial⟩

theorem Honest.suffix (newer : List Entry) {older : List Entry} (honest : Honest cfg (newer ++ older)) : Honest cfg older := by
  induction newer with
  | nil => exact honest
  | cons entry rest ih => cases entry <;> exact ih honest.2

-- The list's answer for a hexadecimal pubkey.
theorem isWhitelisted_hex {unicode : Unicode} {pubkey : Str} {k : Bytes32} (hex : isHexKey pubkey = true)
    (key : hexTo32ByteArray pubkey = some k) (list : List Bytes32) :
    isWhitelisted unicode (some list) pubkey = .ok (decide (k ∈ list),none) := by
  obtain ⟨bytes,read,decoded⟩ := @decodeKey_hex unicode pubkey hex
  have same : bytes = k.bytes := by
    rw [hexTo32ByteArray,read] at key
    simp only at key
    split at key
    · cases key
      rfl
    · cases key
  have held : (list.any fun other => decide (other.bytes = bytes)) = decide (k ∈ list) := by
    rw [same,Bool.eq_iff_iff,List.any_eq_true,decide_eq_true_eq]
    constructor
    · rintro ⟨other,member,equal⟩
      obtain ⟨bytes,size⟩ := k
      obtain ⟨bytes',size'⟩ := other
      cases of_decide_eq_true equal
      exact member
    · exact fun member => ⟨k,member,decide_eq_true rfl⟩
  rw [isWhitelisted,lookup,decoded]
  exact congrArg (fun b => Except.ok (b,none)) held

theorem handleCheck_hex {pubkey : Str} {k : Bytes32} (hex : isHexKey pubkey = true) (key : hexTo32ByteArray pubkey = some k)
    (list : List Bytes32) : handleCheck cfg list pubkey = some (decide (k ∈ list)) := by
  rw [handleCheck,if_neg (by rw [List.isEmpty_iff]; exact hexTo32ByteArray_given key),isWhitelisted_hex hex key]

-- Where a key of the list in force comes from, and which keys it cannot lack.
def Listed (r : Refresh) (k : Bytes32) : Prop :=
  (∃ j < r.requests, ∃ row ∈ (r.db j).rows, hexTo32ByteArray row.pubkey = some k) ∨
    ∃ pk ∈ getHardcodedPubkeys, hexTo32ByteArray pk = some k

def Lasting (r : Refresh) (k : Bytes32) : Prop :=
  (∃ row, (∀ j < r.requests, row ∈ (r.db j).rows) ∧ hexTo32ByteArray row.pubkey = some k) ∨
    ∃ pk ∈ getHardcodedPubkeys, hexTo32ByteArray pk = some k

-- A refresh that some walk made.
def Refresh.Walked (cfg : Setting) (r : Refresh) : Prop :=
  ∃ a : Attempt, a.db = r.db ∧ getAll cfg.pageSize (serve a.db cfg.pageSize a.fails) a.fuel = some (.ok r.keys,r.requests)

theorem Refresh.Walked.listed {r : Refresh} {k : Bytes32} (walked : r.Walked cfg) (lawful : cfg.Lawful) (member : k ∈ r.keys) :
    Listed r k := by
  obtain ⟨a,same,read⟩ := walked
  have listed := (walk_keys lawful.pageSize read).1 k member
  rw [same] at listed
  exact listed

theorem Refresh.Walked.lasting {r : Refresh} {k : Bytes32} (walked : r.Walked cfg) (lawful : cfg.Lawful) (lasting : Lasting r k) :
    k ∈ r.keys := by
  obtain ⟨a,same,read⟩ := walked
  obtain ⟨-,complete,hardcoded⟩ := walk_keys lawful.pageSize read
  rcases lasting with ⟨row,there,decoded⟩ | ⟨pk,hard,decoded⟩
  · exact complete row (fun j less => by rw [same]; exact there j less) k decoded
  · exact hardcoded pk hard k decoded

end Steps

theorem unchanged_ascii (r : Nat) (high : 128 ≤ r) (low : id r < 128) : id r = 0x6B ∨ id r = 0x69 := absurd low (Nat.not_lt.mpr high)

def plain : Unicode := ⟨id,unchanged_ascii⟩

def sampleSetting : Setting := ⟨plain,some,2000000000,10,1⟩

def alice : Str := List.replicate 64 97

-- The first attempt of the refresh fails; the pubkey is checked twice, the second time from the cache.
def sampleRun : List (Int × Action) :=
  [(1,.refresh [⟨fun _ => early,fun _ => some [],5⟩,⟨fun _ => early,fun _ => none,5⟩]),(2,.check alice),(3,.answer),(4,.deliver),
    (5,.check alice)]

def Entry.accepted : Entry → Option (Int × Str)
  | .decided now pubkey .accept => some (now,pubkey)
  | _ => none

end DeepFry.Whitelist.RouterCheck
