import DeepFry.Lib.JsonText
import DeepFry.Spamhunter.FetchBatch
import DeepFry.Whitelist.RouterCheck

namespace DeepFry.Spamhunter.WhitelistClient
open DeepFry.Whitelist DeepFry.Whitelist.Repository
open DeepFry.Whitelist.RouterCheck (Setting Refresh Listed Lasting)

abbrev Resolved := Table Str Bool

def maxBulkPubkeys : Nat := 100000

def maxBulkBodyBytes : Nat := 8 * 2 ^ 20

-- A byte of a string in serde_json's text.
def escaped (b : UInt8) : Bytes :=
  if b = 34 ∨ b = 92 then [92,b]
  else if b = 8 then [92,98]
  else if b = 9 then [92,116]
  else if b = 10 then [92,110]
  else if b = 12 then [92,102]
  else if b = 13 then [92,114]
  else if b < 32 then JsonText.unicode b.toNat
  else [b]

def quoted (s : Str) : Bytes := [34] ++ s.flatMap escaped ++ [34]

-- {"pubkeys":[..]}
def requestBody (misses : List Str) : Bytes :=
  [123,34,112,117,98,107,101,121,115,34,58,91] ++ [44].intercalate (misses.map quoted) ++ [93,125]

-- The two methods of the client: is_whitelisted and is_whitelisted_bulk.
inductive Request where
  | check (pubkey : Str)
  | bulk (pubkeys : List Str)

def Request.pubkeys : Request → List Str
  | .check pubkey => [pubkey]
  | .bulk pubkeys => pubkeys

-- posted: the server has not looked at it; reading: the loop of the bulk handler; replied: the answer, none where the client
-- cannot use it.
inductive Phase where
  | posted
  | reading (left : List Str) (results : Resolved)
  | replied (resolved : Option Resolved)
  | returned

structure Call where
  request : Request
  out : Resolved
  misses : List Str
  phase : Phase

-- What happened, for the invariants; nothing reads it. read: a lookup by the server for an asked pubkey; refused: the pubkeys of a
-- request, a check or a bulk, that the server does not look up.
inductive Entry where
  | refreshed (refresh : Refresh)
  | read (pubkey : Str) (whitelisted : Bool)
  | refused (misses : List Str)
  | returned (pubkeys : List Str) (out : Resolved) (failed : Bool)

-- The server's list, the client's cache, and the calls made so far.
structure World where
  list : List Bytes32
  cache : Resolved
  calls : List Call
  journal : List Entry

def boot : World := ⟨[],∅,[],[]⟩

def slash : UInt8 := 47

-- trim_matches('/')
def trimSlashes (pubkey : Str) : Str := ((pubkey.dropWhile (· = slash)).reverse.dropWhile (· = slash)).reverse

-- The first look into the cache.
def consult (cache : Resolved) : Resolved × List Str → List Str → Resolved × List Str
  | found,[] => found
  | (out,misses),pk :: rest =>
    match cache.lookup pk with
    | some hit => consult cache (out.insert pk hit,misses) rest
    | none => consult cache (out,misses ++ [pk]) rest

-- The answer is taken: what it lacks is true and stays out of the cache.
def settle (resolved : Option Resolved) : Resolved × Resolved → List Str → Resolved × Resolved
  | found,[] => found
  | (cache,out),pk :: misses =>
    match resolved.bind (·.lookup pk) with
    | some value => settle resolved (cache.insert pk value,out.insert pk value) misses
    | none => settle resolved (cache,out.insert pk true) misses

def World.put (w : World) (idx : Nat) (c : Call) : World := { w with calls := w.calls.set idx c }

def World.note (w : World) (entry : Entry) : World := { w with journal := entry :: w.journal }

-- handleCheck and the checks of handleBulkCheck before its loop.
def accept (cfg : Setting) (w : World) (idx : Nat) (c : Call) : World :=
  match c.request with
  | .check pubkey =>
    match (cfg.route (trimSlashes pubkey)).bind (RouterCheck.handleCheck cfg w.list) with
    | none => (w.put idx { c with phase := .replied none }).note (.refused [pubkey])
    | some whitelisted => (w.put idx { c with phase := .replied (some (AList.insert pubkey whitelisted ∅)) }).note (.read pubkey whitelisted)
  | .bulk _ =>
    if maxBulkBodyBytes < (requestBody c.misses).length ∨ maxBulkPubkeys < c.misses.length then
      (w.put idx { c with phase := .replied none }).note (.refused c.misses)
    else w.put idx { c with phase := .reading c.misses ∅ }

-- One pass of handleBulkCheck's loop, or its end. A panic closes the connection.
def readNext (cfg : Setting) (w : World) (idx : Nat) (c : Call) (results : Resolved) : List Str → World
  | [] => w.put idx { c with phase := .replied (some results) }
  | pk :: left =>
    if pk.isEmpty then w.put idx { c with phase := .reading left results }
    else
      match isWhitelisted cfg.unicode (some w.list) pk with
      | .error _ => w.put idx { c with phase := .replied none }
      | .ok (whitelisted,_) =>
        (w.put idx { c with phase := .reading left (results.insert pk whitelisted) }).note (.read pk whitelisted)

def World.add (w : World) (c : Call) : World := { w with calls := w.calls ++ [c] }

def start (w : World) (request : Request) (found : Resolved × List Str) : World :=
  if found.2.isEmpty then (w.add ⟨request,found.1,[],.returned⟩).note (.returned request.pubkeys found.1 false)
  else w.add ⟨request,found.1,found.2,.posted⟩

def finish (w : World) (idx : Nat) (c : Call) (resolved : Option Resolved) : World :=
  let settled := settle resolved (w.cache,c.out) c.misses
  (World.put { w with cache := settled.1 } idx { c with out := settled.2, phase := .returned }).note
    (.returned c.request.pubkeys settled.2 resolved.isNone)

-- call: one method of the client is called, from any task; a call without a miss returns at once. fail: a timeout, a lost
-- connection or a reply that is not decoded.
inductive Action where
  | refresh (attempts : List RouterCheck.Attempt)
  | call (request : Request)
  | accept (idx : Nat)
  | read (idx : Nat)
  | deliver (idx : Nat)
  | fail (idx : Nat)

def step (cfg : Setting) (w : World) : Action → Option World
  | .refresh attempts =>
    match RouterCheck.refresh cfg (cfg.retryCount + 1) attempts with
    | none => some w
    | some r => some (World.note { w with list := r.keys } (.refreshed r))
  | .call request => some (start w request (consult w.cache (∅,[]) request.pubkeys))
  | .accept idx =>
    match w.calls[idx]? with
    | some c =>
      match c.phase with
      | .posted => some (accept cfg w idx c)
      | _ => none
    | none => none
  | .read idx =>
    match w.calls[idx]? with
    | some c =>
      match c.phase with
      | .reading left results => some (readNext cfg w idx c results left)
      | _ => none
    | none => none
  | .deliver idx =>
    match w.calls[idx]? with
    | some c =>
      match c.phase with
      | .replied resolved => some (finish w idx c resolved)
      | _ => none
    | none => none
  | .fail idx =>
    match w.calls[idx]? with
    | some c =>
      match c.phase with
      | .returned => none
      | _ => some (finish w idx c none)
    | none => none

section Tables
variable {cache out : Resolved} {misses pubkeys : List Str} {resolved : Option Resolved} {pk : Str}

theorem lookup_insert_if (t : Resolved) (one pk : Str) (value : Bool) :
    (t.insert one value).lookup pk = if pk = one then some value else t.lookup pk := by
  by_cases same : pk = one
  · rw [if_pos same,same,AList.lookup_insert]
  · rw [if_neg same,AList.lookup_insert_ne same]

theorem consult_out (pk : Str) : (consult cache (out,misses) pubkeys).1.lookup pk =
    if pk ∈ pubkeys then (cache.lookup pk).or (out.lookup pk) else out.lookup pk := by
  induction pubkeys generalizing out misses with
  | nil => rw [consult,if_neg List.not_mem_nil]
  | cons one rest ih =>
    rw [consult]
    cases hit : cache.lookup one with
    | none =>
      simp only [ih,List.mem_cons]
      by_cases same : pk = one
      · subst same
        simp [hit]
      · simp [same]
    | some value =>
      simp only [ih,List.mem_cons,lookup_insert_if]
      by_cases same : pk = one
      · subst same
        simp [hit]
      · simp [same]

theorem consult_misses : (consult cache (out,misses) pubkeys).2 = misses ++ pubkeys.filter fun pk => (cache.lookup pk).isNone := by
  induction pubkeys generalizing out misses with
  | nil => rw [consult,List.filter_nil,List.append_nil]
  | cons one rest ih =>
    rw [consult]
    cases hit : cache.lookup one with
    | none => simp [ih,hit]
    | some value => simp [ih,hit]

theorem settle_cache (pk : Str) : (settle resolved (cache,out) misses).1.lookup pk =
    if pk ∈ misses then (resolved.bind (·.lookup pk)).or (cache.lookup pk) else cache.lookup pk := by
  induction misses generalizing cache out with
  | nil => rw [settle,if_neg List.not_mem_nil]
  | cons one rest ih =>
    rw [settle]
    cases answer : resolved.bind (·.lookup one) with
    | none =>
      simp only [ih,List.mem_cons]
      by_cases same : pk = one
      · subst same
        simp [answer]
      · simp [same]
    | some value =>
      simp only [ih,List.mem_cons,lookup_insert_if]
      by_cases same : pk = one
      · subst same
        simp [answer]
      · simp [same]

theorem settle_out (pk : Str) : (settle resolved (cache,out) misses).2.lookup pk =
    if pk ∈ misses then some ((resolved.bind (·.lookup pk)).getD true) else out.lookup pk := by
  induction misses generalizing cache out with
  | nil => rw [settle,if_neg List.not_mem_nil]
  | cons one rest ih =>
    rw [settle]
    cases answer : resolved.bind (·.lookup one) with
    | none =>
      simp only [ih,List.mem_cons,lookup_insert_if]
      by_cases same : pk = one
      · subst same
        simp [answer]
      · simp [same]
    | some value =>
      simp only [ih,List.mem_cons,lookup_insert_if]
      by_cases same : pk = one
      · subst same
        simp [answer]
      · simp [same]

end Tables

section Bounds
variable {misses : List Str} {pk : Str}

theorem joined_length (parts : List Bytes) : ([44].intercalate parts).length ≤ (parts.map (·.length + 1)).sum := by
  induction parts with
  | nil => exact le_refl _
  | cons one rest ih =>
    cases rest with
    | nil => simp
    | cons other rest =>
      rw [List.intercalate_cons_cons,List.map_cons,List.sum_cons,List.length_append,List.length_append,List.length_singleton]
      omega

theorem escaped_nibble (b : UInt8) : (Bytes.nibble b).isSome = true → escaped b = [b] := by
  apply forall_byte (fun b => (Bytes.nibble b).isSome = true → escaped b = [b])
  decide +kernel

theorem quoted_hex (hex : isHexKey pk = true) : (quoted pk).length = 66 := by
  obtain ⟨size,digits⟩ := Bool.and_eq_true_iff.mp hex
  have plain : pk.flatMap escaped = pk := by
    rw [List.flatMap_congr fun b member => escaped_nibble b (List.all_eq_true.mp digits b member),List.flatMap_singleton']
  rw [quoted,plain,List.length_append,List.length_append,of_decide_eq_true size]
  rfl

theorem requestBody_hex (hex : ∀ pk ∈ misses, isHexKey pk = true) : (requestBody misses).length ≤ 14 + 67 * misses.length := by
  have parts : ((misses.map quoted).map (·.length + 1)).sum = 67 * misses.length := by
    induction misses with
    | nil => rfl
    | cons pk rest ih =>
      have later := ih fun pk member => hex pk (List.mem_cons_of_mem _ member)
      simp only [List.map_cons,List.sum_cons,List.length_cons,later,quoted_hex (hex pk List.mem_cons_self)]
      omega
  have joined := joined_length (misses.map quoted)
  rw [parts] at joined
  rw [requestBody,List.length_append,List.length_append]
  simp only [List.length_cons,List.length_nil]
  omega

-- What the server refuses is too long or not made of hexadecimal pubkeys.
theorem refused_why (large : maxBulkBodyBytes < (requestBody misses).length ∨ maxBulkPubkeys < misses.length) :
    maxBulkPubkeys < misses.length ∨ ∃ pk ∈ misses, isHexKey pk = false := by
  by_contra neither
  obtain ⟨few,hex⟩ := not_or.mp neither
  have hex : ∀ pk ∈ misses, isHexKey pk = true := fun pk member => by
    by_contra odd
    exact hex ⟨pk,member,Bool.eq_false_iff.mpr odd⟩
  have short := requestBody_hex hex
  obtain large | many := large
  · unfold maxBulkBodyBytes at large
    unfold maxBulkPubkeys at few
    omega
  · exact few many

theorem handleCheck_total (cfg : Setting) (list : List Bytes32) (hex : isHexKey pk = true) :
    ∃ b, RouterCheck.handleCheck cfg list pk = some b := by
  obtain ⟨k,-,decoded⟩ := @decodeKey_hex cfg.unicode pk hex
  have given : ¬ pk.isEmpty = true := by
    rw [List.isEmpty_iff]
    rintro rfl
    cases hex
  rw [RouterCheck.handleCheck,if_neg given,isWhitelisted,lookup,decoded]
  exact ⟨_,rfl⟩

theorem trimSlashes_hex (hex : isHexKey pk = true) : trimSlashes pk = pk := by
  obtain ⟨-,digits⟩ := Bool.and_eq_true_iff.mp hex
  have kept : ∀ s : Str, (∀ b ∈ s, (Bytes.nibble b).isSome = true) → s.dropWhile (· = slash) = s := by
    intro s digits
    cases s with
    | nil => rfl
    | cons b rest =>
      have digit := digits b List.mem_cons_self
      refine List.dropWhile_cons_of_neg fun same => ?_
      rw [of_decide_eq_true same] at digit
      cases digit
  have all := List.all_eq_true.mp digits
  rw [trimSlashes,kept pk all,kept pk.reverse fun b member => all b (List.mem_reverse.mp member),List.reverse_reverse]

end Bounds

-- The refresh in force.
def latest : List Entry → Option Refresh
  | [] => none
  | .refreshed r :: _ => some r
  | .read _ _ :: rest => latest rest
  | .refused _ :: rest => latest rest
  | .returned _ _ _ :: rest => latest rest

def inForce (journal : List Entry) : List Bytes32 := ((latest journal).map Refresh.keys).getD []

-- Every answer of the table is one that the server has read.
def Drawn (journal : List Entry) (table : Resolved) : Prop := ∀ pk b, table.lookup pk = some b → Entry.read pk b ∈ journal

-- An answer for each asked pubkey, and where it can come from.
structure Answered (journal : List Entry) (pubkeys : List Str) (out : Resolved) (failed : Bool) : Prop where
  asked : ∀ pk, pk ∈ out ↔ pk ∈ pubkeys
  drawn : ∀ pk b, out.lookup pk = some b → pk ≠ [] → b = false ∨ failed = false → Entry.read pk b ∈ journal

-- What every entry is held to, by the entries before it.
def Honest (cfg : Setting) : List Entry → Prop
  | [] => True
  | .refreshed r :: rest => r.Walked cfg ∧ Honest cfg rest
  | .read pk b :: rest =>
    (∀ k, isHexKey pk = true → hexTo32ByteArray pk = some k → b = decide (k ∈ inForce rest)) ∧ Honest cfg rest
  | .refused misses :: rest => (maxBulkPubkeys < misses.length ∨ ∃ pk ∈ misses, isHexKey pk = false) ∧ Honest cfg rest
  | .returned pubkeys out failed :: rest => Answered rest pubkeys out failed ∧ Honest cfg rest

def Phase.active : Phase → Bool
  | .returned => false
  | _ => true

-- What the phase of a call says of the answers on their way.
def Carried (journal : List Entry) (misses : List Str) : Phase → Prop
  | .posted => True
  | .reading left results => Drawn journal results ∧ ∀ pk ∈ misses, pk = [] ∨ pk ∈ left ∨ pk ∈ results
  | .replied none => True
  | .replied (some results) => Drawn journal results ∧ ∀ pk ∈ misses, pk = [] ∨ pk ∈ results
  | .returned => True

structure Fair (journal : List Entry) (c : Call) : Prop where
  drawn : Drawn journal c.out
  asked : ∀ pk, pk ∈ c.misses ∨ pk ∈ c.out ↔ pk ∈ c.request.pubkeys
  carried : Carried journal c.misses c.phase

structure Sound (cfg : Setting) (w : World) : Prop where
  list : w.list = inForce w.journal
  cache : Drawn w.journal w.cache
  calls : ∀ c ∈ w.calls, c.phase.active = true → Fair w.journal c
  honest : Honest cfg w.journal

section Growth
variable {journal : List Entry} {table : Resolved} {misses : List Str} {phase : Phase} {c : Call}

theorem Drawn.cons (drawn : Drawn journal table) (entry : Entry) : Drawn (entry :: journal) table :=
  fun pk b found => List.mem_cons_of_mem _ (drawn pk b found)

theorem drawn_empty : Drawn journal ∅ := fun pk b found => by
  rw [AList.lookup_empty] at found
  cases found

theorem Drawn.insert {pk : Str} {b : Bool} (drawn : Drawn journal table) (read : Entry.read pk b ∈ journal) :
    Drawn journal (table.insert pk b) := by
  intro other value found
  rw [lookup_insert_if] at found
  split at found
  · next same =>
    cases found
    rw [same]
    exact read
  · exact drawn other value found

theorem Carried.cons (carried : Carried journal misses phase) (entry : Entry) : Carried (entry :: journal) misses phase := by
  cases phase with
  | posted => trivial
  | reading left results => exact ⟨carried.1.cons entry,carried.2⟩
  | replied resolved =>
    cases resolved with
    | none => trivial
    | some results => exact ⟨carried.1.cons entry,carried.2⟩
  | returned => trivial

theorem Fair.cons (fair : Fair journal c) (entry : Entry) : Fair (entry :: journal) c :=
  ⟨fair.drawn.cons entry,fair.asked,fair.carried.cons entry⟩

theorem Fair.moved (fair : Fair journal c) (carried : Carried journal c.misses phase) : Fair journal { c with phase } :=
  ⟨fair.drawn,fair.asked,carried⟩

end Growth

section Steps
variable {cfg : Setting} {w next : World} {idx : Nat} {c : Call}

theorem Sound.note (sound : Sound cfg w) {entry : Entry} (listed : inForce (entry :: w.journal) = inForce w.journal)
    (honest : Honest cfg (entry :: w.journal)) : Sound cfg (w.note entry) :=
  ⟨sound.list.trans listed.symm,sound.cache.cons entry,fun c member active => (sound.calls c member active).cons entry,honest⟩

theorem Sound.put (sound : Sound cfg w) (idx : Nat) (fair : c.phase.active = true → Fair w.journal c) : Sound cfg (w.put idx c) := by
  refine ⟨sound.list,sound.cache,fun other member active => ?_,sound.honest⟩
  obtain old | rfl := List.mem_or_eq_of_mem_set member
  · exact sound.calls other old active
  · exact fair active

theorem Sound.add (sound : Sound cfg w) (fair : c.phase.active = true → Fair w.journal c) : Sound cfg (w.add c) := by
  refine ⟨sound.list,sound.cache,fun other member active => ?_,sound.honest⟩
  obtain old | new := List.mem_append.mp member
  · exact sound.calls other old active
  · obtain rfl := List.mem_singleton.mp new
    exact fair active

theorem Sound.cached (sound : Sound cfg w) {cache : Resolved} (drawn : Drawn w.journal cache) : Sound cfg { w with cache } :=
  ⟨sound.list,drawn,sound.calls,sound.honest⟩

-- A lookup by the server is noted.
theorem Sound.reads (sound : Sound cfg w) {pk : Str} {b : Bool}
    (answer : ∀ k, isHexKey pk = true → hexTo32ByteArray pk = some k → b = decide (k ∈ w.list)) : Sound cfg (w.note (.read pk b)) := by
  refine sound.note rfl ⟨fun k hex key => ?_,sound.honest⟩
  rw [← sound.list]
  exact answer k hex key

theorem start_sound (sound : Sound cfg w) (request : Request) : Sound cfg (start w request (consult w.cache (∅,[]) request.pubkeys)) := by
  have looked := fun pk => @consult_out w.cache ∅ [] request.pubkeys pk
  have missed := @consult_misses w.cache ∅ [] request.pubkeys
  generalize consult w.cache (∅,[]) request.pubkeys = found at looked missed
  have drawn : Drawn w.journal found.1 := fun pk b here => by
    rw [looked pk,AList.lookup_empty,Option.or_none] at here
    split at here
    · exact sound.cache pk b here
    · cases here
  have asked : ∀ pk, pk ∈ found.2 ∨ pk ∈ found.1 ↔ pk ∈ request.pubkeys := by
    intro pk
    rw [← AList.lookup_isSome,looked pk,missed,AList.lookup_empty,Option.or_none,List.nil_append,List.mem_filter]
    by_cases member : pk ∈ request.pubkeys
    · cases w.cache.lookup pk <;> simp [member]
    · simp [member]
  unfold start
  split
  · next none =>
    rw [List.isEmpty_iff] at none
    refine (sound.add fun active => ?_).note rfl ⟨⟨fun pk => ?_,fun pk b here _ _ => drawn pk b here⟩,sound.honest⟩
    · exact absurd active Bool.false_ne_true
    rw [← asked pk,none]
    exact ⟨Or.inr,fun held => held.resolve_left List.not_mem_nil⟩
  · exact sound.add fun _ => ⟨drawn,asked,trivial⟩

theorem accept_sound (lawful : cfg.Lawful) (sound : Sound cfg w) (fair : Fair w.journal c) : Sound cfg (accept cfg w idx c) := by
  unfold accept
  split
  · next pubkey request =>
    split
    · next unanswered =>
      have odd : isHexKey pubkey = false := by
        by_contra hex
        have hex := Bool.eq_true_of_not_eq_false hex
        obtain ⟨b,given⟩ := handleCheck_total cfg w.list hex
        rw [trimSlashes_hex hex,lawful.route pubkey hex,Option.bind_some,given] at unanswered
        cases unanswered
      have noted : Sound cfg (w.note (.refused [pubkey])) :=
        sound.note rfl ⟨.inr ⟨pubkey,List.mem_singleton_self _,odd⟩,sound.honest⟩
      exact noted.put idx fun _ => (fair.cons _).moved trivial
    · next whitelisted answered =>
      have noted : Sound cfg (w.note (.read pubkey whitelisted)) := sound.reads fun k hex key => by
        rw [trimSlashes_hex hex,lawful.route pubkey hex,Option.bind_some,RouterCheck.handleCheck_hex hex key] at answered
        exact (Option.some.inj answered).symm
      refine noted.put idx fun _ => (fair.cons _).moved ⟨drawn_empty.insert List.mem_cons_self,fun pk missed => .inr ?_⟩
      have asked := (fair.asked pk).mp (.inl missed)
      rw [request] at asked
      exact (AList.mem_insert _).mpr (.inl (List.mem_singleton.mp asked))
  · split
    · next large =>
      have noted : Sound cfg (w.note (.refused c.misses)) := sound.note rfl ⟨refused_why large,sound.honest⟩
      exact noted.put idx fun _ => (fair.cons _).moved trivial
    · exact sound.put idx fun _ => fair.moved ⟨drawn_empty,fun pk missed => .inr (.inl missed)⟩

theorem readNext_sound (sound : Sound cfg w) (fair : Fair w.journal c) {left : List Str} {results : Resolved}
    (reading : c.phase = .reading left results) : Sound cfg (readNext cfg w idx c results left) := by
  have carried := fair.carried
  rw [reading] at carried
  obtain ⟨drawn,rest⟩ := carried
  cases left with
  | nil => exact sound.put idx fun _ => fair.moved ⟨drawn,fun pk missed => (rest pk missed).imp_right fun held => held.resolve_left List.not_mem_nil⟩
  | cons pk left =>
    rw [readNext]
    split
    · next empty =>
      refine sound.put idx fun _ => fair.moved ⟨drawn,fun other missed => ?_⟩
      obtain none | waiting | done := rest other missed
      · exact .inl none
      · obtain rfl | later := List.mem_cons.mp waiting
        · exact .inl (List.isEmpty_iff.mp empty)
        · exact .inr (.inl later)
      · exact .inr (.inr done)
    · split
      · exact sound.put idx fun _ => fair.moved trivial
      · next whitelisted panic answered =>
        have noted : Sound cfg (w.note (.read pk whitelisted)) := sound.reads fun k hex key => by
          rw [RouterCheck.isWhitelisted_hex hex key] at answered
          exact (Prod.mk.inj (Except.ok.inj answered)).1.symm
        refine noted.put idx fun _ => (fair.cons _).moved ⟨(drawn.cons _).insert List.mem_cons_self,fun other missed => ?_⟩
        obtain none | waiting | done := rest other missed
        · exact .inl none
        · obtain rfl | later := List.mem_cons.mp waiting
          · exact .inr (.inr ((AList.mem_insert _).mpr (.inl rfl)))
          · exact .inr (.inl later)
        · exact .inr (.inr ((AList.mem_insert _).mpr (.inr done)))

-- What the client can use of an answer: nothing, or an answer for every miss.
def Usable (journal : List Entry) (misses : List Str) : Option Resolved → Prop
  | none => True
  | some results => Drawn journal results ∧ ∀ pk ∈ misses, pk = [] ∨ pk ∈ results

theorem Usable.drawn {journal : List Entry} {misses : List Str} {resolved : Option Resolved} (usable : Usable journal misses resolved)
    {pk : Str} {b : Bool} (found : resolved.bind (·.lookup pk) = some b) : Entry.read pk b ∈ journal := by
  obtain ⟨results,rfl,here⟩ := Option.bind_eq_some_iff.mp found
  exact usable.1 pk b here

theorem Fair.usable {journal : List Entry} (fair : Fair journal c) {resolved : Option Resolved} (phase : c.phase = .replied resolved) :
    Usable journal c.misses resolved := by
  have carried := fair.carried
  rw [phase] at carried
  cases resolved with
  | none => trivial
  | some results => exact carried

theorem finish_sound (sound : Sound cfg w) (fair : Fair w.journal c) {resolved : Option Resolved}
    (usable : Usable w.journal c.misses resolved) : Sound cfg (finish w idx c resolved) := by
  have kept := fun pk => @settle_cache w.cache c.out c.misses resolved pk
  have given := fun pk => @settle_out w.cache c.out c.misses resolved pk
  unfold finish
  generalize settle resolved (w.cache,c.out) c.misses = settled at kept given
  have cached : Drawn w.journal settled.1 := fun pk b found => by
    rw [kept pk] at found
    split at found
    · obtain answer | old := Option.or_eq_some_iff.mp found
      · exact usable.drawn answer
      · exact sound.cache pk b old.2
    · exact sound.cache pk b found
  refine ((sound.cached cached).put idx fun active => ?_).note rfl ⟨⟨fun pk => ?_,fun pk b found given_ real => ?_⟩,sound.honest⟩
  · exact absurd active Bool.false_ne_true
  · rw [← fair.asked pk,← AList.lookup_isSome,← AList.lookup_isSome,given pk]
    by_cases missed : pk ∈ c.misses <;> simp [missed]
  · rw [given pk] at found
    split at found
    · next missed =>
      cases answer : resolved.bind (·.lookup pk) with
      | some value =>
        rw [answer] at found
        cases found
        exact usable.drawn answer
      | none =>
        rw [answer] at found
        cases found
        have whole := real.resolve_left Bool.noConfusion
        cases resolved with
        | none => cases whole
        | some results =>
          obtain none | held := usable.2 pk missed
          · exact absurd none given_
          · exact absurd held (AList.lookup_eq_none.mp answer)
    · exact fair.drawn pk b found

theorem accept_parts (moved : step cfg w (.accept idx) = some next) :
    ∃ c, w.calls[idx]? = some c ∧ c.phase = .posted ∧ accept cfg w idx c = next := by
  simp only [step] at moved
  split at moved
  · next c here =>
    split at moved
    · next phase => exact ⟨c,here,phase,Option.some.inj moved⟩
    · cases moved
  · cases moved

theorem read_parts (moved : step cfg w (.read idx) = some next) :
    ∃ c left results, w.calls[idx]? = some c ∧ c.phase = .reading left results ∧ readNext cfg w idx c results left = next := by
  simp only [step] at moved
  split at moved
  · next c here =>
    split at moved
    · next left results phase => exact ⟨c,left,results,here,phase,Option.some.inj moved⟩
    · cases moved
  · cases moved

theorem deliver_parts (moved : step cfg w (.deliver idx) = some next) :
    ∃ c resolved, w.calls[idx]? = some c ∧ c.phase = .replied resolved ∧ finish w idx c resolved = next := by
  simp only [step] at moved
  split at moved
  · next c here =>
    split at moved
    · next resolved phase => exact ⟨c,resolved,here,phase,Option.some.inj moved⟩
    · cases moved
  · cases moved

theorem fail_parts (moved : step cfg w (.fail idx) = some next) :
    ∃ c, w.calls[idx]? = some c ∧ c.phase.active = true ∧ finish w idx c none = next := by
  simp only [step] at moved
  split at moved
  · next c here =>
    split at moved
    · cases moved
    · next going =>
      refine ⟨c,here,?_,Option.some.inj moved⟩
      cases phase : c.phase with
      | returned => exact absurd phase going
      | posted => rfl
      | reading left results => rfl
      | replied resolved => rfl
  · cases moved

theorem step_sound (lawful : cfg.Lawful) (sound : Sound cfg w) {action : Action} (moved : step cfg w action = some next) :
    Sound cfg next := by
  cases action with
  | refresh attempts =>
    simp only [step] at moved
    split at moved
    · cases moved
      exact sound
    · next r refreshed =>
      cases moved
      exact ⟨rfl,sound.cache.cons _,fun c member active => (sound.calls c member active).cons _,
        RouterCheck.refresh_honest refreshed,sound.honest⟩
  | call request =>
    cases moved
    exact start_sound sound request
  | accept idx =>
    obtain ⟨c,here,phase,rfl⟩ := accept_parts moved
    exact accept_sound lawful sound (sound.calls c (List.mem_of_getElem? here) (by rw [phase]; rfl))
  | read idx =>
    obtain ⟨c,left,results,here,phase,rfl⟩ := read_parts moved
    exact readNext_sound sound (sound.calls c (List.mem_of_getElem? here) (by rw [phase]; rfl)) phase
  | deliver idx =>
    obtain ⟨c,resolved,here,phase,rfl⟩ := deliver_parts moved
    have fair := sound.calls c (List.mem_of_getElem? here) (by rw [phase]; rfl)
    exact finish_sound sound fair (fair.usable phase)
  | fail idx =>
    obtain ⟨c,here,active,rfl⟩ := fail_parts moved
    exact finish_sound sound (sound.calls c (List.mem_of_getElem? here) active) trivial

theorem boot_sound (cfg : Setting) : Sound cfg boot := ⟨rfl,drawn_empty,fun _ member => absurd member List.not_mem_nil,trivial⟩

theorem reached_sound (lawful : cfg.Lawful) {admitted : World → Action → Prop} (path : Machine.Reached (step cfg) admitted boot w) :
    Sound cfg w :=
  path.invariant _ (boot_sound cfg) fun sound _ moved => step_sound lawful sound moved

theorem Honest.suffix (newer : List Entry) {older : List Entry} (honest : Honest cfg (newer ++ older)) : Honest cfg older := by
  induction newer with
  | nil => exact honest
  | cons entry rest ih => cases entry <;> exact ih honest.2

theorem latest_walked {journal : List Entry} (honest : Honest cfg journal) {r : Refresh} (found : latest journal = some r) :
    r.Walked cfg := by
  induction journal with
  | nil => cases found
  | cons entry rest ih =>
    cases entry with
    | refreshed other =>
      cases found
      exact honest.1
    | read pk b => exact ih honest.2 found
    | refused misses => exact ih honest.2 found
    | returned pubkeys out failed => exact ih honest.2 found

-- The author and the flag of every input that the fetch stage hands on.
theorem productionInputs_flags (batch : List Str) (groups : List AuthorGroup) (whitelist : Resolved) :
    (productionInputs batch groups whitelist).map (fun input => (input.group.author,input.whitelisted)) =
      batch.map fun pk => (pk,(whitelist.lookup pk).getD true) := by
  have authors : ∀ map, (matchGroups batch map).map Prod.fst = batch := by
    induction batch with
    | nil => exact fun _ => rfl
    | cons pk rest ih =>
      intro map
      rw [matchGroups,List.map_cons,ih]
  rw [productionInputs,List.map_map]
  conv_rhs => rw [← authors (byAuthor groups),List.map_map]
  rfl

theorem whitelist_client (lawful : cfg.Lawful) (path : Machine.Reached (step cfg) (fun _ _ => True) boot w)
    {newer older : List Entry} {pubkeys : List Str} {out : Resolved} {failed : Bool}
    (ran : w.journal = newer ++ .returned pubkeys out failed :: older) :
    (∀ pk, pk ∈ out ↔ pk ∈ pubkeys) ∧
    (∀ groups, (productionInputs pubkeys groups out).map (fun input => (input.group.author,some input.whitelisted)) =
      pubkeys.map fun pk => (pk,out.lookup pk)) ∧
    (∀ pk k, isHexKey pk = true → hexTo32ByteArray pk = some k →
      (out.lookup pk = some false → ∃ middle rest, older = middle ++ .read pk false :: rest ∧ ∀ r, latest rest = some r → ¬Lasting r k) ∧
      (out.lookup pk = some true → failed = false →
        ∃ middle rest r, older = middle ++ .read pk true :: rest ∧ latest rest = some r ∧ Listed r k)) ∧
    ∀ misses, Entry.refused misses ∈ older → maxBulkPubkeys < misses.length ∨ ∃ pk ∈ misses, isHexKey pk = false := by
  have honest := (reached_sound lawful path).honest
  rw [ran] at honest
  obtain ⟨answered,honest⟩ := honest.suffix newer
  have read : ∀ {middle rest pk b}, older = middle ++ .read pk b :: rest → ∀ k, isHexKey pk = true → hexTo32ByteArray pk = some k →
      b = decide (k ∈ inForce rest) ∧ Honest cfg rest := by
    intro middle rest pk b split k hex key
    rw [split] at honest
    obtain ⟨read,honest⟩ := honest.suffix middle
    exact ⟨read k hex key,honest⟩
  refine ⟨answered.asked,fun groups => ?_,fun pk k hex key => ⟨fun found => ?_,fun found whole => ?_⟩,fun misses refused => ?_⟩
  · have flags := congrArg (List.map fun flag : Str × Bool => (flag.1,some flag.2)) (productionInputs_flags pubkeys groups out)
    rw [List.map_map,List.map_map] at flags
    refine flags.trans (List.map_congr_left fun pk member => ?_)
    obtain ⟨b,found⟩ := Option.isSome_iff_exists.mp (AList.lookup_isSome.mpr ((answered.asked pk).mpr member))
    rw [Function.comp_apply,found,Option.getD_some]
  · obtain ⟨middle,rest,split⟩ := List.append_of_mem (answered.drawn pk false found (hexTo32ByteArray_given key) (.inl rfl))
    obtain ⟨absent,honest⟩ := read split k hex key
    refine ⟨middle,rest,split,fun r current lasting => of_decide_eq_false absent.symm ?_⟩
    rw [inForce,current]
    exact (latest_walked honest current).lasting lawful lasting
  · obtain ⟨middle,rest,split⟩ := List.append_of_mem (answered.drawn pk true found (hexTo32ByteArray_given key) (.inr whole))
    obtain ⟨held,honest⟩ := read split k hex key
    have held : k ∈ inForce rest := of_decide_eq_true held.symm
    cases current : latest rest with
    | none =>
      rw [inForce,current] at held
      cases held
    | some r =>
      rw [inForce,current] at held
      exact ⟨middle,rest,r,split,current,(latest_walked honest current).listed lawful held⟩
  · obtain ⟨middle,rest,split⟩ := List.append_of_mem refused
    rw [split] at honest
    exact (honest.suffix middle).1

end Steps

-- What a returned call says of a pubkey.
def Entry.flag (pk : Str) : Entry → Option (Bool × Bool)
  | .returned _ out failed => (out.lookup pk).map fun b => (b,failed)
  | _ => none

theorem flag_entry {entry : Entry} {pk : Str} {b failed : Bool} (was : entry.flag pk = some (b,failed)) :
    ∃ pubkeys out, entry = .returned pubkeys out failed ∧ out.lookup pk = some b := by
  cases entry with
  | returned pubkeys out failed' =>
    obtain ⟨value,found,same⟩ := Option.map_eq_some_iff.mp was
    cases same
    exact ⟨pubkeys,out,rfl,found⟩
  | refreshed r => cases was
  | read pk b => cases was
  | refused misses => cases was

def alice : Str := List.replicate 64 97

def bob : Str := List.replicate 64 98

-- The server answers before its first refresh has ended, and what it says of alice stays.
def sampleRun : List Action :=
  [.call (.bulk [alice,bob]),.accept 0,.read 0,.refresh [⟨fun _ => early,fun _ => none,5⟩],.read 0,.read 0,.deliver 0,
    .call (.check alice)]

theorem sample_lawful : RouterCheck.sampleSetting.Lawful := ⟨fun _ _ => rfl,by decide⟩

theorem whitelist_client_sample : ∃ w : World, ∃ newer pubkeys out older,
    w.journal = newer ++ .returned pubkeys out false :: older ∧ out.lookup alice = some false ∧
      ∃ middle rest, older = middle ++ .read alice false :: rest := by
  obtain ⟨w,path,found⟩ := Machine.replay_final (step RouterCheck.sampleSetting) (fun _ _ => True) boot sampleRun
    (fun w : World => decide ((w.journal[1]?.bind (Entry.flag alice)) = some (false,false))) (by decide +kernel) (by decide +kernel)
  obtain ⟨entry,second,flag⟩ := Option.bind_eq_some_iff.mp (of_decide_eq_true found)
  obtain ⟨pubkeys,out,rfl,said⟩ := flag_entry flag
  obtain ⟨newer,older,ran⟩ := List.append_of_mem (List.mem_of_getElem? second)
  have decoded : (hexTo32ByteArray alice).isSome = true := by decide
  obtain ⟨k,key⟩ := Option.isSome_iff_exists.mp decoded
  obtain ⟨-,-,answers,-⟩ := whitelist_client sample_lawful path ran
  obtain ⟨middle,rest,split,-⟩ := (answers alice k (by decide) key).1 said
  exact ⟨w,newer,pubkeys,out,older,ran,said,middle,rest,split⟩

end DeepFry.Spamhunter.WhitelistClient
