import DeepFry.Lib.Base64
import DeepFry.Lib.Utf8
import DeepFry.Query.Authors
import DeepFry.Query.CursorBounds
import DeepFry.Query.Pagination

namespace DeepFry.Query.Resolvers
open Lmdb Bytes

structure GqlError where
  message : Str
  code : Option Str
deriving DecidableEq

def INVALID_CURSOR : Str := text "INVALID_CURSOR"

-- GraphQL's i64 wraps a u64.
structure Event where
  id : Str
  pubkey : Str
  kind : Int64
  createdAt : Int64
  content : Str
  sig : Str
  tags : List (List Str)
  raw : Str

def decodedEventToGql (d : DecodedEvent) : Event where
  id := d.event.id
  pubkey := d.event.pubkey
  kind := Int64.ofNat d.event.kind
  createdAt := Int64.ofNat d.event.createdAt
  content := d.event.content
  sig := d.event.sig
  tags := d.event.tags
  raw := Utf8.lossy d.rawJson

structure EventsPage where
  events : List Event
  endCursor : Option Str
  hasMore : Bool

structure AuthorsPage where
  authors : List Str
  endCursor : Option Str
  hasMore : Bool

-- The tag input has the fields of the engine's tag filter.
structure EventFilterInput where
  ids : Option (List Str) := none
  authors : Option (List Str) := none
  kinds : Option (List Int64) := none
  since : Option Int64 := none
  untilTs : Option Int64 := none
  tag : Option TagFilter := none

def encodeCursor (base64 : Base64.Engine) (cursor : PageCursor) : Str := base64.encode (toLe 8 cursor.createdAt ++ toLe 8 cursor.levId)

-- The reason a cursor is refused for, or the cursor.
def decodeCursor (base64 : Base64.Engine) (s : Str) : Except Str PageCursor := do
  let bytes ← base64.decode s
  if bytes.length ≠ 16 then throw (text "expected 16 bytes, got " ++ digits bytes.length)
  else return ⟨fromLe (bytes.take 8),fromLe (bytes.drop 8)⟩

def invalidCursor (reason : Str) : GqlError := ⟨text "invalid cursor: " ++ reason,some INVALID_CURSOR⟩

-- map_query_error for what the engine fails with.
def mapQueryError (_ : QueryError) : GqlError := ⟨text "internal error",none⟩

def effectiveLimit (limit : Option Int32) : Nat :=
  match limit with
  | some l => min (max l.toInt 1).toNat 500
  | none => 100

def nonneg (message : Str) (x : Int64) : Except GqlError Nat :=
  if x.toInt < 0 then .error ⟨message,none⟩ else .ok x.toInt.toNat

def nonnegTs (v : Option Int64) (field : Str) : Except GqlError (Option Nat) :=
  match v with
  | some x => (nonneg (field ++ text " must be a non-negative Unix timestamp") x).map some
  | none => .ok none

def kindsOf (kinds : Option (List Int64)) : Except GqlError (Option (List Nat)) :=
  match kinds with
  | some ks => (ks.mapM (nonneg (text "kind must be a non-negative integer"))).map some
  | none => .ok none

def inverted (since untilTs : Option Nat) : Bool :=
  match since,untilTs with
  | some s,some u => decide (u < s)
  | _,_ => false

def buildNostrFilter (filter : Option EventFilterInput) (effectiveLimit : Nat) : Except GqlError NostrFilter := do
  let f := filter.getD {}
  let kinds ← kindsOf f.kinds
  let since ← nonnegTs f.since (text "since")
  let untilTs ← nonnegTs f.untilTs (text "until")
  if inverted since untilTs then throw ⟨text "since must be <= until",none⟩
  else return {
    ids := f.ids
    authors := f.authors
    kinds
    tags := f.tag.map fun tag => [tag]
    since
    untilTs
    limit := effectiveLimit }

def cursorOf (base64 : Base64.Engine) (after : Option Str) : Except GqlError (Option PageCursor) :=
  match after with
  | some s => ((decodeCursor base64 s).mapError invalidCursor).map some
  | none => .ok none

def pageOf (base64 : Base64.Engine) (page : QueryPage) : EventsPage where
  events := page.events.map decodedEventToGql
  endCursor := page.nextCursor.map (encodeCursor base64)
  hasMore := page.nextCursor.isSome

section Resolver
variable (base64 : Base64.Engine) (codec : Codec) (dictCache : DictCache) (world : World)

-- A page, and the tick its query ended on.
def events (filter : Option EventFilterInput) (limit : Option Int32) (tick : Nat) (after : Option Str) :
    Except GqlError (EventsPage × Nat) := do
  let cursor ← cursorOf base64 after
  let nostrFilter ← buildNostrFilter filter (effectiveLimit limit)
  let page ← (executeQuery codec dictCache world nostrFilter tick cursor).mapError mapQueryError
  return (pageOf base64 page,page.tick)

-- A client that hands each endCursor back.
def feed (filter : Option EventFilterInput) (limit : Option Int32) : Nat → Nat → Option Str → Except GqlError (Option (List EventsPage))
  | 0,_,_ => .ok none
  | maxPages + 1,tick,after => do
    let (page,tick) ← events base64 codec dictCache world filter limit tick after
    match page.endCursor with
    | none => return some [page]
    | some cursor => return (← feed filter limit maxPages tick (some cursor)).map (page :: ·)

end Resolver

def authorCursor (after : Option Str) : Except GqlError (Option Bytes) :=
  match after with
  | none => .ok none
  | some s =>
    match decodeHex s with
    | none => .error ⟨text "invalid cursor: malformed hex",some INVALID_CURSOR⟩
    | some bytes =>
      if bytes.length = 32 then .ok (some bytes)
      else .error ⟨text "invalid cursor: expected 64-character hex pubkey",some INVALID_CURSOR⟩

def authors (db : Multimap .Event__pubkey) (after : Option Str) (limit : Option Int32) : Except GqlError AuthorsPage :=
  (authorCursor after).map fun afterBytes =>
    let (pubkeys,nextCursor) := distinctAuthors db afterBytes (effectiveLimit limit)
    ⟨pubkeys.map hexEncode,nextCursor.map hexEncode,nextCursor.isSome⟩

section Cursor
variable {base64 : Base64.Engine}

theorem decode_encode {cursor : PageCursor} (dated : cursor.createdAt < 2^64) (numbered : cursor.levId < 2^64) :
    decodeCursor base64 (encodeCursor base64 cursor) = .ok cursor := by
  have width : (toLe 8 cursor.createdAt ++ toLe 8 cursor.levId).length = 16 := by simp
  have front : (toLe 8 cursor.createdAt ++ toLe 8 cursor.levId).take 8 = toLe 8 cursor.createdAt := List.take_left' (by simp)
  have back : (toLe 8 cursor.createdAt ++ toLe 8 cursor.levId).drop 8 = toLe 8 cursor.levId := List.drop_left' (by simp)
  have first : fromLe (toLe 8 cursor.createdAt) = cursor.createdAt := fromLe_exact (by omega)
  have second : fromLe (toLe 8 cursor.levId) = cursor.levId := fromLe_exact (by omega)
  simp only [decodeCursor,encodeCursor,base64.roundtrip,bind,Except.bind,width,front,back,first,second]
  rfl

theorem encode_decode {s : Str} {cursor : PageCursor} (read : decodeCursor base64 s = .ok cursor) :
    s = encodeCursor base64 cursor ∧ cursor.createdAt < 2^64 ∧ cursor.levId < 2^64 := by
  unfold decodeCursor at read
  cases decoded : base64.decode s with
  | error reason =>
    rw [decoded] at read
    cases read
  | ok bytes =>
    rw [decoded] at read
    simp only [bind,Except.bind] at read
    split at read
    · cases read
    · next width =>
      cases read
      have width : bytes.length = 16 := not_not.mp width
      have first : (bytes.take 8).length = 8 := by rw [List.length_take,width]; rfl
      have second : (bytes.drop 8).length = 8 := by rw [List.length_drop,width]
      have front : toLe 8 (fromLe (bytes.take 8)) = bytes.take 8 := by
        have same := toLe_fromLe (bytes.take 8)
        rwa [first] at same
      have back : toLe 8 (fromLe (bytes.drop 8)) = bytes.drop 8 := by
        have same := toLe_fromLe (bytes.drop 8)
        rwa [second] at same
      have low := fromLe_bound (bytes.take 8)
      have high := fromLe_bound (bytes.drop 8)
      rw [first] at low
      rw [second] at high
      refine ⟨?_,by omega,by omega⟩
      rw [encodeCursor,front,back,List.take_append_drop]
      exact base64.canonical s bytes decoded

end Cursor

section Depth
variable {codec : Codec} {dictCache : DictCache} {history : History codec dictCache} {filter : NostrFilter} {batchSize limit : Nat}

-- Every levId is a u64.
def Numbered (history : History codec dictCache) : Prop := ∀ t, ∀ event ∈ (history.snapshot t).events, event.levId < 2^64

def Shallow (state : QueryState) : Prop := ∀ deepest, state.deepestScanned = some deepest → deepest.2 < 2^64

theorem concludeRound_shallow {last : Option Position} {next : QueryState} (shallow : Shallow next) :
    Shallow (concludeRound limit last next).state := by
  unfold concludeRound
  split
  · exact shallow
  · split
    · split
      · rintro deepest ⟨⟩
        exact (by decide : u64Max < 2^64)
      · exact shallow
    · exact shallow

theorem queryRound_shallow (numbered : Numbered history) (positive : 0 < batchSize) {state : QueryState} {outcome : RoundOutcome}
    (shallow : Shallow state) (ran : queryRound codec dictCache history.world filter batchSize limit state = .ok outcome) :
    Shallow outcome.state := by
  rcases queryRound_cases ran with ⟨_,rfl⟩ | ⟨results,middle,valid,after,merged,_,rfl⟩
  · exact shallow
  · refine concludeRound_shallow fun deepest given => ?_
    cases last : (positions results).getLast? with
    | none =>
      rw [last] at given
      exact shallow deepest given
    | some position =>
      rw [last] at given
      cases given
      obtain ⟨x,here,rfl⟩ := List.mem_map.mp (List.mem_of_getLast? last)
      obtain ⟨t,_,_,event,stored,place⟩ := listed_stored ((mergeWindowed_from positive merged).2 x here)
      have named : event.levId = x.2.1 := congrArg Prod.snd place
      exact named ▸ numbered t event stored

theorem queryLoop_shallow (numbered : Numbered history) (positive : 0 < batchSize) {fuel : Nat} {state final : QueryState}
    (shallow : Shallow state) (ran : queryLoop codec dictCache history.world filter batchSize limit fuel state = .ok final) :
    Shallow final := by
  induction fuel generalizing state with
  | zero =>
    cases ran
    exact shallow
  | succ fuel ih =>
    rcases queryLoop_cases ran with round | ⟨next,round,ran⟩
    · exact queryRound_shallow numbered positive shallow round
    · exact ih (queryRound_shallow numbered positive shallow round) ran

theorem next_numbered (numbered : Numbered history) (positive : 0 < batchSize) (clean : Clean history filter)
    (small : filter.upper < 2^64) {tick : Nat} {cursor : Option PageCursor} {page : QueryPage} (inside : InRange filter cursor)
    (ran : executeQueryInternal codec dictCache history.world filter tick cursor batchSize = .ok page) {next : PageCursor}
    (given : page.nextCursor = some next) : next.createdAt ≤ filter.upper ∧ next.levId < 2^64 := by
  have paged := executeQuery_page positive clean small inside ran
  obtain ⟨_,upper,_⟩ := paged.descends next given
  refine ⟨upper,?_⟩
  obtain ⟨final,looped,rfl⟩ := executeQueryInternal_ran ran
  have shallow : Shallow final := queryLoop_shallow numbered positive (by rintro deepest ⟨⟩) looped
  have listed : ∀ survivor ∈ final.valid.take (DeepFry.Query.effectiveLimit filter), survivor.1.2 < 2^64 := by
    intro survivor member
    obtain ⟨⟨t,_,event,stored,place,_⟩,_⟩ := paged.genuine survivor member
    have named : event.levId = survivor.1.2 := congrArg Prod.snd place
    exact named ▸ numbered t event stored
  unfold nextCursorOf at given
  split at given
  · obtain ⟨survivor,last,rfl⟩ := Option.map_eq_some_iff.mp given
    exact listed survivor (List.mem_of_getLast? last)
  · split at given
    · obtain ⟨survivor,last,rfl⟩ := Option.map_eq_some_iff.mp given
      exact listed survivor (List.mem_of_getLast? last)
    · split at given
      · obtain ⟨deepest,scanned,rfl⟩ := Option.map_eq_some_iff.mp given
        exact shallow deepest scanned
      · cases given

end Depth

-- What a filter input is refused for.
def Malformed (f : EventFilterInput) : Prop :=
  (∃ ks, f.kinds = some ks ∧ ∃ k ∈ ks, k.toInt < 0) ∨ (∃ x, f.since = some x ∧ x.toInt < 0) ∨ (∃ x, f.untilTs = some x ∧ x.toInt < 0) ∨
    ∃ low high, f.since = some low ∧ f.untilTs = some high ∧ high.toInt < low.toInt

section Input
variable {message field : Str} {effective : Nat}

theorem isOk_map {α β : Type} (f : α → β) (answer : Except GqlError α) : (answer.map f).isOk = answer.isOk := by
  cases answer <;> rfl

theorem nonneg_refused {x : Int64} : (nonneg message x).isOk = false ↔ x.toInt < 0 := by
  unfold nonneg
  split
  · next below => exact ⟨fun _ => below,fun _ => rfl⟩
  · next above => exact ⟨(nomatch ·),fun below => absurd below above⟩

theorem nonneg_ok {x : Int64} {n : Nat} (read : nonneg message x = .ok n) : n < 2^63 ∧ x.toInt = n := by
  unfold nonneg at read
  split at read
  · cases read
  · cases read
    have cap := x.toInt_lt
    omega

theorem nonnegTs_refused {v : Option Int64} : (nonnegTs v field).isOk = false ↔ ∃ x, v = some x ∧ x.toInt < 0 := by
  cases v with
  | none => simp [nonnegTs,Except.isOk,Except.toBool]
  | some x =>
    rw [nonnegTs,isOk_map,nonneg_refused]
    simp

theorem nonnegTs_ok {v : Option Int64} {ts : Option Nat} (read : nonnegTs v field = .ok ts) :
    (∀ n, ts = some n → n < 2^63) ∧ v.map Int64.toInt = ts.map Int.ofNat := by
  cases v with
  | none =>
    cases read
    exact ⟨by rintro n ⟨⟩,rfl⟩
  | some x =>
    unfold nonnegTs at read
    cases inner : nonneg (field ++ text " must be a non-negative Unix timestamp") x with
    | error e =>
      simp only [inner] at read
      cases read
    | ok n =>
      simp only [inner] at read
      cases read
      obtain ⟨cap,same⟩ := nonneg_ok inner
      refine ⟨?_,congrArg some same⟩
      rintro m ⟨⟩
      exact cap

theorem nonnegs_refused {ks : List Int64} : (ks.mapM (nonneg message)).isOk = false ↔ ∃ k ∈ ks, k.toInt < 0 := by
  induction ks with
  | nil => simp [Except.isOk,Except.toBool,pure,Except.pure]
  | cons k rest ih =>
    rw [List.mapM_cons,List.exists_mem_cons_iff,← ih,← @nonneg_refused message k]
    cases nonneg message k with
    | error e => simp [bind,Except.bind,Except.isOk,Except.toBool]
    | ok n => cases rest.mapM (nonneg message) <;> simp [bind,Except.bind,pure,Except.pure,Except.isOk,Except.toBool]

theorem kindsOf_refused {kinds : Option (List Int64)} :
    (kindsOf kinds).isOk = false ↔ ∃ ks, kinds = some ks ∧ ∃ k ∈ ks, k.toInt < 0 := by
  cases kinds with
  | none => simp [kindsOf,Except.isOk,Except.toBool]
  | some ks =>
    rw [kindsOf,isOk_map,nonnegs_refused]
    simp

theorem inverted_iff {low high : Option Int64} {since untilTs : Option Nat} (first : low.map Int64.toInt = since.map Int.ofNat)
    (second : high.map Int64.toInt = untilTs.map Int.ofNat) :
    inverted since untilTs = true ↔ ∃ l h, low = some l ∧ high = some h ∧ h.toInt < l.toInt := by
  cases low <;> cases since <;> simp only [Option.map_none,Option.map_some,reduceCtorEq,Option.some.injEq] at first
  · simp [inverted]
  · cases high <;> cases untilTs <;> simp only [Option.map_none,Option.map_some,reduceCtorEq,Option.some.injEq] at second
    · simp [inverted]
    · simp [inverted,first,second]

-- A filter input is refused for a negative number or for a since after its until, and for nothing else.
theorem build_refused (filter : Option EventFilterInput) :
    (buildNostrFilter filter effective).isOk = false ↔ Malformed (filter.getD {}) := by
  unfold buildNostrFilter Malformed
  generalize filter.getD {} = f
  rw [← @kindsOf_refused f.kinds,← @nonnegTs_refused (text "since") f.since,← @nonnegTs_refused (text "until") f.untilTs]
  cases first : kindsOf f.kinds with
  | error e => simp [first,bind,Except.bind,Except.isOk,Except.toBool]
  | ok kinds =>
    cases low : nonnegTs f.since (text "since") with
    | error e => simp [first,low,bind,Except.bind,Except.isOk,Except.toBool]
    | ok since =>
      cases high : nonnegTs f.untilTs (text "until") with
      | error e => simp [first,low,high,bind,Except.bind,Except.isOk,Except.toBool]
      | ok untilTs =>
        rw [← inverted_iff (nonnegTs_ok low).2 (nonnegTs_ok high).2]
        by_cases crossed : inverted since untilTs = true
        · simp [first,low,high,bind,Except.bind,Except.isOk,Except.toBool,crossed,throw,throwThe,MonadExceptOf.throw]
        · simp [first,low,high,bind,Except.bind,Except.isOk,Except.toBool,crossed,pure,Except.pure]

-- The filter that is built has the clamped limit and an until that is a u64.
theorem build_parts {filter : Option EventFilterInput} {built : NostrFilter} (given : buildNostrFilter filter effective = .ok built) :
    built.limit = effective ∧ built.upper < 2^64 := by
  unfold buildNostrFilter at given
  cases kinds : kindsOf (filter.getD {}).kinds with
  | error e =>
    simp only [kinds] at given
    cases given
  | ok kinds =>
    cases low : nonnegTs (filter.getD {}).since (text "since") with
    | error e =>
      simp only [kinds,low] at given
      cases given
    | ok since =>
      cases high : nonnegTs (filter.getD {}).untilTs (text "until") with
      | error e =>
        simp only [kinds,low,high] at given
        cases given
      | ok untilTs =>
        simp only [kinds,low,high,bind,Except.bind] at given
        split at given
        · cases given
        · cases given
          refine ⟨rfl,?_⟩
          cases untilTs with
          | none => exact (by decide : u64Max < 2^64)
          | some ts =>
            have cap := (nonnegTs_ok high).1 ts rfl
            exact cap.trans (by decide)

end Input

section Feed
variable {base64 : Base64.Engine} {codec : Codec} {dictCache : DictCache} {history : History codec dictCache}
variable {input : Option EventFilterInput} {limit : Option Int32} {filter : NostrFilter}

theorem effectiveLimit_bounds (limit : Option Int32) : 1 ≤ effectiveLimit limit ∧ effectiveLimit limit ≤ 500 := by
  unfold effectiveLimit
  cases limit with
  | none => decide
  | some l =>
    dsimp only
    omega

theorem cursorOf_encoded {cursor : Option PageCursor} (small : ∀ c, cursor = some c → c.createdAt < 2^64 ∧ c.levId < 2^64) :
    cursorOf base64 (cursor.map (encodeCursor base64)) = .ok cursor := by
  cases cursor with
  | none => rfl
  | some c =>
    obtain ⟨dated,numbered⟩ := small c rfl
    rw [Option.map_some,cursorOf,decode_encode dated numbered]
    rfl

-- A cursor the engine handed out is read back, and the page is the engine's.
theorem events_page (given : buildNostrFilter input (effectiveLimit limit) = .ok filter) {cursor : Option PageCursor}
    (small : ∀ c, cursor = some c → c.createdAt < 2^64 ∧ c.levId < 2^64) (tick : Nat) :
    events base64 codec dictCache history.world input limit tick (cursor.map (encodeCursor base64)) =
      ((executeQuery codec dictCache history.world filter tick cursor).mapError mapQueryError).map
        fun page => (pageOf base64 page,page.tick) := by
  unfold events
  rw [cursorOf_encoded small,given]
  simp only [bind,Except.bind]
  cases executeQuery codec dictCache history.world filter tick cursor <;> rfl

-- The client's walk is the engine's.
theorem feed_walk (numbered : Numbered history) (clean : Clean history filter)
    (given : buildNostrFilter input (effectiveLimit limit) = .ok filter) {cursor : Option PageCursor} (inside : InRange filter cursor)
    (named : ∀ c, cursor = some c → c.levId < 2^64) (maxPages tick : Nat) :
    feed base64 codec dictCache history.world input limit maxPages tick (cursor.map (encodeCursor base64)) =
      ((paginateAll codec dictCache history.world filter DEFAULT_WINDOW_SIZE maxPages tick cursor).mapError mapQueryError).map
        (Option.map (List.map (pageOf base64))) := by
  obtain ⟨_,small⟩ := build_parts given
  induction maxPages generalizing tick cursor with
  | zero => rfl
  | succ maxPages ih =>
    have bounds : ∀ c, cursor = some c → c.createdAt < 2^64 ∧ c.levId < 2^64 :=
      fun c same => ⟨(inside c same).trans_lt small,named c same⟩
    rw [feed,events_page given bounds tick]
    cases read : executeQuery codec dictCache history.world filter tick cursor with
    | error e =>
      have read : executeQueryInternal codec dictCache history.world filter tick cursor DEFAULT_WINDOW_SIZE = .error e := read
      rw [paginateAll,read]
      rfl
    | ok page =>
      obtain ⟨ends,continues⟩ := (@paginateAll_page _ _ _ _ _ _ _ _ maxPages) read
      cases next : page.nextCursor with
      | none =>
        have ended : (pageOf base64 page).endCursor = none := congrArg (Option.map (encodeCursor base64)) next
        rw [ends next]
        simp only [Except.mapError,Except.map,bind,Except.bind,ended]
        rfl
      | some later =>
        obtain ⟨upper,levId⟩ := next_numbered numbered (by decide) clean small inside read next
        have again := @ih (some later) (by rintro place ⟨⟩; exact upper) (by rintro c ⟨⟩; exact levId) page.tick
        have onward : (pageOf base64 page).endCursor = some (encodeCursor base64 later) := congrArg (Option.map (encodeCursor base64)) next
        rw [continues later next]
        rw [Option.map_some] at again
        simp only [Except.mapError,Except.map,bind,Except.bind,onward,again]
        cases paginateAll codec dictCache history.world filter DEFAULT_WINDOW_SIZE maxPages page.tick (some later) with
        | error e => rfl
        | ok rest => cases rest <;> rfl

theorem paginateAll_sized {world : World} {batchSize maxPages tick : Nat} {cursor : Option PageCursor} {pages : List QueryPage}
    (ran : paginateAll codec dictCache world filter batchSize maxPages tick cursor = .ok (some pages)) :
    ∀ page ∈ pages, page.valid.length ≤ DeepFry.Query.effectiveLimit filter := by
  induction maxPages generalizing tick cursor pages with
  | zero => cases ran
  | succ maxPages ih =>
    cases read : executeQueryInternal codec dictCache world filter tick cursor batchSize with
    | error e =>
      rw [paginateAll,read] at ran
      cases ran
    | ok page =>
      have sized : page.valid.length ≤ DeepFry.Query.effectiveLimit filter := by
        unfold executeQueryInternal at read
        dsimp only at read
        cases looped : queryLoop codec dictCache world filter batchSize (DeepFry.Query.effectiveLimit filter) MAX_ROUNDS (queryStart tick cursor) with
        | error e =>
          rw [looped] at read
          cases read
        | ok final =>
          rw [looped] at read
          cases read
          exact List.length_take_le _ _
      obtain ⟨ends,continues⟩ := (@paginateAll_page _ _ _ _ _ _ _ _ maxPages) read
      cases next : page.nextCursor with
      | none =>
        rw [ends next] at ran
        cases ran
        intro other member
        rwa [List.mem_singleton.mp member]
      | some later =>
        rw [continues later next] at ran
        cases rest : paginateAll codec dictCache world filter batchSize maxPages page.tick (some later) with
        | error e =>
          rw [rest] at ran
          cases ran
        | ok tail =>
          rw [rest] at ran
          cases tail with
          | none => cases ran
          | some tail =>
            cases ran
            intro other member
            rcases List.mem_cons.mp member with rfl | later
            · exact sized
            · exact ih rest other later

-- What a client has after its last page: the events it was shown, with the positions they were listed at.
structure Fed (history : History codec dictCache) (filter : NostrFilter) (start stop : Nat) (pages : List EventsPage)
    (listed : List Survivor) : Prop where
  shown : pages.flatMap EventsPage.events = listed.map fun survivor => decodedEventToGql survivor.2
  sized : ∀ page ∈ pages, page.events.length ≤ filter.limit
  falling : listed.Pairwise fun a b => b.1.rank < a.1.rank
  distinct : (listed.map fun survivor => survivor.1.2).Nodup
  genuine : ∀ survivor ∈ listed, Genuine history filter start survivor
  complete : ∀ event decoded, (∀ t, start ≤ t → t < stop → event ∈ (history.snapshot t).events) → event.decode = .ok decoded →
    filter.Matches decoded.event → (∀ t, start ≤ t → t < stop → isExpired (history.now t) decoded.event = false) →
    (event.position,decoded) ∈ listed

theorem pages_shown (pages : List QueryPage) :
    (pages.map (pageOf base64)).flatMap EventsPage.events = (survivors pages).map fun survivor => decodedEventToGql survivor.2 := by
  rw [List.flatMap_map,survivors,List.map_flatMap]
  refine List.flatMap_congr fun page _ => ?_
  rw [pageOf,QueryPage.events,List.map_map]
  rfl

theorem fed_walk (fixed : filter.indexName.FixedWidth) (given : buildNostrFilter input (effectiveLimit limit) = .ok filter)
    {maxPages tick : Nat} {pages : List QueryPage}
    (ran : paginateAll codec dictCache history.world filter DEFAULT_WINDOW_SIZE maxPages tick none = .ok (some pages)) :
    Fed history filter tick (finish tick pages) (pages.map (pageOf base64)) (survivors pages) := by
  obtain ⟨size,small⟩ := build_parts given
  have positive := (effectiveLimit_bounds limit).1
  have range : InRange filter none := by
    rintro place ⟨⟩
  obtain ⟨_,walked⟩ := paginateAll_walk (by decide) (history_clean history fixed) small range ran
  refine ⟨pages_shown pages,?_,walked.falling,genuine_levIds walked.genuine walked.falling,walked.genuine,?_⟩
  · intro shown member
    obtain ⟨page,inside,rfl⟩ := List.mem_map.mp member
    have sized := paginateAll_sized ran page inside
    rw [DeepFry.Query.effectiveLimit,if_neg (by omega)] at sized
    rwa [pageOf,List.length_map,QueryPage.events,List.length_map]
  · intro event decoded stored decodes fits unexpired
    refine walked.complete event decoded ⟨stored,decodes,fits,unexpired,fixed_routed fixed decodes fits⟩ ?_
    rintro bound ⟨⟩

-- Where no request of the feed fails, no query of the walk does.
theorem feed_succeeds (numbered : Numbered history) (clean : Clean history filter)
    (given : buildNostrFilter input (effectiveLimit limit) = .ok filter) {tick : Nat}
    (answered : ∀ maxPages e, feed base64 codec dictCache history.world input limit maxPages tick none ≠ .error e) :
    Succeeds codec dictCache history.world filter DEFAULT_WINDOW_SIZE tick none := by
  intro maxPages e failed
  have range : InRange filter none := by
    rintro place ⟨⟩
  have walk := (@feed_walk base64 _ _ _ _ _ _ numbered clean given none range (by rintro c ⟨⟩)) maxPages tick
  rw [Option.map_none,failed] at walk
  exact answered maxPages _ walk

-- A filter is refused exactly when it is malformed, and a cursor exactly when none was encoded to it. A client that hands each
-- endCursor back and is never refused comes to an end: it sees no event twice, newest first, and misses none that stood all
-- along; over a store that stands still it has exactly the matching events.
theorem events_feed (numbered : Numbered history) :
    ((buildNostrFilter input (effectiveLimit limit)).isOk = false ↔ Malformed (input.getD {})) ∧
    (∀ tick s, (∃ cursor, s = encodeCursor base64 cursor ∧ cursor.createdAt < 2^64 ∧ cursor.levId < 2^64) ∨
      ∃ e, events base64 codec dictCache history.world input limit tick (some s) = .error e ∧ e.code = some INVALID_CURSOR) ∧
    ∀ filter, buildNostrFilter input (effectiveLimit limit) = .ok filter → filter.indexName.FixedWidth →
      (∀ maxPages tick pages, feed base64 codec dictCache history.world input limit maxPages tick none = .ok (some pages) →
        ∃ stop listed, Fed history filter tick stop pages listed) ∧
      (∀ tick, (∀ maxPages e, feed base64 codec dictCache history.world input limit maxPages tick none ≠ .error e) →
        ∃ maxPages pages, feed base64 codec dictCache history.world input limit maxPages tick none = .ok (some pages)) ∧
      ∀ snapshot now, history = still snapshot now → ∃ maxPages pages listed,
        feed base64 codec dictCache history.world input limit maxPages 0 none = .ok (some pages) ∧
        (∃ stop, Fed history filter 0 stop pages listed) ∧
        ∀ position decoded, (position,decoded) ∈ listed ↔ ∃ event ∈ snapshot.events, event.position = position ∧
          event.decode = .ok decoded ∧ filter.Matches decoded.event ∧ isExpired now decoded.event = false := by
  refine ⟨build_refused input,fun tick s => ?_,fun filter given fixed => ?_⟩
  · cases read : decodeCursor base64 s with
    | ok cursor => exact .inl ⟨cursor,encode_decode read⟩
    | error reason =>
      refine .inr ⟨invalidCursor reason,?_,rfl⟩
      rw [events,cursorOf,read]
      rfl
  have range : InRange filter none := by
    rintro place ⟨⟩
  have walk := fun maxPages tick =>
    (@feed_walk base64 _ _ _ _ _ _ numbered (history_clean history fixed) given none range (by rintro c ⟨⟩)) maxPages tick
  refine ⟨fun maxPages tick pages ran => ?_,fun tick answered => ?_,?_⟩
  · have walk := walk maxPages tick
    rw [Option.map_none,ran] at walk
    cases read : paginateAll codec dictCache history.world filter DEFAULT_WINDOW_SIZE maxPages tick none with
    | error e =>
      rw [read] at walk
      cases walk
    | ok found =>
      rw [read] at walk
      cases found with
      | none => cases walk
      | some walked =>
        cases walk
        exact ⟨_,_,fed_walk fixed given read⟩
  · obtain ⟨_,small⟩ := build_parts given
    obtain ⟨maxPages,pages,ran⟩ := paginateAll_ends (by decide) (history_clean history fixed) small
      (feed_succeeds numbered (history_clean history fixed) given answered) range
    have walk := walk maxPages tick
    rw [ran,Option.map_none] at walk
    exact ⟨maxPages,_,walk⟩
  · rintro snapshot now rfl
    obtain ⟨_,small⟩ := build_parts given
    obtain ⟨maxPages,pages,ran,_,member⟩ := (@still_pages _ _ filter DEFAULT_WINDOW_SIZE) snapshot now
      (fun _ known => .inl (fixed_clean fixed (snapshot.index filter.indexName) (startValues_layout known))) small (by decide)
    have walk := walk maxPages 0
    rw [ran,Option.map_none] at walk
    refine ⟨maxPages,pages.map (pageOf base64),survivors pages,walk,⟨_,fed_walk fixed given ran⟩,fun position decoded => ?_⟩
    refine (member position decoded).trans ⟨?_,?_⟩
    · rintro ⟨event,stored,place,decodes,fits,unexpired,_⟩
      exact ⟨event,stored,place,decodes,fits,unexpired⟩
    · rintro ⟨event,stored,place,decodes,fits,unexpired⟩
      exact ⟨event,stored,place,decodes,fits,unexpired,fixed_routed fixed decodes fits⟩

end Feed

theorem sample_numbered : Numbered (still sampleSnapshot 100) := by
  intro t event member
  have small : ∀ event ∈ sampleSnapshot.events, event.levId < 2^64 := by decide
  exact small event member

-- Two notes of one second, one note a page.
theorem events_feed_sample : ∃ maxPages pages listed,
    feed Base64.standard (noteCodec sampleNotes) noDicts (still sampleSnapshot 100).world none (some 0) maxPages 0 none = .ok (some pages) ∧
    (∃ stop, Fed (still sampleSnapshot 100) {limit := 1} 0 stop pages listed) ∧
    ∀ position decoded, (position,decoded) ∈ listed ↔ ∃ event ∈ sampleSnapshot.events, event.position = position ∧
      event.decode = .ok decoded ∧ NostrFilter.Matches {limit := 1} decoded.event ∧ isExpired 100 decoded.event = false :=
  ((@events_feed Base64.standard _ _ _ none (some 0) sample_numbered).2.2 {limit := 1} rfl (by decide)).2.2 sampleSnapshot 100 rfl

end DeepFry.Query.Resolvers
