import DeepFry.Query.Pagination

namespace DeepFry.Query
open Lmdb Bytes
variable {codec : Codec} {dictCache : DictCache}

section Front
variable {α β : Type} {items : List α}

-- Where the matching items come first, a cut before the filter is a cut after it.
theorem take_filter_front {p : α → Bool} (front : items.Pairwise fun a b => p b = true → p a = true) (n : Nat) :
    (items.take n).filter p = (items.filter p).take n := by
  induction items generalizing n with
  | nil => simp
  | cons item rest ih =>
    obtain ⟨first,later⟩ := List.pairwise_cons.mp front
    cases n with
    | zero => simp
    | succ n =>
      rw [List.take_succ_cons,List.filter_cons,List.filter_cons]
      by_cases kept : p item = true
      · rw [if_pos kept,if_pos kept,ih later,List.take_succ_cons]
      · have none_later : rest.filter p = [] := List.filter_eq_nil_iff.mpr fun b member match_ => kept (first b member match_)
        rw [if_neg kept,if_neg kept,ih later,none_later,List.take_nil,List.take_nil]

-- A drop after the cut loses nothing exactly when nothing is dropped inside it or nothing is kept beyond it.
theorem take_filterMap_iff {f : α → Option β} {n : Nat} : (items.take n).filterMap f = (items.filterMap f).take n ↔
    (∀ item ∈ items.take n, (f item).isSome) ∨ ∀ item ∈ items.drop n, f item = none := by
  have whole : items.filterMap f = (items.take n).filterMap f ++ (items.drop n).filterMap f := by
    rw [← List.filterMap_append,List.take_append_drop]
  have size : ((items.take n).filterMap f).length ≤ n :=
    (List.length_filterMap_le f _).trans (List.length_take_le n items)
  rw [whole,List.take_append,List.take_of_length_le size,List.self_eq_append_right,List.take_eq_nil_iff]
  have beyond : (items.drop n).filterMap f = [] ↔ ∀ item ∈ items.drop n, f item = none := List.filterMap_eq_nil_iff
  have inside : ((items.take n).filterMap f).length = (items.take n).length ↔ ∀ item ∈ items.take n, (f item).isSome :=
    List.filterMap_length_eq_length
  rw [beyond,← inside]
  have taken := List.length_filterMap_le f (items.take n)
  have cut : (items.take n).length = min n items.length := List.length_take
  constructor
  · intro lost
    obtain full | empty := lost
    · exact .inl (by omega)
    · exact .inr empty
  · intro kept
    obtain all | empty := kept
    · by_cases long : n ≤ items.length
      · exact .inl (by omega)
      · refine .inr ?_
        rw [List.drop_eq_nil_of_le (not_le.mp long).le]
        exact fun _ none => absurd none List.not_mem_nil
    · exact .inr empty

end Front

-- The events of one author and kind, newest first.
def newest (snapshot : Snapshot codec dictCache) (pubkey : Bytes) (kind : Nat) : List (StoredEvent codec dictCache) :=
  (snapshot.events.filter fun event => event.pubkey = pubkey ∧ event.kind = kind).insertionSort fun a b =>
    b.position.rank ≤ a.position.rank

-- What a stored event reads as, unless it does not decode or has expired.
def unexpired (now : Nat) (event : StoredEvent codec dictCache) : Option DecodedEvent :=
  match event.decode with
  | .ok decoded => if isExpired now decoded.event then none else some decoded
  | .error _ => none

section Scan
variable {snapshot : Snapshot codec dictCache} {pubkey : Bytes} {kind perAuthor : Nat}

theorem mem_newest {event : StoredEvent codec dictCache} : event ∈ newest snapshot pubkey kind ↔
    event ∈ snapshot.events ∧ event.pubkey = pubkey ∧ event.kind = kind := by
  unfold newest
  rw [List.mem_insertionSort,List.mem_filter,decide_eq_true_eq]

theorem newest_falling (snapshot : Snapshot codec dictCache) (pubkey : Bytes) (kind : Nat) :
    (newest snapshot pubkey kind).Pairwise fun a b => b.position.rank < a.position.rank := by
  have total : Std.Total fun a b : StoredEvent codec dictCache => b.position.rank ≤ a.position.rank :=
    ⟨fun a b => le_total b.position.rank a.position.rank⟩
  have trans : IsTrans (StoredEvent codec dictCache) fun a b => b.position.rank ≤ a.position.rank :=
    ⟨fun _ _ _ first second => second.trans first⟩
  have ordered : (newest snapshot pubkey kind).Pairwise fun a b => b.position.rank ≤ a.position.rank :=
    List.pairwise_insertionSort _ _
  have distinct : ((newest snapshot pubkey kind).map StoredEvent.levId).Nodup := by
    unfold newest
    rw [((List.perm_insertionSort _ _).map StoredEvent.levId).nodup_iff]
    exact snapshot.unique.sublist (List.filter_sublist.map StoredEvent.levId)
  rw [List.Nodup,List.pairwise_map] at distinct
  apply (ordered.and distinct).imp
  intro a b ⟨order,apart⟩
  apply lt_of_le_of_ne order
  intro same
  exact apart (congrArg Prod.snd (Position.rank_injective same)).symm

-- The scan's test of a key is that it carries the author and the kind.
theorem latestMatches_value (width : pubkey.length = 32) {key : Bytes} (layout : key.length = 48) (levId : LevId) :
    latestMatches pubkey kind (key,levId) = true ↔ valuePart key = pubkey ++ toLe 8 kind := by
  have stemmed : valuePart key = key.take 32 ++ (key.drop 32).take 8 := by
    unfold valuePart stem
    rw [layout,← List.take_add]
  have size : (key.take 32).length = pubkey.length := by
    rw [List.length_take,layout,width]
    rfl
  unfold latestMatches
  rw [stemmed,Bool.and_eq_true,Bool.and_eq_true,beq_iff_eq,beq_iff_eq,beq_iff_eq]
  constructor
  · intro ⟨⟨_,author⟩,same⟩
    rw [author,same]
  · intro same
    obtain ⟨author,same⟩ := List.append_inj same size
    exact ⟨⟨layout,author⟩,same⟩

abbrev latestBound (pubkey : Bytes) (kind : Nat) : Bound := reverseBound (latestStartKey pubkey kind)

theorem latest_scope (width : pubkey.length = 32) {entry : Entry}
    (listed : entry ∈ (snapshot.index .Event__pubkeyKind).revRange (latestBound pubkey kind)) :
    IndexName.valueRank .Event__pubkeyKind (valuePart entry.1) ≤
      IndexName.valueRank .Event__pubkeyKind (pubkey ++ toLe 8 kind) := by
  obtain ⟨stored,below⟩ := mem_revRange.mp listed
  obtain ⟨layout,early⟩ := listing_layout stored
  have value : IndexName.ValueLayout .Event__pubkeyKind (pubkey ++ toLe 8 kind) := by
    simp [IndexName.ValueLayout,width]
  have scope := (scope_first value (show u64Max < 2^64 by decide) layout early).mp below
  obtain less | ⟨same,_⟩ := scope
  · exact less.le
  · exact same.le

def latestEntry (event : StoredEvent codec dictCache) : Entry :=
  (compositeKey (event.pubkey ++ toLe 8 event.kind) event.createdAt,event.levId)

theorem value_injective {author : Bytes} {sort : Nat} (width : author.length = pubkey.length) (small : sort < 2^64)
    (fits : kind < 2^64) (same : author ++ toLe 8 sort = pubkey ++ toLe 8 kind) : author = pubkey ∧ sort = kind := by
  obtain ⟨authors,kinds⟩ := List.append_inj same width
  have read := congrArg fromLe kinds
  rw [fromLe_exact (by omega),fromLe_exact (by omega)] at read
  exact ⟨authors,read⟩

theorem mem_latest (width : pubkey.length = 32) (fits : kind < 2^64) (entry : Entry) :
    entry ∈ ((snapshot.index .Event__pubkeyKind).revRange (latestBound pubkey kind)).filter (latestMatches pubkey kind) ↔
      entry ∈ (newest snapshot pubkey kind).map latestEntry := by
  have value : IndexName.ValueLayout .Event__pubkeyKind (pubkey ++ toLe 8 kind) := by
    simp [IndexName.ValueLayout,width]
  rw [List.mem_filter,List.mem_map]
  constructor
  · intro both
    obtain ⟨inside,matching⟩ := both
    have stored := (mem_revRange.mp inside).1
    obtain ⟨event,member,listed,found,rfl⟩ := mem_listing.mp stored
    have own : listed = event.pubkey ++ toLe 8 event.kind := List.mem_singleton.mp found
    subst own
    have layout := (listing_layout stored).1
    rw [latestMatches_value width layout,composite_value] at matching
    obtain ⟨author,same⟩ := value_injective (event.pubkeyWidth.trans width.symm) event.kindFits fits matching
    exact ⟨event,mem_newest.mpr ⟨member,author,same⟩,rfl⟩
  · intro found
    obtain ⟨event,member,same⟩ := found
    obtain ⟨stored,author,own⟩ := mem_newest.mp member
    have listed : entry ∈ snapshot.listing .Event__pubkeyKind := by
      rw [← same]
      exact mem_listing.mpr ⟨event,stored,_,List.mem_singleton_self _,rfl⟩
    obtain ⟨layout,early⟩ := listing_layout listed
    have carried : valuePart entry.1 = pubkey ++ toLe 8 kind := by
      rw [← same,latestEntry,composite_value,author,own]
    refine ⟨mem_revRange.mpr ⟨listed,?_⟩,(latestMatches_value width layout entry.2).mpr carried⟩
    apply (scope_first value (show u64Max < 2^64 by decide) layout early).mpr
    rw [carried]
    exact .inr ⟨rfl,early.le⟩

-- In the order of the walk two different entries do not come before one another.
def walksBefore (a b : Entry) : Prop :=
  IndexName.keyRank .Event__pubkeyKind b.1 < IndexName.keyRank .Event__pubkeyKind a.1 ∨ a.1 = b.1 ∧ b.2 < a.2

theorem walksBefore_asymm {a b : Entry} (first : walksBefore a b) (second : walksBefore b a) : a = b := by
  obtain less | ⟨same,less⟩ := first
  · obtain more | ⟨equal,_⟩ := second
    · exact absurd (less.trans more) (lt_irrefl _)
    · rw [equal] at less
      exact absurd less (lt_irrefl _)
  · obtain more | ⟨_,more⟩ := second
    · rw [same] at more
      exact absurd more (lt_irrefl _)
    · exact absurd (less.trans more) (lt_irrefl _)

theorem newest_walk (width : pubkey.length = 32) (fits : kind < 2^64) :
    ((snapshot.index .Event__pubkeyKind).revRange (latestBound pubkey kind)).filter (latestMatches pubkey kind) =
      (newest snapshot pubkey kind).map latestEntry := by
  have walked := (revRange_falling (snapshot.index .Event__pubkeyKind) (latestBound pubkey kind)).filter
    (latestMatches pubkey kind)
  have falling : ((newest snapshot pubkey kind).map latestEntry).Pairwise walksBefore := by
    rw [List.pairwise_map]
    apply (newest_falling snapshot pubkey kind).imp_of_mem
    intro a b left right less
    obtain ⟨_,authorA,kindA⟩ := mem_newest.mp left
    obtain ⟨_,authorB,kindB⟩ := mem_newest.mp right
    unfold walksBefore latestEntry
    rw [keyRank_lt,composite_value,composite_value,composite_createdAt _ (a.dated.trans (by decide)),
      composite_createdAt _ (b.dated.trans (by decide)),authorA,kindA,authorB,kindB]
    obtain earlier | ⟨same,lower⟩ := Position.rank_lt.mp less
    · exact .inl (.inr ⟨rfl,earlier⟩)
    · have same : b.createdAt = a.createdAt := same
      rw [same]
      exact .inr ⟨rfl,lower⟩
  have irreflexive : ∀ a : Entry, ¬ walksBefore a a := by
    intro a before
    obtain less | ⟨_,less⟩ := before <;> exact lt_irrefl _ less
  have once : ∀ {l : List Entry}, l.Pairwise walksBefore → l.Nodup := by
    intro l order
    apply order.imp
    intro a b before same
    rw [same] at before
    exact irreflexive b before
  apply List.Perm.eq_of_pairwise _ walked falling
  · rw [List.perm_ext_iff_of_nodup (once walked) (once falling)]
    exact mem_latest width fits
  · intro a b _ _
    exact walksBefore_asymm

-- The scan of one author reads its newest events of the kind.
theorem latestMatching_newest (width : pubkey.length = 32) (fits : kind < 2^64) (positive : 0 < perAuthor) :
    latestMatching snapshot.env kind perAuthor pubkey =
      ((newest snapshot pubkey kind).take perAuthor).map StoredEvent.levId := by
  have front : ((snapshot.index .Event__pubkeyKind).revRange (latestBound pubkey kind)).Pairwise
      fun a b => latestMatches pubkey kind b = true → latestMatches pubkey kind a = true := by
    apply (revRange_falling _ _).imp_of_mem
    intro a b left right before matching
    have layoutA := (listing_layout (mem_revRange.mp left).1).1
    have layoutB := (listing_layout (mem_revRange.mp right).1).1
    rw [latestMatches_value width layoutB] at matching
    rw [latestMatches_value width layoutA]
    obtain less | ⟨same,_⟩ := before
    · rw [keyRank_lt,matching] at less
      have scope := latest_scope width left
      obtain above | ⟨same,_⟩ := less
      · exact absurd scope (not_le.mpr above)
      · exact valueRank_injective (layout_value layoutA) (by simp [IndexName.ValueLayout,width]) same.symm
    · rw [same]
      exact matching
  unfold latestMatching scanIndexBounded
  rw [if_neg (Nat.ne_of_gt positive)]
  change List.map Prod.snd (List.filter _ (((snapshot.index .Event__pubkeyKind).revRange (latestBound pubkey kind)).take perAuthor)) = _
  rw [take_filter_front front,newest_walk width fits,← List.map_take,List.map_map]
  rfl

end Scan

section Buckets
variable {snapshot : Snapshot codec dictCache} {events : List (StoredEvent codec dictCache)} {pubkey : Bytes}
  {kind perAuthor now : Nat}

theorem batch_payloads (stored : ∀ event ∈ events, event ∈ snapshot.events) :
    batchGetEventPayloads snapshot.env (events.map StoredEvent.levId) =
      .ok (events.map fun event => (event.levId,event.payload)) := by
  induction events with
  | nil => rfl
  | cons event rest ih =>
    have read : getEventPayload snapshot.env event.levId = .ok event.payload := by
      have found : snapshot.env.eventPayload event.levId = some event.payload := payload_exact (stored event List.mem_cons_self)
      rw [getEventPayload,found]
    rw [List.map_cons,batchGetEventPayloads,read,ih fun other member => stored other (List.mem_cons_of_mem _ member)]
    rfl

def decodedPair (event : StoredEvent codec dictCache) : Option (LevId × DecodedEvent) :=
  match event.decode with
  | .ok decoded => some (event.levId,decoded)
  | .error _ => none

theorem batch_hydrated (stored : ∀ event ∈ events, event ∈ snapshot.events) :
    hydrateLevIdsBatch codec dictCache snapshot.env (events.map StoredEvent.levId) = .ok (events.filterMap decodedPair) := by
  unfold hydrateLevIdsBatch
  split
  · rename_i empty
    have none_there : events = [] := by simpa using empty
    rw [none_there]
    rfl
  · rw [batch_payloads stored]
    dsimp only
    rw [List.filterMap_map]
    rfl

theorem zipIdx_filter {α : Type} (p : α → Bool) (items : List α) :
    (items.zipIdx.filter fun item => p item.1).map Prod.fst = items.filter p := by
  have same : (items.zipIdx.map Prod.fst).filter p = (items.zipIdx.filter (p ∘ Prod.fst)).map Prod.fst := List.filter_map
  rw [List.zipIdx_map_fst] at same
  exact same.symm

-- What one author gets of a store that stands still.
def bucket (snapshot : Snapshot codec dictCache) (now kind perAuthor : Nat) (pubkey : Bytes) : List DecodedEvent :=
  ((newest snapshot pubkey kind).take perAuthor).filterMap (unexpired now)

theorem latestForAuthor_still (width : pubkey.length = 32) (fits : kind < 2^64) (positive : 0 < perAuthor) (tick : Nat) :
    ∃ after, latestForAuthor codec dictCache (still snapshot now).world kind perAuthor tick pubkey =
      .ok (bucket snapshot now kind perAuthor pubkey,after) := by
  have stored : ∀ event ∈ (newest snapshot pubkey kind).take perAuthor, event ∈ snapshot.events := by
    intro event member
    exact (mem_newest.mp (List.mem_of_mem_take member)).1
  have matching := @latestMatching_newest _ _ snapshot _ _ _ width fits positive
  have hydrated := batch_hydrated stored
  unfold latestForAuthor
  change ∃ after, (if (latestMatching snapshot.env kind perAuthor pubkey).isEmpty then _ else
    hydrateLevIdsBatch codec dictCache snapshot.env (latestMatching snapshot.env kind perAuthor pubkey) >>= _) = _
  rw [matching]
  split
  · rename_i empty
    have none_there : (newest snapshot pubkey kind).take perAuthor = [] := by simpa using empty
    refine ⟨tick + 1,?_⟩
    unfold bucket
    rw [none_there]
    rfl
  · rw [hydrated]
    refine ⟨_,congrArg (fun events => Except.ok (events,_)) ?_⟩
    change (List.filter (fun item : (LevId × DecodedEvent) × Nat => !isExpired now item.1.2.event) (List.zipIdx _)).map
      (fun item => item.1.2) = _
    have checked := zipIdx_filter (fun pair : LevId × DecodedEvent => !isExpired now pair.2.event)
      (((newest snapshot pubkey kind).take perAuthor).filterMap decodedPair)
    have parts : ∀ items : List ((LevId × DecodedEvent) × Nat), items.map (fun item => item.1.2) =
        (items.map Prod.fst).map Prod.snd := by
      intro items
      rw [List.map_map]
      rfl
    unfold bucket
    rw [parts,checked,List.filter_filterMap,List.map_filterMap]
    apply List.filterMap_congr
    intro event _
    unfold decodedPair unexpired
    cases event.decode with
    | error error => rfl
    | ok decoded =>
      dsimp only
      cases expired : isExpired now decoded.event with
      | true => simp [Option.filter,expired]
      | false => simp [Option.filter,expired]

-- An author without events to show is left out.
def entryOf (events : List DecodedEvent) : Option (List DecodedEvent) := if events.isEmpty then none else some events

theorem entryOf_injective {a b : List DecodedEvent} (same : entryOf a = entryOf b) : a = b := by
  unfold entryOf at same
  cases a with
  | nil =>
    cases b with
    | nil => rfl
    | cons _ _ => cases same
  | cons _ _ =>
    cases b with
    | nil => cases same
    | cons _ _ => exact Option.some.inj same

def bucketOf (snapshot : Snapshot codec dictCache) (now kind perAuthor : Nat) (authorHex : Str) : Option (List DecodedEvent) :=
  (decodeHex32 authorHex).bind fun pubkey => entryOf (bucket snapshot now kind perAuthor pubkey)

theorem decodeHex32_width {authorHex : Str} (decoded : decodeHex32 authorHex = some pubkey) : pubkey.length = 32 := by
  unfold decodeHex32 at decoded
  split at decoded
  · cases decoded
  · split at decoded
    · obtain ⟨width,same⟩ := Option.ite_none_right_eq_some.mp decoded
      cases same
      exact width
    · cases decoded

theorem loop_still (fits : kind < 2^64) (positive : 0 < perAuthor) (tick : Nat) (result : AuthorBuckets) (authors : List Str) :
    ∃ buckets, latestPerAuthorLoop codec dictCache (still snapshot now).world kind perAuthor tick result authors = .ok buckets ∧
      ∀ authorHex, buckets authorHex = if authorHex ∈ authors then
        (bucketOf snapshot now kind perAuthor authorHex).or (result authorHex) else result authorHex := by
  induction authors generalizing tick result with
  | nil => exact ⟨result,rfl,fun _ => by simp⟩
  | cons author rest ih =>
    rw [latestPerAuthorLoop]
    cases decoded : decodeHex32 author with
    | none =>
      obtain ⟨buckets,ran,each⟩ := ih tick result
      refine ⟨buckets,ran,?_⟩
      intro authorHex
      rw [each authorHex]
      by_cases own : authorHex = author
      · subst own
        simp [bucketOf,decoded]
      · simp [own]
    | some pubkey =>
      obtain ⟨after,answered⟩ := @latestForAuthor_still _ _ snapshot _ _ _ now (decodeHex32_width decoded) fits positive tick
      dsimp only
      rw [answered]
      obtain ⟨buckets,ran,each⟩ := ih after (if (bucket snapshot now kind perAuthor pubkey).isEmpty then result
        else Function.update result author (some (bucket snapshot now kind perAuthor pubkey)))
      refine ⟨buckets,ran,?_⟩
      intro authorHex
      rw [each authorHex]
      by_cases own : authorHex = author
      · subst own
        cases found : bucket snapshot now kind perAuthor pubkey with
        | nil => simp [bucketOf,decoded,entryOf,found]
        | cons _ _ => simp [bucketOf,decoded,entryOf,found]
      · have kept : (if (bucket snapshot now kind perAuthor pubkey).isEmpty then result
            else Function.update result author (some (bucket snapshot now kind perAuthor pubkey))) authorHex = result authorHex := by
          split
          · rfl
          · exact Function.update_of_ne own _ _
        rw [kept]
        simp [own]

theorem latestPerAuthor_still (fits : kind < 2^64) (positive : 0 < perAuthor) (tick : Nat) (authors : List Str) :
    ∃ buckets, latestPerAuthor codec dictCache (still snapshot now).world tick kind perAuthor authors = .ok buckets ∧
      ∀ authorHex, buckets authorHex = if authorHex ∈ authors then bucketOf snapshot now kind perAuthor authorHex else none := by
  obtain ⟨buckets,ran,each⟩ := @loop_still _ _ snapshot _ _ now fits positive tick (fun _ => none) authors
  refine ⟨buckets,?_,?_⟩
  · unfold latestPerAuthor
    rw [if_neg (Nat.ne_of_gt positive)]
    exact ran
  · intro authorHex
    rw [each authorHex]
    split
    · exact Option.or_none
    · rfl

-- What the buckets should be: of each author listed the newest unexpired events that decode, as many as are asked for.
def Filled (snapshot : Snapshot codec dictCache) (now kind perAuthor : Nat) (authors : List Str) (buckets : AuthorBuckets) : Prop :=
  ∀ authorHex, buckets authorHex = if authorHex ∈ authors then (decodeHex32 authorHex).bind fun pubkey =>
    entryOf (((newest snapshot pubkey kind).filterMap (unexpired now)).take perAuthor) else none

theorem latest_fills (snapshot : Snapshot codec dictCache) (now kind perAuthor : Nat) (fits : kind < 2^64)
    (positive : 0 < perAuthor) (tick : Nat) (authors : List Str) :
    (∃ buckets, latestPerAuthor codec dictCache (still snapshot now).world tick kind perAuthor authors = .ok buckets ∧
      Filled snapshot now kind perAuthor authors buckets) ↔
    ∀ authorHex ∈ authors, ∀ pubkey, decodeHex32 authorHex = some pubkey →
      (∀ event ∈ (newest snapshot pubkey kind).take perAuthor, (unexpired now event).isSome) ∨
        ∀ event ∈ (newest snapshot pubkey kind).drop perAuthor, unexpired now event = none := by
  obtain ⟨buckets,ran,each⟩ := @latestPerAuthor_still _ _ snapshot _ _ now fits positive tick authors
  constructor
  · intro ⟨others,again,filled⟩ authorHex listed pubkey decoded
    cases ran.symm.trans again
    have same := (each authorHex).symm.trans (filled authorHex)
    rw [if_pos listed,if_pos listed,bucketOf,decoded] at same
    exact take_filterMap_iff.mp (entryOf_injective same)
  · intro fits_in
    refine ⟨buckets,ran,?_⟩
    intro authorHex
    rw [each authorHex]
    by_cases listed : authorHex ∈ authors
    · rw [if_pos listed,if_pos listed,bucketOf]
      cases decoded : decodeHex32 authorHex with
      | none => rfl
      | some pubkey =>
        have same := take_filterMap_iff.mpr (fits_in authorHex listed pubkey decoded)
        dsimp only [Option.bind_some]
        rw [bucket,same]
    · rw [if_neg listed,if_neg listed]

end Buckets

-- One author, whose newest note has expired.
abbrev expiringNotes : List NostrEvent := [sampleNote 1 5 [],sampleNote 2 6 [[text "expiration",text "50"]]]

def lastingSample : StoredEvent (noteCodec expiringNotes) noDicts := sampleEvent expiringNotes 1 5 [] dated_five (by decide +kernel)

def expiringSample : StoredEvent (noteCodec expiringNotes) noDicts :=
  sampleEvent expiringNotes 2 6 [[text "expiration",text "50"]] dated_six (by decide +kernel)

def expiringSnapshot : Snapshot (noteCodec expiringNotes) noDicts := ⟨[lastingSample,expiringSample],by decide⟩

def sampleAuthor : Str := hexEncode (List.replicate 32 7)

-- Two events an author are enough to find the older note, one is not.
theorem latest_fills_two : ∃ buckets, latestPerAuthor (noteCodec expiringNotes) noDicts (still expiringSnapshot 100).world 0 1 2
    [sampleAuthor] = .ok buckets ∧ Filled expiringSnapshot 100 1 2 [sampleAuthor] buckets := by
  apply (latest_fills expiringSnapshot 100 1 2 (by decide) (by decide) 0 [sampleAuthor]).mpr
  intro authorHex _ pubkey _
  refine .inr ?_
  have few : (newest expiringSnapshot pubkey 1).length ≤ 2 := by
    unfold newest
    rw [List.length_insertionSort]
    exact List.length_filter_le _ _
  rw [List.drop_eq_nil_of_le few]
  exact fun _ none => absurd none List.not_mem_nil

theorem latest_fills_fails : ¬ ∃ buckets, latestPerAuthor (noteCodec expiringNotes) noDicts (still expiringSnapshot 100).world 0 1 1
    [sampleAuthor] = .ok buckets ∧ Filled expiringSnapshot 100 1 1 [sampleAuthor] buckets := by
  intro ⟨buckets,ran,filled⟩
  obtain ⟨others,again,each⟩ := @latestPerAuthor_still _ _ expiringSnapshot 1 1 100 (by decide) (by decide) 0 [sampleAuthor]
  cases ran.symm.trans again
  have same := (each sampleAuthor).symm.trans (filled sampleAuthor)
  rw [if_pos (List.mem_singleton_self _),if_pos (List.mem_singleton_self _)] at same
  have missed : (bucketOf expiringSnapshot 100 1 1 sampleAuthor).isSome = false := by decide +kernel
  rw [same] at missed
  exact absurd missed (by decide +kernel)

end DeepFry.Query
