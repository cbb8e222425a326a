import DeepFry.Lmdb.Payload
import DeepFry.Lmdb.Scan
import Mathlib.Data.List.Sort

namespace DeepFry.Lmdb
open Bytes

-- One event of strfry's store: the packed fields the indexes are derived from, and the payload.
-- A payload that decodes is the event the packed fields were taken from.
structure StoredEvent (codec : Codec) (dictCache : DictCache) where
  levId : LevId
  id : Bytes
  pubkey : Bytes
  createdAt : Nat
  kind : Nat
  tags : List (List Str)
  payload : Bytes
  idWidth : id.length = 32
  pubkeyWidth : pubkey.length = 32
  dated : createdAt < u64Max
  kindFits : kind < 2^64
  faithful : ∀ decoded, decodeEventPayloadWithCache codec payload dictCache = .ok decoded →
    decoded.event.id = hexEncode id ∧ decoded.event.pubkey = hexEncode pubkey ∧
      decoded.event.createdAt = createdAt ∧ decoded.event.kind = kind ∧ decoded.event.tags = tags

-- The key value strfry writes for a tag: the 32 bytes of the 64-hex form under the letters e and
-- p, the raw UTF-8 bytes under every other letter.
def storedTagValue (letter : UInt8) (value : Str) : Option Bytes :=
  if letter = 101 ∨ letter = 112 then if value.length = 64 then decodeHex value else none else some value

def tagKeyValue (tag : List Str) : Option Bytes :=
  match tag with
  | [letter] :: value :: _ => (storedTagValue letter value).map (letter :: ·)
  | _ => none

variable {codec : Codec} {dictCache : DictCache}

-- The value parts under which an index lists an event.
def StoredEvent.values (event : StoredEvent codec dictCache) : IndexName → List Bytes
  | .Event__id => [event.id]
  | .Event__pubkey => [event.pubkey]
  | .Event__created_at => [[]]
  | .Event__kind => [toLe 8 event.kind]
  | .Event__pubkeyKind => [event.pubkey ++ toLe 8 event.kind]
  | .Event__tag => event.tags.filterMap tagKeyValue

def StoredEvent.decode (event : StoredEvent codec dictCache) : Except PayloadError DecodedEvent :=
  decodeEventPayloadWithCache codec event.payload dictCache

def StoredEvent.position (event : StoredEvent codec dictCache) : Position := (event.createdAt,event.levId)

def StoredEvent.entries (event : StoredEvent codec dictCache) (name : IndexName) : List Entry :=
  (event.values name).map fun value => (compositeKey value event.createdAt,event.levId)

theorem tagKeyValue_letter {tag : List Str} {value : Bytes} (keyed : tagKeyValue tag = some value) : 1 ≤ value.length := by
  unfold tagKeyValue at keyed
  split at keyed
  · obtain ⟨rest,_,rfl⟩ := Option.map_eq_some_iff.mp keyed
    simp
  · cases keyed

theorem StoredEvent.values_layout (event : StoredEvent codec dictCache) {name : IndexName} {value : Bytes}
    (listed : value ∈ event.values name) : name.ValueLayout value := by
  cases name with
  | Event__tag =>
    obtain ⟨tag,_,keyed⟩ := List.mem_filterMap.mp listed
    exact tagKeyValue_letter keyed
  | Event__id | Event__pubkey | Event__created_at | Event__kind | Event__pubkeyKind =>
    simp only [StoredEvent.values,List.mem_singleton] at listed
    subst listed
    simp [IndexName.ValueLayout,event.idWidth,event.pubkeyWidth]

structure Snapshot (codec : Codec) (dictCache : DictCache) where
  events : List (StoredEvent codec dictCache)
  unique : (events.map StoredEvent.levId).Nodup

def entryRank (name : IndexName) (entry : Entry) : ((Bytes ×ₗ Nat) ×ₗ Nat) ×ₗ Nat :=
  toLex (name.keyRank entry.1,entry.2)

-- A duplicate pair is stored once.
def Snapshot.listing (snapshot : Snapshot codec dictCache) (name : IndexName) : List Entry :=
  ((snapshot.events.flatMap (StoredEvent.entries · name)).dedup).insertionSort fun a b =>
    entryRank name a ≤ entryRank name b

theorem mem_listing {snapshot : Snapshot codec dictCache} {name : IndexName} {entry : Entry} :
    entry ∈ snapshot.listing name ↔ ∃ event ∈ snapshot.events, ∃ value ∈ event.values name,
      entry = (compositeKey value event.createdAt,event.levId) := by
  simp only [Snapshot.listing,List.mem_insertionSort,List.mem_dedup,List.mem_flatMap,StoredEvent.entries,
    List.mem_map,eq_comm]

theorem listing_layout {snapshot : Snapshot codec dictCache} {name : IndexName} {entry : Entry}
    (listed : entry ∈ snapshot.listing name) : name.Layout entry.1 ∧ createdAtFromKey entry.1 < u64Max := by
  obtain ⟨event,_,value,owned,rfl⟩ := mem_listing.mp listed
  refine ⟨composite_layout (event.values_layout owned),?_⟩
  rw [composite_createdAt value (event.dated.trans (by decide))]
  exact event.dated

theorem listing_sorted (snapshot : Snapshot codec dictCache) (name : IndexName) :
    (snapshot.listing name).Pairwise fun a b => name.cmp a.1 b.1 = .lt ∨ a.1 = b.1 ∧ a.2 < b.2 := by
  have ordered : (snapshot.listing name).Pairwise fun a b => entryRank name a ≤ entryRank name b :=
    List.pairwise_insertionSort _ _
  have distinct : (snapshot.listing name).Nodup :=
    (List.perm_insertionSort _ _).nodup_iff.mpr (List.nodup_dedup _)
  refine (ordered.and distinct).imp_of_mem ?_
  intro a b left right step
  obtain ⟨order,apart⟩ := step
  have layoutA := (listing_layout left).1
  have layoutB := (listing_layout right).1
  rw [cmp_lt layoutA layoutB]
  rcases (Prod.Lex.toLex_le_toLex.mp order) with less | ⟨same,dup⟩
  · exact .inl less
  · have keys := keyRank_injective layoutA layoutB same
    refine .inr ⟨keys,lt_of_le_of_ne dup ?_⟩
    intro equal
    exact apart (Prod.ext keys equal)

def Snapshot.index (snapshot : Snapshot codec dictCache) (name : IndexName) : Index name where
  entries := snapshot.listing name
  width := fun _ listed => (listing_layout listed).1
  sorted := listing_sorted snapshot name
  dated := fun _ listed => (listing_layout listed).2

def Snapshot.payload (snapshot : Snapshot codec dictCache) (levId : LevId) : Option Bytes :=
  (snapshot.events.find? fun event => event.levId == levId).map StoredEvent.payload

def Snapshot.env (snapshot : Snapshot codec dictCache) : Env := ⟨snapshot.index,snapshot.payload⟩

-- What a query reads while strfry inserts and deletes events: a snapshot and a clock for every
-- read. A levId names one event for good.
structure History (codec : Codec) (dictCache : DictCache) where
  snapshot : Nat → Snapshot codec dictCache
  now : Nat → Nat
  named : ∀ s t, ∀ a ∈ (snapshot s).events, ∀ b ∈ (snapshot t).events, a.levId = b.levId → a = b

def History.world (history : History codec dictCache) : World :=
  fun tick => ⟨(history.snapshot tick).env,history.now tick⟩

theorem mem_history_index {history : History codec dictCache} {tick : Nat} {name : IndexName} {entry : Entry} :
    entry ∈ ((history.world tick).env.index name).entries ↔
      ∃ event ∈ (history.snapshot tick).events, ∃ value ∈ event.values name,
        entry = (compositeKey value event.createdAt,event.levId) := mem_listing

theorem payload_exact {snapshot : Snapshot codec dictCache} {event : StoredEvent codec dictCache}
    (stored : event ∈ snapshot.events) : snapshot.payload event.levId = some event.payload := by
  unfold Snapshot.payload
  cases found : snapshot.events.find? fun other => other.levId == event.levId with
  | none =>
    have missing := List.find?_eq_none.mp found event stored
    simp at missing
  | some other =>
    have same : other.levId = event.levId := by simpa using List.find?_some found
    have equal : other = event :=
      List.inj_on_of_nodup_map snapshot.unique (List.mem_of_find?_eq_some found) stored same
    rw [equal]
    rfl

theorem payload_some {snapshot : Snapshot codec dictCache} {levId : LevId} {raw : Bytes}
    (found : snapshot.payload levId = some raw) :
    ∃ event ∈ snapshot.events, event.levId = levId ∧ event.payload = raw := by
  obtain ⟨event,here,same⟩ := Option.map_eq_some_iff.mp found
  exact ⟨event,List.mem_of_find?_eq_some here,by simpa using List.find?_some here,same⟩

-- Notes whose strings need no escape, as JSON, and a codec that reads a given list of them.
def joined : List Bytes → Bytes
  | [] => []
  | [part] => part
  | part :: rest => part ++ text "," ++ joined rest

def quoted (value : Str) : Bytes := text "\"" ++ value ++ text "\""

def noteJson (note : NostrEvent) : Bytes :=
  text "\x7b\"id\":" ++ quoted note.id ++ text ",\"pubkey\":" ++ quoted note.pubkey ++
    text ",\"created_at\":" ++ digits note.createdAt ++ text ",\"kind\":" ++ digits note.kind ++
    text ",\"tags\":[" ++ joined (note.tags.map fun tag => text "[" ++ joined (tag.map quoted) ++ text "]") ++
    text "],\"content\":" ++ quoted note.content ++ text ",\"sig\":" ++ quoted note.sig ++ text "\x7d"

def noteCodec (notes : List NostrEvent) : Codec :=
  ⟨fun json => notes.find? fun note => noteJson note == json,fun _ _ _ => none⟩

def noDicts : DictCache := ⟨fun _ => none⟩

def sampleNote (n createdAt : Nat) (tags : List (List Str)) : NostrEvent :=
  ⟨hexEncode (List.replicate 32 (UInt8.ofNat n)),hexEncode (List.replicate 32 7),createdAt,1,tags,[],
    hexEncode (List.replicate 64 9)⟩

def sampleEvent (notes : List NostrEvent) (n createdAt : Nat) (tags : List (List Str)) (dated : createdAt < u64Max)
    (read : (noteCodec notes).fromSlice (noteJson (sampleNote n createdAt tags)) = some (sampleNote n createdAt tags)) :
    StoredEvent (noteCodec notes) noDicts where
  levId := n
  id := List.replicate 32 (UInt8.ofNat n)
  pubkey := List.replicate 32 7
  createdAt := createdAt
  kind := 1
  tags := tags
  payload := PAYLOAD_TAG_RAW_JSON :: noteJson (sampleNote n createdAt tags)
  idWidth := by simp
  pubkeyWidth := by simp
  dated := dated
  kindFits := by decide
  faithful := by
    intro decoded same
    simp only [decodeEventPayloadWithCache,decodeJson,if_true,read,Except.ok.injEq] at same
    subst same
    exact ⟨rfl,rfl,rfl,rfl,rfl⟩

abbrev sampleNotes : List NostrEvent := [sampleNote 1 5 [],sampleNote 2 5 []]

theorem dated_five : 5 < u64Max := by decide
theorem dated_six : 6 < u64Max := by decide

def firstSample : StoredEvent (noteCodec sampleNotes) noDicts := sampleEvent sampleNotes 1 5 [] dated_five (by decide +kernel)
def secondSample : StoredEvent (noteCodec sampleNotes) noDicts := sampleEvent sampleNotes 2 5 [] dated_five (by decide +kernel)
def sampleSnapshot : Snapshot (noteCodec sampleNotes) noDicts := ⟨[firstSample,secondSample],by decide⟩
def prunedSnapshot : Snapshot (noteCodec sampleNotes) noDicts := ⟨[firstSample],by decide⟩

-- Two notes of one second, the second of which is deleted before a given read.
def pruned (deletion : Nat) : History (noteCodec sampleNotes) noDicts where
  snapshot := fun tick => if tick < deletion then sampleSnapshot else prunedSnapshot
  now := fun _ => 100
  named := by
    have whole : ∀ t, ∀ event ∈ (if t < deletion then sampleSnapshot else prunedSnapshot).events,
        event ∈ sampleSnapshot.events := by
      intro t event member
      split at member
      · exact member
      · exact List.mem_cons.mpr (.inl (List.mem_singleton.mp member))
    intro s t a first b second same
    exact List.inj_on_of_nodup_map sampleSnapshot.unique (whole s a first) (whole t b second) same

end DeepFry.Lmdb
