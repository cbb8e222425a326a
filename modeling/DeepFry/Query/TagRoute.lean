import DeepFry.Query.CursorBounds
import DeepFry.Query.Imitation

namespace DeepFry.Query
open Lmdb Bytes
variable {codec : Codec} {dictCache : DictCache} {filter : NostrFilter} {batchSize : Nat}

-- A filter over tags alone, read through no index: what is left is the full scan of the
-- created_at index.
def NostrFilter.untagged (filter : NostrFilter) : NostrFilter := {filter with tags := none}

theorem tag_route (tagged : selectIndex filter = .Multi .Event__tag) :
    filter.ids = none ∧ filter.authors = none ∧ filter.kinds = none ∧ filter.tags.isSome = true := by
  unfold selectIndex at tagged
  split at tagged
  · cases tagged
  · split at tagged
    · cases tagged
    · split at tagged
      · cases tagged
      · split at tagged
        · cases tagged
        · split at tagged
          · simp_all
          · cases tagged

theorem untagged_scan (tagged : selectIndex filter = .Multi .Event__tag) :
    filter.untagged.indexName = .Event__created_at := by
  obtain ⟨ids,authors,kinds,_⟩ := tag_route tagged
  simp [NostrFilter.untagged,NostrFilter.indexName,selectIndex,ids,authors,kinds,SelectedIndex.shortName]

-- Without other selectors the residual predicate on the scanned event is the tag predicate.
theorem untagged_matches (tagged : selectIndex filter = .Multi .Event__tag) (event : NostrEvent) :
    filter.Matches event ↔ filter.untagged.Matches event ∧ residual filter event = true := by
  obtain ⟨ids,authors,kinds,_⟩ := tag_route tagged
  have open_residual : residual filter.untagged event = true := by
    simp [residual,NostrFilter.untagged,ids,authors,kinds]
  rw [matches_exact,matches_exact,open_residual]
  change _ ∧ _ ∧ _ ↔ (_ ∧ _ ∧ _) ∧ _
  simp only [NostrFilter.untagged,true_and]
  exact and_comm

-- Some tag of the event is stored under a key that the router looks for.
def TagKeyed (filter : NostrFilter) (tags : List (List Str)) : Prop :=
  ∃ tagFilter ∈ filter.tags.getD [], ∃ letter, tagFilter.name = [letter] ∧ ∃ value ∈ tagFilter.values,
    ∃ tag ∈ tags, tagKeyValue tag = some (letter :: tagValueBytes value)

theorem routed_keyed (tagged : selectIndex filter = .Multi .Event__tag) (event : StoredEvent codec dictCache) :
    Routed filter event ↔ TagKeyed filter event.tags := by
  simp only [Routed,NostrFilter.values,NostrFilter.indexName,tagged,startValues,SelectedIndex.shortName,
    StoredEvent.values,List.mem_flatMap,List.mem_filterMap]
  constructor
  · rintro ⟨key,⟨tagFilter,given,keyed⟩,tag,present,stored⟩
    split at keyed
    · rename_i letter named
      obtain ⟨value,listed,rfl⟩ := List.mem_map.mp keyed
      exact ⟨tagFilter,given,letter,named,value,listed,tag,present,stored⟩
    · cases keyed
  · rintro ⟨tagFilter,given,letter,named,value,listed,tag,present,stored⟩
    refine ⟨_,⟨tagFilter,given,?_⟩,tag,present,stored⟩
    rw [named]
    exact List.mem_map_of_mem listed

-- The shape the router takes for a 32-byte id.
def IdShape (value : Str) : Prop := value.length = 64 ∧ value.all isLowerHex = true

theorem idShape_decodes {value : Str} (shape : IdShape value) :
    ∃ bytes, decodeHex value = some bytes ∧ tagValueBytes value = bytes ∧ bytes.length = 32 := by
  have valued : ∀ b ∈ value, (nibble b).isSome = true := by
    intro b member
    have lower := List.all_eq_true.mp shape.2 b member
    unfold isLowerHex at lower
    unfold nibble
    grind
  obtain ⟨bytes,decoded⟩ := decodeHex_total (by rw [shape.1]) valued
  have width := decodeHex_length decoded
  rw [shape.1] at width
  exact ⟨bytes,decoded,(if_pos shape).trans (by rw [decoded]; rfl),by omega⟩

-- The key bytes of a tag and the bytes the router looks for agree exactly if the value has the
-- shape of an id under the letters e and p and no such shape under every other letter.
theorem encoding_agrees (letter : UInt8) (value : Str) : storedTagValue letter value = some (tagValueBytes value) ↔
    ((letter = 101 ∨ letter = 112) ↔ IdShape value) := by
  unfold storedTagValue
  by_cases shape : IdShape value
  · obtain ⟨bytes,decoded,looked,width⟩ := idShape_decodes shape
    rw [looked]
    by_cases id_letter : letter = 101 ∨ letter = 112
    · simp [id_letter,shape,shape.1,decoded]
    · simp only [id_letter,if_false,shape,iff_true,iff_false,Option.some.injEq]
      intro same
      rw [← same,shape.1] at width
      omega
  · have raw : tagValueBytes value = value := if_neg shape
    rw [raw]
    by_cases id_letter : letter = 101 ∨ letter = 112
    · simp only [id_letter,if_true,shape,iff_false,not_true_eq_false]
      split
      · intro decoded
        have width := decodeHex_length decoded
        omega
      · simp
    · simp [id_letter,shape]

-- With one-letter names and values of the right shape, every event that meets the filter is keyed.
theorem shapes_keyed {tags : List TagFilter} (given : filter.tags = some tags) (some_tag : tags ≠ [])
    (fitting : ∀ tagFilter ∈ tags, ∃ letter, tagFilter.name = [letter] ∧ ∀ value ∈ tagFilter.values,
      ((letter = 101 ∨ letter = 112) ↔ IdShape value)) {event : NostrEvent} (fits : filter.Matches event) :
    TagKeyed filter event.tags := by
  obtain ⟨tagFilter,rest,rfl⟩ := List.exists_cons_of_ne_nil some_tag
  obtain ⟨letter,named,shapes⟩ := fitting tagFilter (by simp)
  obtain ⟨value,listed,rest,present⟩ := fits.tags _ given tagFilter (by simp)
  refine ⟨tagFilter,by simp [given],letter,named,value,listed,_,present,?_⟩
  rw [named,tagKeyValue,(encoding_agrees letter value).mpr (shapes value listed)]
  rfl

-- The walk through the tag index and the full scan, over all their pages: the first returns what
-- the residual keeps of the second.
def Agree (snapshot : Snapshot codec dictCache) (now : Nat) (filter : NostrFilter) (batchSize : Nat) : Prop :=
  ∃ tagMax tagPages scanMax scanPages,
    paginateAll codec dictCache (still snapshot now).world filter batchSize tagMax 0 none = .ok (some tagPages) ∧
    paginateAll codec dictCache (still snapshot now).world filter.untagged batchSize scanMax 0 none = .ok (some scanPages) ∧
    ∀ survivor, survivor ∈ survivors tagPages ↔ survivor ∈ survivors scanPages ∧ residual filter survivor.2.event = true

-- Every event of the store that meets the filter is stored under a key the router looks for.
def Keyed (snapshot : Snapshot codec dictCache) (now : Nat) (filter : NostrFilter) : Prop :=
  ∀ event ∈ snapshot.events, ∀ decoded, event.decode = .ok decoded → filter.Matches decoded.event →
    isExpired now decoded.event = false → TagKeyed filter event.tags

theorem separate_pages (snapshot : Snapshot codec dictCache) (now : Nat)
    (tagged : selectIndex filter = .Multi .Event__tag)
    (separate : ∀ value ∈ filter.values, Separate (snapshot.index filter.indexName) value)
    (small : filter.upper < 2^64) (positive : 0 < batchSize) :
    ∃ tagMax tagPages scanMax scanPages,
      paginateAll codec dictCache (still snapshot now).world filter batchSize tagMax 0 none = .ok (some tagPages) ∧
      paginateAll codec dictCache (still snapshot now).world filter.untagged batchSize scanMax 0 none =
        .ok (some scanPages) ∧
      ((∀ survivor, survivor ∈ survivors tagPages ↔
          survivor ∈ survivors scanPages ∧ residual filter survivor.2.event = true) ↔ Keyed snapshot now filter) := by
  obtain ⟨tagMax,tagPages,tagRan,_,tagMember⟩ := still_pages snapshot now separate small positive
  have fixed : filter.untagged.indexName.FixedWidth := by
    rw [untagged_scan tagged]
    decide
  obtain ⟨scanMax,scanPages,scanRan,_,scanMember⟩ := (@still_pages _ _ filter.untagged) snapshot now
    (fun _ known => .inl (fixed_clean fixed (snapshot.index filter.untagged.indexName) (startValues_layout known)))
    small positive
  refine ⟨tagMax,tagPages,scanMax,scanPages,tagRan,scanRan,?_⟩
  have kept : ∀ position decoded, ((position,decoded) ∈ survivors scanPages ∧ residual filter decoded.event = true) ↔
      ∃ event ∈ snapshot.events, event.position = position ∧ event.decode = .ok decoded ∧
        filter.Matches decoded.event ∧ isExpired now decoded.event = false := by
    intro position decoded
    rw [scanMember]
    constructor
    · rintro ⟨⟨event,stored,place,decodes,fits,unexpired,_⟩,passes⟩
      exact ⟨event,stored,place,decodes,(untagged_matches tagged _).mpr ⟨fits,passes⟩,unexpired⟩
    · rintro ⟨event,stored,place,decodes,fits,unexpired⟩
      obtain ⟨open_fits,passes⟩ := (untagged_matches tagged _).mp fits
      exact ⟨⟨event,stored,place,decodes,open_fits,unexpired,fixed_routed fixed decodes open_fits⟩,passes⟩
  constructor
  · intro agree event stored decoded decodes fits unexpired
    have returned := (agree (event.position,decoded)).mpr
      ((kept event.position decoded).mpr ⟨event,stored,rfl,decodes,fits,unexpired⟩)
    obtain ⟨other,present,place,_,_,_,routed⟩ := (tagMember _ _).mp returned
    have same : other = event :=
      List.inj_on_of_nodup_map snapshot.unique present stored (congrArg Prod.snd place)
    exact (routed_keyed tagged event).mp (by rwa [same] at routed)
  · rintro keyed ⟨position,decoded⟩
    rw [tagMember,kept]
    constructor
    · rintro ⟨event,stored,place,decodes,fits,unexpired,_⟩
      exact ⟨event,stored,place,decodes,fits,unexpired⟩
    · rintro ⟨event,stored,place,decodes,fits,unexpired⟩
      exact ⟨event,stored,place,decodes,fits,unexpired,
        (routed_keyed tagged event).mpr (keyed event stored decoded decodes fits unexpired)⟩

-- Where no stored key imitates a value, the routes agree exactly if every event that meets the
-- filter is stored under a key that the router looks for.
theorem separate_agree (snapshot : Snapshot codec dictCache) (now : Nat)
    (tagged : selectIndex filter = .Multi .Event__tag)
    (separate : ∀ value ∈ filter.values, Separate (snapshot.index filter.indexName) value)
    (small : filter.upper < 2^64) (positive : 0 < batchSize) :
    Agree snapshot now filter batchSize ↔ Keyed snapshot now filter := by
  obtain ⟨tagMax,tagPages,scanMax,scanPages,tagRan,scanRan,exact_⟩ := separate_pages snapshot now tagged separate small positive
  rw [← exact_]
  constructor
  · rintro ⟨_,others,_,scanned,otherRan,scannedRan,agree⟩
    rwa [paginateAll_unique otherRan tagRan,paginateAll_unique scannedRan scanRan] at agree
  · exact fun agree => ⟨tagMax,tagPages,scanMax,scanPages,tagRan,scanRan,agree⟩

-- A filter that carries tag selectors alone, with its range and its limit.
def tagsOnly (tags : List TagFilter) (since untilTs : Option Nat) (limit : Nat) : NostrFilter :=
  {tags := some tags,since,untilTs,limit}

-- No key of another value is shorter than the one looked for and goes on like it: an id under e and p
-- stands in 32 bytes, with eight bytes of time behind it.
def Inimitable (letter : UInt8) (value : Str) : Prop :=
  if letter = 101 ∨ letter = 112 then value.length ≤ 32 ∨ 40 < value.length else value = []

instance (letter : UInt8) (value : Str) : Decidable (Inimitable letter value) := by
  unfold Inimitable; split <;> infer_instance

-- Whatever value one of the selectors is met with, its tag is stored under a key that is looked for,
-- and no other key imitates a key that is looked for.
structure Aligned (tags : List TagFilter) : Prop where
  keyed : ∃ f ∈ tags, ∀ value ∈ f.values, TagKeyed (tagsOnly tags none none 0) [[f.name,value]]
  inimitable : ∀ f ∈ tags, ∀ letter, f.name = [letter] → ∀ value ∈ f.values, Inimitable letter value

-- Whatever is stored, and whatever the range, the limit and the windows.
def AlwaysAgree (tags : List TagFilter) : Prop :=
  ∀ (codec : Codec) (dictCache : DictCache) (snapshot : Snapshot codec dictCache) (now : Nat) (since untilTs : Option Nat)
    (limit batchSize : Nat), (∀ ts, untilTs = some ts → ts < 2^64) → 0 < batchSize →
      Agree snapshot now (tagsOnly tags since untilTs limit) batchSize

section Selectors
variable {tags : List TagFilter} {since untilTs : Option Nat} {limit : Nat} {letter : UInt8}

theorem tagsOnly_tagged : selectIndex (tagsOnly tags since untilTs limit) = .Multi .Event__tag := rfl

theorem mem_lookups {value : Bytes} : value ∈ (tagsOnly tags since untilTs limit).values ↔
    ∃ f ∈ tags, ∃ letter, f.name = [letter] ∧ ∃ text ∈ f.values, value = letter :: tagValueBytes text := by
  change value ∈ tags.flatMap _ ↔ _
  rw [List.mem_flatMap]
  constructor
  · rintro ⟨f,given,member⟩
    split at member
    · rename_i letter named
      obtain ⟨text,listed,rfl⟩ := List.mem_map.mp member
      exact ⟨f,given,letter,named,text,listed,rfl⟩
    · cases member
  · rintro ⟨f,given,letter,named,text,listed,rfl⟩
    refine ⟨f,given,?_⟩
    rw [named]
    exact List.mem_map_of_mem listed

theorem tagsOnly_upper (small : ∀ ts, untilTs = some ts → ts < 2^64) : (tagsOnly tags since untilTs limit).upper < 2^64 := by
  cases untilTs with
  | none => exact (by decide : u64Max < 2^64)
  | some ts => exact small ts rfl

-- A key that starts with a value no longer than its own is not lower than the value.
theorem short_clean {index : Index .Event__tag} {value : Bytes}
    (short : ∀ entry ∈ index.entries, value <+: entry.1 → value.length ≤ (valuePart entry.1).length) : GuardClean index value := by
  intro entry stored lower
  by_contra passed
  rw [Bool.not_eq_false,List.isPrefixOf_iff_prefix] at passed
  have part : value <+: valuePart entry.1 :=
    List.prefix_of_prefix_length_le passed (List.take_prefix _ _) (short entry stored passed)
  obtain ⟨tail,whole⟩ := part
  have less : valuePart entry.1 < value := by simpa [IndexName.valueRank,Prod.Lex.toLex_lt_toLex] using lower
  rw [← whole] at less
  exact absurd less List.le_append_left

theorem id_length {value bytes : Bytes} (id_letter : letter = 101 ∨ letter = 112) (stored : storedTagValue letter value = some bytes) :
    value.length = 64 ∧ bytes.length = 32 := by
  rw [storedTagValue,if_pos id_letter] at stored
  split at stored
  · rename_i width
    have half := decodeHex_length stored
    exact ⟨width,by omega⟩
  · cases stored

theorem tagValueBytes_length (value : Str) : IdShape value ∧ (tagValueBytes value).length = 32 ∨
    ¬IdShape value ∧ tagValueBytes value = value := by
  by_cases shape : IdShape value
  · obtain ⟨bytes,_,looked,width⟩ := idShape_decodes shape
    exact .inl ⟨shape,by rw [looked,width]⟩
  · exact .inr ⟨shape,if_neg shape⟩

-- Every entry of the tag index is a tag of some event, keyed by its letter.
theorem tag_entry {snapshot : Snapshot codec dictCache} {entry : Entry} (listed : entry ∈ (snapshot.index .Event__tag).entries) :
    ∃ event ∈ snapshot.events, ∃ letter value rest bytes, ([letter] :: value :: rest) ∈ event.tags ∧
      storedTagValue letter value = some bytes ∧ entry = (compositeKey (letter :: bytes) event.createdAt,event.levId) := by
  obtain ⟨event,stored,key,owned,rfl⟩ := mem_listing.mp listed
  obtain ⟨tag,present,keyed⟩ := List.mem_filterMap.mp owned
  unfold tagKeyValue at keyed
  split at keyed
  · rename_i letter value rest
    obtain ⟨bytes,stores,rfl⟩ := Option.map_eq_some_iff.mp keyed
    exact ⟨event,stored,letter,value,rest,bytes,present,stores,rfl⟩
  · cases keyed

-- Only the name and the first value of a tag make its key.
theorem tagKeyValue_head (name value : Str) (rest : List Str) : tagKeyValue (name :: value :: rest) = tagKeyValue [name,value] := by
  rcases name with _ | ⟨letter,_ | _⟩ <;> rfl

theorem inimitable_clean {value : Str} (alone : Inimitable letter value) (snapshot : Snapshot codec dictCache) :
    GuardClean (snapshot.index .Event__tag) (letter :: tagValueBytes value) := by
  refine short_clean fun entry stored passed => ?_
  obtain ⟨event,_,other,raw,rest,bytes,_,stores,rfl⟩ := tag_entry stored
  rw [composite_value]
  have head : other = letter := by
    obtain ⟨tail,whole⟩ := passed
    exact (List.cons.inj whole).1.symm
  subst head
  have fits := passed.length_le
  rw [composite_length] at fits
  simp only [List.length_cons] at fits ⊢
  unfold Inimitable at alone
  split at alone
  · rename_i id_letter
    have bytes_width := (id_length id_letter stores).2
    rcases tagValueBytes_length value with ⟨_,short⟩ | ⟨_,raw⟩
    · omega
    · rw [raw] at fits ⊢
      omega
  · rw [alone]
    simp [tagValueBytes]

theorem Aligned.separate (aligned : Aligned tags) (snapshot : Snapshot codec dictCache) :
    ∀ value ∈ (tagsOnly tags since untilTs limit).values, Separate (snapshot.index .Event__tag) value := by
  intro value known
  obtain ⟨f,given,letter,named,text,listed,rfl⟩ := mem_lookups.mp known
  exact .inl (inimitable_clean (aligned.inimitable f given letter named text listed) snapshot)

theorem Aligned.stored (aligned : Aligned tags) (snapshot : Snapshot codec dictCache) (now : Nat) :
    Keyed snapshot now (tagsOnly tags since untilTs limit) := by
  intro event stored decoded decodes fits _
  obtain ⟨f,given,keyed⟩ := aligned.keyed
  obtain ⟨value,listed,rest,present⟩ := fits.tags tags rfl f given
  obtain ⟨_,_,_,_,same⟩ := event.faithful _ decodes
  rw [same] at present
  obtain ⟨g,asked,letter,named,other,wanted,tag,only,stores⟩ := keyed value listed
  rw [List.mem_singleton.mp only] at stores
  exact ⟨g,asked,letter,named,other,wanted,_,present,(tagKeyValue_head f.name value rest).trans stores⟩

theorem Aligned.agrees (aligned : Aligned tags) : AlwaysAgree tags :=
  fun _ _ snapshot now _ _ _ _ small positive =>
    (separate_agree snapshot now tagsOnly_tagged (aligned.separate snapshot) (tagsOnly_upper small) positive).mpr
      (aligned.stored snapshot now)

end Selectors

section Single
variable {f : TagFilter} {letter b : UInt8} {front : Str}

-- A store of one note with the given tags.
def sole (createdAt : Nat) (tags : List (List Str)) (dated : createdAt < u64Max) :
    StoredEvent (noteCodec [sampleNote 1 createdAt tags]) noDicts :=
  sampleEvent [sampleNote 1 createdAt tags] 1 createdAt tags dated (by simp [noteCodec])

theorem sole_decodes {createdAt : Nat} {tags : List (List Str)} (dated : createdAt < u64Max) :
    (sole createdAt tags dated).decode = .ok ⟨sampleNote 1 createdAt tags,noteJson (sampleNote 1 createdAt tags)⟩ := by
  simp [StoredEvent.decode,sole,sampleEvent,decodeEventPayloadWithCache,decodeJson,noteCodec]

-- A value whose tag is stored under no key that is looked for is missed in a store of its own.
theorem AlwaysAgree.finds {value : Str} (always : AlwaysAgree [f]) (listed : value ∈ f.values)
    (separate : ∀ v ∈ (tagsOnly [f] none none 0).values, Separate ((alone (sole 5 [[f.name,value]] dated_five)).index .Event__tag) v) :
    TagKeyed (tagsOnly [f] none none 0) [[f.name,value]] := by
  have keyed := (separate_agree _ 0 tagsOnly_tagged separate (tagsOnly_upper nofun) (by decide)).mp
    (always _ _ (alone (sole 5 [[f.name,value]] dated_five)) 0 none none 0 DEFAULT_WINDOW_SIZE nofun (by decide))
  have fits : (tagsOnly [f] none none 0).Matches (sampleNote 1 5 [[f.name,value]]) := by
    refine ⟨nofun,nofun,nofun,?_,nofun,nofun⟩
    rintro tags ⟨⟩ g member
    rw [List.mem_singleton.mp member]
    exact ⟨value,listed,[],List.mem_singleton_self _⟩
  exact keyed _ (List.mem_singleton_self _) _ (sole_decodes dated_five) fits (unexpired_zero _)

-- The note has the tag that is asked for, and the same without its last byte. Its second goes on with
-- that byte, and lies past the range.
def cutTags (letter : UInt8) (front : Str) (b : UInt8) : List (List Str) := [[[letter],front ++ [b]],[[letter],front]]

theorem dated_cut (b : UInt8) : 256 + b.toNat < u64Max := by
  have byte := UInt8.toNat_lt b
  rw [u64Max]
  omega

def cutNote (letter : UInt8) (front : Str) (b : UInt8) :
    StoredEvent (noteCodec [sampleNote 1 (256 + b.toNat) (cutTags letter front b)]) noDicts :=
  sole (256 + b.toNat) (cutTags letter front b) (dated_cut b)

theorem cut_entry (apart : ¬(letter = 101 ∨ letter = 112)) {entry : Entry} :
    entry ∈ ((alone (cutNote letter front b)).index .Event__tag).entries ↔
      entry = (compositeKey (letter :: (front ++ [b])) (256 + b.toNat),1) ∨
      entry = (compositeKey (letter :: front) (256 + b.toNat),1) := by
  have keys : (cutNote letter front b).values .Event__tag = [letter :: (front ++ [b]),letter :: front] := by
    simp [StoredEvent.values,cutNote,sole,sampleEvent,cutTags,tagKeyValue,storedTagValue,apart]
  refine mem_listing.trans ?_
  simp only [alone,exists_eq_left,keys,List.mem_cons,List.not_mem_nil,or_false,exists_eq_or_imp]
  rfl

-- The shorter key goes on with the missing byte.
theorem cut_prefix (letter b : UInt8) (front : Str) :
    letter :: (front ++ [b]) <+: compositeKey (letter :: front) (256 + b.toNat) := by
  have low : (256 + b.toNat) % 256 = b.toNat := by
    rw [Nat.add_mod_left]
    exact Nat.mod_eq_of_lt (UInt8.toNat_lt b)
  have first : toLe 8 (256 + b.toNat) = b :: toLe 7 ((256 + b.toNat) / 256) := by
    rw [toLe]
    congr 1
    apply UInt8.toNat_inj.mp
    rw [low,UInt8.toNat_ofNat']
    exact Nat.mod_eq_of_lt (UInt8.toNat_lt b)
  rw [compositeKey,first]
  exact ⟨toLe 7 ((256 + b.toNat) / 256),by simp⟩

-- So it stands where the keys of the longer value are read.
theorem cut_imitates (apart : ¬(letter = 101 ∨ letter = 112)) :
    Imitates ((alone (cutNote letter front b)).index .Event__tag)
      (initStream (compositeKey (letter :: (front ++ [b])) (255 + b.toNat)))
      (compositeKey (letter :: front) (256 + b.toNat),1) := by
  have byte := UInt8.toNat_lt b
  have width : IndexName.Event__tag.ValueLayout (letter :: (front ++ [b])) := by simp [IndexName.ValueLayout]
  have small : 255 + b.toNat < 2^64 := by omega
  have stored := (cut_entry apart).mpr (.inr (Eq.refl (compositeKey (letter :: front) (256 + b.toNat),1)))
  have storable := ((alone (cutNote letter front b)).index .Event__tag).storable stored
  refine ⟨stored,(scope_first width small storable.1 storable.2).mpr (.inl ?_),?_⟩
  · rw [composite_value]
    have less : letter :: front < letter :: (front ++ [b]) := by
      have under : ¬(letter :: front) ++ [b] < letter :: front := List.le_append_left
      exact lt_of_le_of_ne (not_lt.mp under) (by simp)
    simpa [IndexName.valueRank,Prod.Lex.toLex_lt_toLex] using less
  · intro other known within _
    rcases (cut_entry apart).mp known with rfl | rfl
    · have late := (init_scope width small (((alone (cutNote letter front b)).index .Event__tag).storable known) (composite_value _ _)).mp within
      rw [composite_createdAt _ (by omega)] at late
      omega
    · have own : (initStream (compositeKey (letter :: (front ++ [b])) (255 + b.toNat))).keyPrefix = letter :: (front ++ [b]) := by
        simp [initStream]
      rw [StreamState.guard,own,List.isPrefixOf_iff_prefix]
      exact cut_prefix letter b front

-- An imitating entry is listed, so its event is handed out.
theorem imitated_returned {filter : NostrFilter} {event : StoredEvent codec dictCache} {decoded : DecodedEvent} {entry : Entry}
    {value : Bytes} (decodes : event.decode = .ok decoded) (fits : residual filter decoded.event = true)
    (unbounded : filter.since = none) (small : filter.upper < 2^64) (looked : value ∈ filter.values)
    (imitates : Imitates ((alone event).index filter.indexName) (initStream (compositeKey value filter.upper)) entry) :
    ∃ page, executeQuery codec dictCache (still (alone event) 0).world filter 0 none = .ok page ∧ decoded ∈ page.events := by
  obtain ⟨values,_,same,keys⟩ := roundStartKeys_values filter none
  have widths : ∀ value ∈ values, filter.indexName.ValueLayout value :=
    fun value known => startValues_layout ((same value).mp known)
  rcases merged : mergeWindowed filter.indexName DEFAULT_WINDOW_SIZE (filter.since.getD 0) none (still (alone event) 0).world 0
    (roundStartKeys filter none) (emitLimitOf (effectiveLimit filter)) with ⟨results,middle⟩
  have some_result : results ≠ [] := by
    have emitted := (@merge_promised filter.indexName DEFAULT_WINDOW_SIZE entry values (still (alone event) 0).world
      ((alone event).index filter.indexName) 0 filter.upper (emitLimitOf (effectiveLimit filter)) value) (fun _ => rfl)
      (by decide) widths small ((same value).mpr looked)
      fun _ _ _ refilled => window_promised (by decide) (init_placed (startValues_layout looked) small) rfl imitates refilled
    rw [unbounded,keys] at merged
    change mergeWindowed _ _ _ _ _ _ (values.map (compositeKey · filter.upper)) _ = _ at merged
    have room := emitLimit_positive (effectiveLimit filter)
    rw [Option.getD_none] at merged
    rw [merged] at emitted
    rintro rfl
    rcases emitted with here | full
    · cases here
    · rw [← full] at room
      exact lt_irrefl _ room
  obtain ⟨x,here⟩ := List.exists_mem_of_ne_nil _ some_result
  obtain ⟨_,_,_,other,stored,place⟩ := listed_stored ((mergeWindowed_from (by decide) merged).2 x here)
  rw [List.mem_singleton.mp stored] at place
  refine (@alone_returned _ _ filter none) decodes fits (List.ne_nil_of_mem looked) merged ?_ (by rintro bound ⟨⟩)
  rw [place]
  exact List.mem_map_of_mem here

-- The note is handed out past the end of the range, where the scan does not look.
theorem cut_refutes (apart : ¬(letter = 101 ∨ letter = 112)) (named : f.name = [letter]) (listed : front ++ [b] ∈ f.values)
    (raw : ¬IdShape (front ++ [b])) : ¬AlwaysAgree [f] := by
  intro always
  have byte := UInt8.toNat_lt b
  have small : 255 + b.toNat < 2^64 := by omega
  have ending : ∀ ts, some (255 + b.toNat) = some ts → ts < 2^64 := by
    rintro ts ⟨⟩
    exact small
  obtain ⟨tagMax,tagPages,scanMax,scanPages,tagRan,scanRan,agree⟩ :=
    always _ _ (alone (cutNote letter front b)) 0 none (some (255 + b.toNat)) 0 DEFAULT_WINDOW_SIZE ending (by decide)
  have looked : letter :: (front ++ [b]) ∈ (tagsOnly [f] none (some (255 + b.toNat)) 0).values := by
    refine mem_lookups.mpr ⟨f,List.mem_singleton_self f,letter,named,_,listed,?_⟩
    rw [show tagValueBytes (front ++ [b]) = front ++ [b] from if_neg raw]
  have fits : residual (tagsOnly [f] none (some (255 + b.toNat)) 0) (sampleNote 1 (256 + b.toNat) (cutTags letter front b)) = true := by
    simp [residual,tagsOnly,sampleNote,cutTags,tagMatches,named,listed]
  obtain ⟨page,read,member⟩ := imitated_returned (sole_decodes (dated_cut b)) fits rfl (tagsOnly_upper ending) looked (cut_imitates apart)
  obtain ⟨survivor,inside,same⟩ := List.mem_map.mp member
  have scanned := ((agree survivor).mp (List.mem_flatMap.mpr ⟨page,paginateAll_first tagRan read,inside⟩)).1
  have fixed : (tagsOnly [f] none (some (255 + b.toNat)) 0).untagged.indexName.FixedWidth := by
    rw [untagged_scan tagsOnly_tagged]
    decide
  obtain ⟨_,walked⟩ := paginateAll_walk (by decide) (history_clean _ fixed)
    (@tagsOnly_upper [f] none (some (255 + b.toNat)) 0 ending) (by rintro place ⟨⟩) scanRan
  have early := (walked.genuine survivor scanned).fits.untilTs _ rfl
  rw [same] at early
  change 256 + b.toNat ≤ 255 + b.toNat at early
  omega

-- Under e and p a value that is no id has no key at all, and among ids no key imitates another.
theorem AlwaysAgree.ids (always : AlwaysAgree [f]) (id_letter : letter = 101 ∨ letter = 112) (named : f.name = [letter]) :
    ∀ value ∈ f.values, value.length = 64 := by
  intro value listed
  by_contra odd
  have unstored : tagKeyValue [f.name,value] = none := by
    rw [named]
    simp [tagKeyValue,storedTagValue,id_letter,odd]
  obtain ⟨_,_,_,_,_,_,tag,only,stores⟩ := always.finds listed fun v _ => .inl fun entry stored => by
    obtain ⟨event,inside,key,owned,_⟩ := mem_listing.mp stored
    rw [List.mem_singleton.mp inside] at owned
    change key ∈ [[f.name,value]].filterMap tagKeyValue at owned
    simp [unstored] at owned
  rw [List.mem_singleton.mp only,unstored] at stores
  cases stores

-- Under every other letter the value goes on from no shorter one, so it is the empty one.
theorem AlwaysAgree.blank (always : AlwaysAgree [f]) (apart : ¬(letter = 101 ∨ letter = 112)) (named : f.name = [letter]) :
    ∀ value ∈ f.values, value ≠ [] → IdShape value := by
  intro value listed some_byte
  by_contra raw
  obtain ⟨front,b,rfl⟩ := List.eq_nil_or_concat value |>.resolve_left some_byte
  rw [List.concat_eq_append] at *
  exact cut_refutes apart named listed raw always

-- A value of the shape of an id is stored as its 64 bytes, and no such key is looked for.
theorem AlwaysAgree.unshaped (always : AlwaysAgree [f]) (apart : ¬(letter = 101 ∨ letter = 112)) (named : f.name = [letter]) :
    ∀ value ∈ f.values, value = [] := by
  have kinds : ∀ value ∈ f.values, (tagValueBytes value).length ≤ 32 := by
    intro value listed
    rcases tagValueBytes_length value with ⟨_,short⟩ | ⟨raw,same⟩
    · exact short.le
    · by_cases empty : value = []
      · rw [same,empty]
        exact Nat.zero_le _
      · exact absurd (always.blank apart named value listed empty) raw
  intro value listed
  by_contra some_byte
  have shape := always.blank apart named value listed some_byte
  have stored : tagKeyValue [f.name,value] = some (letter :: value) := by
    rw [named]
    simp [tagKeyValue,storedTagValue,apart]
  have found := always.finds listed fun v known => .inl (short_clean fun entry inside _ => by
    obtain ⟨g,only,other,same,text,asked,rfl⟩ := mem_lookups.mp known
    rw [List.mem_singleton.mp only] at asked
    obtain ⟨event,within,key,owned,rfl⟩ := mem_listing.mp inside
    rw [List.mem_singleton.mp within] at owned
    change key ∈ [[f.name,value]].filterMap tagKeyValue at owned
    simp only [List.filterMap_cons,stored,List.filterMap_nil,List.mem_singleton] at owned
    rw [composite_value,owned,List.length_cons,List.length_cons,shape.1]
    have := kinds text asked
    omega)
  obtain ⟨g,only,other,_,text,asked,tag,first,stores⟩ := found
  change g ∈ [f] at only
  rw [List.mem_singleton.mp only] at asked
  rw [List.mem_singleton.mp first,stored,Option.some.injEq,List.cons.injEq] at stores
  have short := kinds text asked
  rw [← stores.2,shape.1] at short
  omega

theorem AlwaysAgree.aligned (always : AlwaysAgree [f]) : Aligned [f] := by
  have inimitable : ∀ g ∈ [f], ∀ letter, g.name = [letter] → ∀ value ∈ g.values, Inimitable letter value := by
    intro g only letter named value listed
    rw [List.mem_singleton.mp only] at named listed
    unfold Inimitable
    split
    · rename_i id_letter
      have width := always.ids id_letter named value listed
      omega
    · rename_i apart
      exact always.unshaped apart named value listed
  refine ⟨⟨f,List.mem_singleton_self f,fun value listed => always.finds listed fun v known => .inl ?_⟩,inimitable⟩
  obtain ⟨g,given,letter,named,text,asked,rfl⟩ := mem_lookups.mp known
  exact inimitable_clean (inimitable g given letter named text asked) _

end Single

-- The resolver builds filters of one selector: those agree on every store, range and limit exactly if
-- they are aligned. Any number of aligned selectors agree; and where no stored key imitates one that is
-- looked for, whatever the selectors, the routes agree exactly if no matching event is stored elsewhere.
theorem tag_route_agreement (tags : List TagFilter) :
    (tags.length = 1 → (AlwaysAgree tags ↔ Aligned tags)) ∧
    (Aligned tags → AlwaysAgree tags) ∧
    ∀ (codec : Codec) (dictCache : DictCache) (snapshot : Snapshot codec dictCache) (now : Nat) (filter : NostrFilter)
      (batchSize : Nat), selectIndex filter = .Multi .Event__tag →
      (∀ value ∈ filter.values, Separate (snapshot.index filter.indexName) value) → filter.upper < 2^64 → 0 < batchSize →
      (Agree snapshot now filter batchSize ↔ Keyed snapshot now filter) := by
  refine ⟨?_,Aligned.agrees,?_⟩
  · intro single
    obtain ⟨f,rfl⟩ := List.length_eq_one_iff.mp single
    exact ⟨AlwaysAgree.aligned,Aligned.agrees⟩
  · intro _ _ snapshot now _ _ tagged separate small positive
    exact separate_agree snapshot now tagged separate small positive

def idText : Str := hexEncode (List.replicate 32 0xab)

-- A reply to a note, with an empty topic.
theorem tag_route_agreement_reply : AlwaysAgree [⟨text "e",[idText]⟩,⟨text "t",[[]]⟩] := by
  refine (tag_route_agreement _).2.1 ⟨⟨_,List.mem_cons_self,?_⟩,?_⟩
  · intro value listed
    rw [List.mem_singleton.mp listed]
    exact ⟨_,List.mem_cons_self,101,rfl,idText,List.mem_singleton_self _,_,List.mem_singleton_self _,by decide +kernel⟩
  · intro f given letter named value listed
    simp only [List.mem_cons,List.not_mem_nil,or_false] at given
    rcases given with rfl | rfl
    · rw [List.mem_singleton.mp listed]
      cases named
      decide +kernel
    · rw [List.mem_singleton.mp listed]
      cases named
      decide +kernel

-- A topic tag whose value has the shape of an id is stored as text and looked for as 32 bytes.
abbrev topicNotes : List NostrEvent := [sampleNote 1 5 [[text "t",idText]]]
def topicSample : StoredEvent (noteCodec topicNotes) noDicts :=
  sampleEvent topicNotes 1 5 [[text "t",idText]] dated_five (by decide +kernel)
def topicSnapshot : Snapshot (noteCodec topicNotes) noDicts := ⟨[topicSample],by decide⟩
def topicFilter : NostrFilter := {tags := some [⟨text "t",[idText]⟩]}

def walkSurvivors (walk : Except QueryError (Option (List QueryPage))) : Option (List Survivor) :=
  match walk with
  | .ok (some pages) => some (survivors pages)
  | _ => none

theorem walkSurvivors_exact {walk : Except QueryError (Option (List QueryPage))} {listed : List Survivor}
    (same : walkSurvivors walk = some listed) : ∃ pages, walk = .ok (some pages) ∧ survivors pages = listed := by
  unfold walkSurvivors at same
  split at same
  · exact ⟨_,rfl,Option.some.inj same⟩
  · cases same

-- The full scan keeps the note, the tag route does not return it.
theorem tag_route_fails : ∃ tagPages scanPages,
    paginateAll (noteCodec topicNotes) noDicts (still topicSnapshot 100).world topicFilter DEFAULT_WINDOW_SIZE 2 0 none =
      .ok (some tagPages) ∧
    paginateAll (noteCodec topicNotes) noDicts (still topicSnapshot 100).world topicFilter.untagged DEFAULT_WINDOW_SIZE 2
      0 none = .ok (some scanPages) ∧
    survivors tagPages = [] ∧ ∃ survivor ∈ survivors scanPages, residual topicFilter survivor.2.event = true := by
  let note := sampleNote 1 5 [[text "t",idText]]
  obtain ⟨tagPages,tagRan,nothing⟩ := (@walkSurvivors_exact (paginateAll (noteCodec topicNotes) noDicts (still topicSnapshot 100).world topicFilter DEFAULT_WINDOW_SIZE 2 0 none) [])
    (by decide +kernel)
  obtain ⟨scanPages,scanRan,one⟩ := (@walkSurvivors_exact (paginateAll (noteCodec topicNotes) noDicts (still topicSnapshot 100).world topicFilter.untagged DEFAULT_WINDOW_SIZE 2 0 none) [((5,1),⟨note,noteJson note⟩)])
    (by decide +kernel)
  refine ⟨tagPages,scanPages,tagRan,scanRan,nothing,((5,1),⟨note,noteJson note⟩),?_,by decide +kernel⟩
  rw [one]
  exact List.mem_singleton.mpr rfl

end DeepFry.Query
