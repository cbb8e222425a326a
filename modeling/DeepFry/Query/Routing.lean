import DeepFry.Lib.Destutter
import DeepFry.Lmdb.Store
import DeepFry.Query.Refill

namespace DeepFry.Query
open Lmdb Bytes

-- The start keys are the selected values, each once, at one timestamp.
theorem buildStartKeys_values (filter : NostrFilter) (selected : SelectedIndex) :
    ∃ values : List Bytes, values.Nodup ∧ (∀ value, value ∈ values ↔ value ∈ startValues filter selected) ∧
      buildStartKeys filter selected .Reverse = values.map (compositeKey · (filter.untilTs.getD u64Max)) := by
  let ts := filter.untilTs.getD u64Max
  let keys := ((startValues filter selected).map (compositeKey · ts)).insertionSort (· ≤ ·)
  have member : ∀ key, key ∈ keys.destutter (· ≠ ·) ↔ ∃ value ∈ startValues filter selected, compositeKey value ts = key := by
    intro key
    rw [Destutter.mem_destutter,List.mem_insertionSort,List.mem_map]
  have restored : (keys.destutter (· ≠ ·)).map (fun key => compositeKey (valuePart key) ts) = keys.destutter (· ≠ ·) := by
    refine (List.map_congr_left ?_).trans (List.map_id _)
    intro key here
    obtain ⟨value,_,rfl⟩ := (member key).mp here
    rw [composite_value,id]
  refine ⟨(keys.destutter (· ≠ ·)).map valuePart,?_,?_,?_⟩
  · refine List.Nodup.of_map (compositeKey · ts) ?_
    rw [List.map_map]
    change ((keys.destutter (· ≠ ·)).map fun key => compositeKey (valuePart key) ts).Nodup
    rw [restored]
    exact Destutter.sorted_destutter (List.pairwise_insertionSort _ _)
  · intro value
    rw [List.mem_map]
    constructor
    · rintro ⟨key,here,rfl⟩
      obtain ⟨source,known,rfl⟩ := (member key).mp here
      rwa [composite_value]
    · intro known
      exact ⟨compositeKey value ts,(member _).mpr ⟨value,known,rfl⟩,composite_value value ts⟩
  · rw [List.map_map]
    exact restored.symm

theorem decodePubkeyWarn_width {hex : Str} {bytes : Bytes} (decoded : decodePubkeyWarn hex = some bytes) :
    bytes.length = 32 := by
  unfold decodePubkeyWarn at decoded
  split at decoded
  · split at decoded
    · rename_i width
      rwa [← Option.some.inj decoded]
    · cases decoded
  · cases decoded

theorem decodePubkeyWarn_hex {bytes : Bytes} (width : bytes.length = 32) :
    decodePubkeyWarn (hexEncode bytes) = some bytes := by
  simp [decodePubkeyWarn,decodeHex_hexEncode,width]

theorem startValues_layout {filter : NostrFilter} {value : Bytes}
    (given : value ∈ startValues filter (selectIndex filter)) :
    (selectIndex filter).shortName.ValueLayout value := by
  generalize selectIndex filter = selected at *
  unfold startValues at given
  split at given
  · obtain ⟨hex,_,decoded⟩ := List.mem_filterMap.mp given
    exact decodePubkeyWarn_width decoded
  · obtain ⟨hex,_,decoded⟩ := List.mem_filterMap.mp given
    exact decodePubkeyWarn_width decoded
  · obtain ⟨kind,_,rfl⟩ := List.mem_map.mp given
    simp [SelectedIndex.shortName,IndexName.ValueLayout]
  · obtain ⟨hex,_,paired⟩ := List.mem_flatMap.mp given
    split at paired
    · rename_i pk decoded
      obtain ⟨kind,_,rfl⟩ := List.mem_map.mp paired
      simp [SelectedIndex.shortName,IndexName.ValueLayout,decodePubkeyWarn_width decoded]
    · cases paired
  · obtain ⟨tag,_,keyed⟩ := List.mem_flatMap.mp given
    split at keyed
    · obtain ⟨text,_,rfl⟩ := List.mem_map.mp keyed
      simp [SelectedIndex.shortName,IndexName.ValueLayout]
    · cases keyed
  · simp only [List.mem_singleton] at given
    simp [given,SelectedIndex.shortName,IndexName.ValueLayout]
  · cases given

-- In a fixed-width index a key that starts with a value is a key of that value.
theorem fixed_clean {name : IndexName} (fixed : name.FixedWidth) (index : Index name) {value : Bytes}
    (width : name.ValueLayout value) : GuardClean index value := by
  intro entry stored less
  by_contra passed
  rw [Bool.not_eq_false,List.isPrefixOf_iff_prefix] at passed
  obtain ⟨tail,key⟩ := passed
  have layout := index_layout stored
  have eight : tail.length = 8 := by
    rw [← key] at layout
    cases name <;> simp only [IndexName.Layout,IndexName.ValueLayout,List.length_append] at layout width
    case Event__tag => exact absurd rfl fixed
    all_goals omega
  have own : valuePart entry.1 = value := by
    rw [← key,valuePart,← eight]
    exact stem_append value tail
  rw [own] at less
  exact lt_irrefl _ less

-- The events a filter asks for, as the source's NIP-01 reading has it: every present field must
-- hold, the values of a field are alternatives.
structure NostrFilter.Matches (filter : NostrFilter) (event : NostrEvent) : Prop where
  ids : ∀ ids, filter.ids = some ids → event.id ∈ ids
  authors : ∀ authors, filter.authors = some authors → event.pubkey ∈ authors
  kinds : ∀ kinds, filter.kinds = some kinds → event.kind ∈ kinds
  tags : ∀ tags, filter.tags = some tags → ∀ tagFilter ∈ tags,
    ∃ value ∈ tagFilter.values, ∃ rest, (tagFilter.name :: value :: rest) ∈ event.tags
  since : ∀ since, filter.since = some since → since ≤ event.createdAt
  untilTs : ∀ ts, filter.untilTs = some ts → event.createdAt ≤ ts

theorem tagMatches_exact {tagFilter : TagFilter} {tag : List Str} : tagMatches tagFilter tag = true ↔
    ∃ value ∈ tagFilter.values, ∃ rest, tag = tagFilter.name :: value :: rest := by
  unfold tagMatches
  split
  · rename_i name value rest
    simp only [Bool.and_eq_true,beq_iff_eq,List.contains_iff_mem,List.cons.injEq]
    constructor
    · rintro ⟨rfl,listed⟩
      exact ⟨value,listed,rest,rfl,rfl,rfl⟩
    · rintro ⟨other,listed,_,rfl,rfl,_⟩
      exact ⟨rfl,listed⟩
  · rename_i short
    simp only [Bool.false_eq_true,false_iff]
    rintro ⟨value,_,rest,rfl⟩
    exact short _ _ _ rfl

theorem matches_exact (filter : NostrFilter) (event : NostrEvent) : filter.Matches event ↔
    residual filter event = true ∧ filter.since.getD 0 ≤ event.createdAt ∧
      (∀ ts, filter.untilTs = some ts → event.createdAt ≤ ts) := by
  have alternatives : ∀ tags : List TagFilter, (tags.all fun tagFilter => event.tags.any (tagMatches tagFilter)) = true ↔
      ∀ tagFilter ∈ tags, ∃ value ∈ tagFilter.values, ∃ rest, (tagFilter.name :: value :: rest) ∈ event.tags := by
    intro tags
    simp only [List.all_eq_true,List.any_eq_true,tagMatches_exact]
    refine forall₂_congr fun tagFilter _ => ?_
    constructor
    · rintro ⟨_,present,value,listed,rest,rfl⟩
      exact ⟨value,listed,rest,present⟩
    · rintro ⟨value,listed,rest,present⟩
      exact ⟨_,present,value,listed,rest,rfl⟩
  have since : (∀ since, filter.since = some since → since ≤ event.createdAt) ↔
      filter.since.getD 0 ≤ event.createdAt := by cases filter.since <;> simp
  unfold residual
  simp only [Bool.and_eq_true,← since]
  constructor
  · intro fits
    refine ⟨⟨⟨⟨?_,?_⟩,?_⟩,?_⟩,fits.since,fits.untilTs⟩
    · cases kinds : filter.kinds with
      | none => rfl
      | some kinds' => simpa using fits.kinds kinds' kinds
    · cases authors : filter.authors with
      | none => rfl
      | some authors' => simpa using fits.authors authors' authors
    · cases ids : filter.ids with
      | none => rfl
      | some ids' => simpa using fits.ids ids' ids
    · cases tags : filter.tags with
      | none => rfl
      | some tags' => exact (alternatives tags').mpr (fits.tags tags' tags)
  · rintro ⟨⟨⟨⟨kinds,authors⟩,ids⟩,tagged⟩,early,late⟩
    refine ⟨?_,?_,?_,?_,early,late⟩
    · intro given same
      simpa [same] using ids
    · intro given same
      simpa [same] using authors
    · intro given same
      simpa [same] using kinds
    · intro given same
      rw [same] at tagged
      exact (alternatives given).mp tagged

variable {codec : Codec} {dictCache : DictCache}

-- Every event a fixed-width filter asks for is listed under one of the values it is routed to.
theorem fixed_routed {filter : NostrFilter} (fixed : (selectIndex filter).shortName.FixedWidth)
    {event : StoredEvent codec dictCache} {decoded : DecodedEvent} (decodes : event.decode = .ok decoded)
    (fits : filter.Matches decoded.event) : ∃ value ∈ startValues filter (selectIndex filter),
      value ∈ event.values (selectIndex filter).shortName := by
  obtain ⟨ids,authors,_,kinds,_⟩ := event.faithful decoded decodes
  have owner : ∀ given, filter.authors = some given → ∃ hex ∈ given, decodePubkeyWarn hex = some event.pubkey := by
    intro given same
    exact ⟨_,fits.authors given same,by rw [authors]; exact decodePubkeyWarn_hex event.pubkeyWidth⟩
  unfold selectIndex at fixed ⊢
  split
  · rename_i given
    obtain ⟨list,same⟩ := Option.isSome_iff_exists.mp given
    have listed := fits.ids list same
    rw [ids] at listed
    refine ⟨event.id,?_,by simp [StoredEvent.values,SelectedIndex.shortName]⟩
    simp only [startValues,same,Option.getD_some,List.mem_filterMap]
    exact ⟨_,listed,decodePubkeyWarn_hex event.idWidth⟩
  · split
    · rename_i given
      obtain ⟨first,second⟩ := Bool.and_eq_true_iff.mp given
      obtain ⟨list,same⟩ := Option.isSome_iff_exists.mp first
      obtain ⟨numbers,sameKinds⟩ := Option.isSome_iff_exists.mp second
      obtain ⟨hex,listed,decodesHex⟩ := owner list same
      have numbered := fits.kinds numbers sameKinds
      rw [kinds] at numbered
      refine ⟨event.pubkey ++ toLe 8 event.kind,?_,by simp [StoredEvent.values,SelectedIndex.shortName]⟩
      simp only [startValues,same,sameKinds,Option.getD_some,List.mem_flatMap]
      refine ⟨hex,listed,?_⟩
      rw [decodesHex]
      exact List.mem_map_of_mem numbered
    · split
      · rename_i given
        obtain ⟨list,same⟩ := Option.isSome_iff_exists.mp given
        obtain ⟨hex,listed,decodesHex⟩ := owner list same
        refine ⟨event.pubkey,?_,by simp [StoredEvent.values,SelectedIndex.shortName]⟩
        simp only [startValues,same,Option.getD_some,List.mem_filterMap]
        exact ⟨hex,listed,decodesHex⟩
      · split
        · rename_i given
          obtain ⟨numbers,same⟩ := Option.isSome_iff_exists.mp given
          have numbered := fits.kinds numbers same
          rw [kinds] at numbered
          refine ⟨toLe 8 event.kind,?_,by simp [StoredEvent.values,SelectedIndex.shortName]⟩
          simp only [startValues,same,Option.getD_some]
          exact List.mem_map_of_mem numbered
        · split
          · rename_i none_ids none_pair none_authors none_kinds tagged
            simp [none_ids,none_authors,none_kinds,tagged,SelectedIndex.shortName,IndexName.FixedWidth] at fixed
          · exact ⟨[],by simp [startValues],by simp [StoredEvent.values,SelectedIndex.shortName]⟩

end DeepFry.Query
