import DeepFry.Lmdb.Store
import DeepFry.Query.Engine

namespace DeepFry.Query
open Lmdb Bytes

section Hydration
variable {codec : Codec} {dictCache : DictCache} {history : History codec dictCache}

-- Every hydrated pair is the decoded payload of a stored event, and no levId whose event decodes
-- is lost: a levId without a payload would have failed the batch.
structure Hydrated (history : History codec dictCache) (tick : Nat) (levIds : List LevId)
    (pairs : List (LevId × DecodedEvent)) (after : Nat) : Prop where
  spent : after = tick + levIds.length
  stored : ∀ pair ∈ pairs, ∃ t, tick ≤ t ∧ ∃ event ∈ (history.snapshot t).events,
    event.levId = pair.1 ∧ event.decode = .ok pair.2
  kept : ∀ t, ∀ event ∈ (history.snapshot t).events, ∀ decoded, event.levId ∈ levIds →
    event.decode = .ok decoded → (event.levId,decoded) ∈ pairs

theorem Hydrated.later {tick after : Nat} {levIds : List LevId} {pairs : List (LevId × DecodedEvent)}
    (hydrated : Hydrated history tick levIds pairs after) : tick ≤ after := by
  rw [hydrated.spent]
  exact Nat.le_add_right _ _

theorem Hydrated.cons {tick after : Nat} {levId : LevId} {rest : List LevId}
    {pairs : List (LevId × DecodedEvent)} {event : StoredEvent codec dictCache}
    (here : event ∈ (history.snapshot tick).events) (same : event.levId = levId)
    (tail : Hydrated history (tick + 1) rest pairs after) :
    (∀ decoded, event.decode = .ok decoded → Hydrated history tick (levId :: rest) ((levId,decoded) :: pairs) after) ∧
      ((∀ decoded, event.decode ≠ .ok decoded) → Hydrated history tick (levId :: rest) pairs after) := by
  have spent : after = tick + (levId :: rest).length := by
    rw [tail.spent,List.length_cons]
    omega
  have prior : ∀ pair ∈ pairs, ∃ t, tick ≤ t ∧ ∃ event ∈ (history.snapshot t).events,
      event.levId = pair.1 ∧ event.decode = .ok pair.2 := by
    intro pair member
    obtain ⟨t,late,rest⟩ := tail.stored pair member
    exact ⟨t,by omega,rest⟩
  have head : ∀ t, ∀ other ∈ (history.snapshot t).events, other.levId = levId → other = event :=
    fun t other present named => history.named t tick other present event here (named.trans same.symm)
  constructor
  · intro decoded decodes
    refine ⟨spent,?_,?_⟩
    · intro pair member
      rcases List.mem_cons.mp member with rfl | later
      · exact ⟨tick,le_refl _,event,here,same,decodes⟩
      · exact prior pair later
    · intro t other present found listed ok
      rcases List.mem_cons.mp listed with named | later
      · have equal := head t other present named
        rw [equal,decodes] at ok
        cases ok
        rw [named]
        exact List.mem_cons_self
      · exact List.mem_cons_of_mem _ (tail.kept t other present found later ok)
  · intro undecodable
    refine ⟨spent,prior,?_⟩
    intro t other present found listed ok
    rcases List.mem_cons.mp listed with named | later
    · rw [head t other present named] at ok
      exact absurd ok (undecodable found)
    · exact tail.kept t other present found later ok

theorem hydrateLevIds_hydrated {tick after : Nat} {levIds : List LevId} {pairs : List (LevId × DecodedEvent)}
    (read : hydrateLevIds codec dictCache history.world tick levIds = .ok (pairs,after)) :
    Hydrated history tick levIds pairs after := by
  induction levIds generalizing tick pairs with
  | nil =>
    obtain ⟨rfl,rfl⟩ := Prod.mk.inj (Except.ok.inj read)
    exact ⟨rfl,by simp,by simp⟩
  | cons levId rest ih =>
    unfold hydrateLevIds at read
    cases found : (history.snapshot tick).payload levId with
    | none => simp [getEventPayload,History.world,Snapshot.env,found] at read
    | some raw =>
      simp only [getEventPayload,History.world,Snapshot.env,found] at read
      change (hydrateLevIds codec dictCache history.world (tick + 1) rest >>= _) = _ at read
      obtain ⟨event,here,named,payload⟩ := payload_some found
      cases tail : hydrateLevIds codec dictCache history.world (tick + 1) rest with
      | error error =>
        rw [tail] at read
        cases read
      | ok pair =>
        obtain ⟨others,finish⟩ := pair
        rw [tail] at read
        have decode : event.decode = decodeEventPayloadWithCache codec raw dictCache := by
          rw [StoredEvent.decode,payload]
        cases decodes : decodeEventPayloadWithCache codec raw dictCache with
        | error error =>
          rw [decodes] at read decode
          obtain ⟨rfl,rfl⟩ := Prod.mk.inj (Except.ok.inj read)
          exact (Hydrated.cons here named (ih tail)).2 fun _ => by simp [decode]
        | ok decoded =>
          rw [decodes] at read decode
          obtain ⟨rfl,rfl⟩ := Prod.mk.inj (Except.ok.inj read)
          exact (Hydrated.cons here named (ih tail)).1 decoded decode

theorem hydratedMap_some {pairs : List (LevId × DecodedEvent)} {levId : LevId} {decoded : DecodedEvent}
    (found : hydratedMap pairs levId = some decoded) : (levId,decoded) ∈ pairs := by
  have general : ∀ (map : HydratedMap), (pairs.foldl (fun (map : HydratedMap) pair => Function.update map pair.1 (some pair.2)) map) levId =
      some decoded → (levId,decoded) ∈ pairs ∨ map levId = some decoded := by
    clear found
    induction pairs with
    | nil => exact fun map same => .inr same
    | cons pair rest ih =>
      intro map same
      rcases ih _ same with later | here
      · exact .inl (List.mem_cons_of_mem _ later)
      · change Function.update map pair.1 (some pair.2) levId = some decoded at here
        by_cases own : levId = pair.1
        · subst own
          rw [Function.update_self] at here
          exact .inl (by rw [← Option.some.inj here]; exact List.mem_cons_self)
        · rw [Function.update_of_ne own] at here
          exact .inr here
  rcases general _ found with here | impossible
  · exact here
  · cases impossible

theorem hydratedMap_member {pairs : List (LevId × DecodedEvent)} {levId : LevId} {decoded : DecodedEvent}
    (member : (levId,decoded) ∈ pairs) : ∃ other, hydratedMap pairs levId = some other := by
  have general : ∀ (map : HydratedMap), ((levId,decoded) ∈ pairs ∨ ∃ other, map levId = some other) →
      ∃ other, (pairs.foldl (fun (map : HydratedMap) pair => Function.update map pair.1 (some pair.2)) map) levId = some other := by
    clear member
    induction pairs with
    | nil =>
      rintro map (impossible | known)
      · cases impossible
      · exact known
    | cons pair rest ih =>
      rintro map known
      refine ih _ ?_
      change _ ∨ ∃ other, Function.update map pair.1 (some pair.2) levId = some other
      by_cases own : levId = pair.1
      · exact .inr ⟨pair.2,by rw [own,Function.update_self]⟩
      · rw [Function.update_of_ne own]
        refine known.imp_left fun member => (List.mem_cons.mp member).resolve_left ?_
        rintro rfl
        exact own rfl
  exact general _ (.inl member)

-- All pairs of one levId hold the same decoded event, so the map is exact.
theorem Hydrated.map_exact {tick after : Nat} {levIds : List LevId} {pairs : List (LevId × DecodedEvent)}
    (hydrated : Hydrated history tick levIds pairs after) {levId : LevId} {decoded : DecodedEvent} :
    hydratedMap pairs levId = some decoded ↔ (levId,decoded) ∈ pairs := by
  refine ⟨hydratedMap_some,fun member => ?_⟩
  obtain ⟨other,found⟩ := hydratedMap_member member
  obtain ⟨s,_,a,storedA,namedA,decodesA⟩ := hydrated.stored _ member
  obtain ⟨t,_,b,storedB,namedB,decodesB⟩ := hydrated.stored _ (hydratedMap_some found)
  have same := history.named s t a storedA b storedB (namedA.trans namedB.symm)
  rw [same,decodesB] at decodesA
  rw [found]
  exact congrArg some (Except.ok.inj decodesA)

end Hydration

section Admission
variable {world : World} {filter : NostrFilter} {limit : Nat}

-- The survivors of one batch: listed positions in order, each levId once, none that is expired
-- or refused by the residual predicate, and nobody lost unless the page is full before him.
structure Admitted (world : World) (filter : NostrFilter) (limit : Nat) (order : Position → Position → Prop)
    (tick : Nat) (map : HydratedMap) (valid : List Survivor) (positions : List Position) (fresh : List Survivor)
    (after : Nat) : Prop where
  later : tick ≤ after
  listed : (fresh.map Prod.fst).Sublist positions
  distinct : fresh.Pairwise fun a b => a.1.2 ≠ b.1.2
  checked : ∀ survivor ∈ fresh, map survivor.1.2 = some survivor.2 ∧ residual filter survivor.2.event = true ∧
    ∃ t, tick ≤ t ∧ t < after ∧ isExpired (world t).now survivor.2.event = false
  bounded : valid.length ≤ limit → (valid ++ fresh).length ≤ limit
  complete : ∀ position ∈ positions, ∀ decoded, map position.2 = some decoded →
    residual filter decoded.event = true →
    (∀ t, tick ≤ t → t < after → isExpired (world t).now decoded.event = false) →
    (∃ survivor ∈ fresh, survivor.1.2 = position.2 ∧ survivor.2 = decoded) ∨
      limit ≤ (valid ++ fresh).length ∧ ∀ survivor ∈ fresh, order survivor.1 position

variable {order : Position → Position → Prop} {tick after : Nat} {map : HydratedMap} {valid fresh : List Survivor}
  {position : Position} {rest : List Position}

-- A position without a hydrated event changes nothing.
theorem Admitted.absent (missing : map position.2 = none)
    (tail : Admitted world filter limit order tick map valid rest fresh after) :
    Admitted world filter limit order tick map valid (position :: rest) fresh after := by
  refine ⟨tail.later,tail.listed.cons _,tail.distinct,tail.checked,tail.bounded,?_⟩
  intro other member decoded found passes unexpired
  rcases List.mem_cons.mp member with rfl | later
  · rw [missing] at found
    cases found
  · exact tail.complete other later decoded found passes unexpired

theorem checked_update {map : HydratedMap} {levId other : LevId} {decoded : DecodedEvent}
    (found : Function.update map levId none other = some decoded) : other ≠ levId ∧ map other = some decoded := by
  by_cases own : other = levId
  · rw [own,Function.update_self] at found
    cases found
  · rw [Function.update_of_ne own] at found
    exact ⟨own,found⟩

-- A refused event is gone for the rest of the batch.
theorem Admitted.refused {decoded : DecodedEvent} (found : map position.2 = some decoded)
    (refused : isExpired (world tick).now decoded.event = true ∨ residual filter decoded.event = false)
    (tail : Admitted world filter limit order (tick + 1) (Function.update map position.2 none) valid rest fresh after) :
    Admitted world filter limit order tick map valid (position :: rest) fresh after := by
  have forward := tail.later
  refine ⟨by omega,tail.listed.cons _,tail.distinct,?_,tail.bounded,?_⟩
  · intro survivor member
    obtain ⟨known,passes,t,late,early,unexpired⟩ := tail.checked survivor member
    exact ⟨(checked_update known).2,passes,t,by omega,early,unexpired⟩
  · intro other member event known passes unexpired
    have apart : other.2 ≠ position.2 := by
      intro same
      rw [same,found] at known
      cases known
      rcases refused with old | mismatch
      · rw [unexpired tick (le_refl _) (by omega)] at old
        cases old
      · rw [passes] at mismatch
        cases mismatch
    have later : other ∈ rest := (List.mem_cons.mp member).resolve_left fun same => apart (by rw [same])
    refine tail.complete other later event ?_ passes fun t late early => unexpired t (by omega) early
    rw [Function.update_of_ne apart]
    exact known

theorem Admitted.admit {decoded : DecodedEvent} (room : valid.length < limit) (found : map position.2 = some decoded)
    (unexpired : isExpired (world tick).now decoded.event = false) (passes : residual filter decoded.event = true)
    (ordered : (position :: rest).Pairwise order)
    (tail : Admitted world filter limit order (tick + 1) (Function.update map position.2 none)
      (valid ++ [(position,decoded)]) rest fresh after) :
    Admitted world filter limit order tick map valid (position :: rest) ((position,decoded) :: fresh) after := by
  have forward := tail.later
  have joined : valid ++ [(position,decoded)] ++ fresh = valid ++ (position,decoded) :: fresh := by simp
  refine ⟨by omega,tail.listed.cons_cons _,List.pairwise_cons.mpr ⟨?_,tail.distinct⟩,?_,?_,?_⟩
  · intro survivor member same
    exact (checked_update (tail.checked survivor member).1).1 same.symm
  · intro survivor member
    rcases List.mem_cons.mp member with rfl | later
    · exact ⟨found,passes,tick,le_refl _,by omega,unexpired⟩
    · obtain ⟨known,fits,t,late,early,alive⟩ := tail.checked survivor later
      exact ⟨(checked_update known).2,fits,t,by omega,early,alive⟩
  · intro _
    rw [← joined]
    exact tail.bounded (by simpa using room)
  · intro other member event known fits alive
    by_cases same : other.2 = position.2
    · rw [same,found] at known
      exact .inl ⟨_,List.mem_cons_self,same.symm,Option.some.inj known⟩
    · have later : other ∈ rest := (List.mem_cons.mp member).resolve_left fun equal => same (by rw [equal])
      have still : Function.update map position.2 none other.2 = some event := by
        rw [Function.update_of_ne same]
        exact known
      rcases tail.complete other later event still fits fun t late early => alive t (by omega) early with kept | ⟨full,before⟩
      · obtain ⟨survivor,member,rest⟩ := kept
        exact .inl ⟨survivor,List.mem_cons_of_mem _ member,rest⟩
      · rw [joined] at full
        refine .inr ⟨full,?_⟩
        intro survivor member
        rcases List.mem_cons.mp member with rfl | deeper
        · exact (List.pairwise_cons.mp ordered).1 other later
        · exact before survivor deeper

theorem admitBatch_admitted {positions : List Position} (ordered : positions.Pairwise order) (tick : Nat)
    (map : HydratedMap) (valid : List Survivor) : ∃ fresh after,
      admitBatch world filter limit tick map valid positions = (valid ++ fresh,after) ∧
        Admitted world filter limit order tick map valid positions fresh after := by
  induction positions generalizing tick map valid with
  | nil => exact ⟨[],tick,by simp [admitBatch],⟨le_refl _,.slnil,.nil,by simp,by simp,by simp⟩⟩
  | cons position rest ih =>
    have tailOrdered := (List.pairwise_cons.mp ordered).2
    unfold admitBatch
    by_cases full : limit ≤ valid.length
    · refine ⟨[],tick,by simp [full],⟨le_refl _,List.nil_sublist _,.nil,by simp,by simp,?_⟩⟩
      intro _ _ _ _ _ _
      exact .inr ⟨by simpa using full,by simp⟩
    · rw [if_neg full]
      cases found : map position.2 with
      | none =>
        obtain ⟨fresh,after,run,tail⟩ := ih tailOrdered tick map valid
        exact ⟨fresh,after,run,tail.absent found⟩
      | some decoded =>
        simp only
        cases expired : isExpired (world tick).now decoded.event with
        | true =>
          obtain ⟨fresh,after,run,tail⟩ := ih tailOrdered (tick + 1) (Function.update map position.2 none) valid
          exact ⟨fresh,after,by simpa using run,tail.refused found (.inl expired)⟩
        | false =>
          cases passes : residual filter decoded.event with
          | false =>
            obtain ⟨fresh,after,run,tail⟩ := ih tailOrdered (tick + 1) (Function.update map position.2 none) valid
            exact ⟨fresh,after,by simpa using run,tail.refused found (.inr passes)⟩
          | true =>
            obtain ⟨fresh,after,run,tail⟩ := ih tailOrdered (tick + 1) (Function.update map position.2 none)
              (valid ++ [(position,decoded)])
            exact ⟨_,after,by simpa using run, Admitted.admit (not_le.mp full) found expired passes ordered tail⟩

end Admission
section Batch
variable {codec : Codec} {dictCache : DictCache} {world : World} {filter : NostrFilter} {limit tick after : Nat}
  {valid final : List Survivor} {listed : List Position}

-- An empty batch is left alone; any other is hydrated and admitted.
theorem hydrateAndAdmit_cases (ran : hydrateAndAdmit codec dictCache world filter limit tick valid listed = .ok (final,after)) :
    listed = [] ∧ final = valid ∧ after = tick ∨ ∃ pairs middle,
      hydrateLevIds codec dictCache world tick (listed.map Prod.snd) = .ok (pairs,middle) ∧
      admitBatch world filter limit middle (hydratedMap pairs) valid listed = (final,after) := by
  unfold hydrateAndAdmit at ran
  split at ran
  · rename_i empty
    obtain ⟨rfl,rfl⟩ := Prod.mk.inj (Except.ok.inj ran)
    exact .inl ⟨List.isEmpty_iff.mp empty,rfl,rfl⟩
  · cases read : hydrateLevIds codec dictCache world tick (listed.map Prod.snd) with
    | error error =>
      rw [read] at ran
      cases ran
    | ok pair =>
      obtain ⟨pairs,middle⟩ := pair
      rw [read] at ran
      exact .inr ⟨pairs,middle,rfl,Except.ok.inj ran⟩
end Batch

end DeepFry.Query
