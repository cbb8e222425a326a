import DeepFry.Spamhunter.Pipeline

namespace DeepFry.Spamhunter

-- The adapter: what it answers to a request for some authors, the requests counted from the start.
abbrev Adapter := Nat → List Str → Except ClientError (List AuthorGroup)

-- The retry loop with some attempts left after this one; with the answer comes the count of requests.
def latestPerAuthor (adapter : Adapter) (batch : List Str) : Nat → Nat → Except ClientError (List AuthorGroup) × Nat
  | 0,asked => (adapter asked batch,asked + 1)
  | left+1,asked =>
    match adapter asked batch with
    | .ok groups => (.ok groups,asked + 1)
    | .error e => if isRetryable e then latestPerAuthor adapter batch left (asked + 1) else (.error e,asked + 1)

def fetchBatch (adapter : Adapter) (batch : List Str) (asked : Nat) : Except ClientError (List AuthorGroup) × Nat :=
  match latestPerAuthor adapter batch (MAX_ATTEMPTS - 1) asked with
  | (.ok groups,asked) => (.ok groups,asked)
  | (.error e,asked) =>
    if e = .PayloadTooLarge ∧ 1 < batch.length then
      let mid := batch.length / 2
      match fetchBatch adapter (batch.take mid) asked with
      | (.error e,asked) => (.error e,asked)
      | (.ok left,asked) =>
        match fetchBatch adapter (batch.drop mid) asked with
        | (.error e,asked) => (.error e,asked)
        | (.ok right,asked) => (.ok (left ++ right),asked)
    else (.error e,asked)
termination_by batch.length
decreasing_by
  · rw [List.length_take]
    omega
  · rw [List.length_drop]
    omega

-- One pass of the loop is one reply to retry.
theorem latestPerAuthor_retry (adapter : Adapter) (batch : List Str) (left asked : Nat) (room : left < MAX_ATTEMPTS) :
    latestPerAuthor adapter batch left asked =
      match retry (MAX_ATTEMPTS - left) (adapter asked batch) with
      | .returns groups => (.ok groups,asked + 1)
      | .again _ => latestPerAuthor adapter batch (left - 1) (asked + 1)
      | .fails e => (.error e,asked + 1) := by
  cases left with
  | zero =>
    rw [latestPerAuthor]
    cases answer : adapter asked batch with
    | ok groups => rfl
    | error e => simp [retry]
  | succ left =>
    rw [latestPerAuthor]
    cases answer : adapter asked batch with
    | ok groups => rfl
    | error e =>
      have more : MAX_ATTEMPTS - (left + 1) < MAX_ATTEMPTS := by
        unfold MAX_ATTEMPTS at *
        omega
      by_cases again : isRetryable e = true <;> simp [retry,again,more]

-- What fetch_batch does: it has the reply to its own request, or an error it cannot split, or the two halves one after the other.
inductive Fetches (adapter : Adapter) : List Str → Nat → Except ClientError (List AuthorGroup) → Nat → Prop
  | answered {batch asked groups after} (reply : latestPerAuthor adapter batch (MAX_ATTEMPTS - 1) asked = (.ok groups,after)) :
      Fetches adapter batch asked (.ok groups) after
  | refused {batch asked e after} (reply : latestPerAuthor adapter batch (MAX_ATTEMPTS - 1) asked = (.error e,after))
      (whole : ¬(e = .PayloadTooLarge ∧ 1 < batch.length)) : Fetches adapter batch asked (.error e) after
  | first {batch asked between e after} (reply : latestPerAuthor adapter batch (MAX_ATTEMPTS - 1) asked = (.error .PayloadTooLarge,between))
      (long : 1 < batch.length) (left : Fetches adapter (batch.take (batch.length / 2)) between (.error e) after) :
      Fetches adapter batch asked (.error e) after
  | second {batch asked between middle groups e after}
      (reply : latestPerAuthor adapter batch (MAX_ATTEMPTS - 1) asked = (.error .PayloadTooLarge,between)) (long : 1 < batch.length)
      (left : Fetches adapter (batch.take (batch.length / 2)) between (.ok groups) middle)
      (right : Fetches adapter (batch.drop (batch.length / 2)) middle (.error e) after) : Fetches adapter batch asked (.error e) after
  | halves {batch asked between middle front back after}
      (reply : latestPerAuthor adapter batch (MAX_ATTEMPTS - 1) asked = (.error .PayloadTooLarge,between)) (long : 1 < batch.length)
      (left : Fetches adapter (batch.take (batch.length / 2)) between (.ok front) middle)
      (right : Fetches adapter (batch.drop (batch.length / 2)) middle (.ok back) after) :
      Fetches adapter batch asked (.ok (front ++ back)) after

section Outcome
variable {adapter : Adapter} {batch : List Str} {left asked after : Nat} {e : ClientError} {groups : List AuthorGroup}

theorem latestPerAuthor_ok (answered : latestPerAuthor adapter batch left asked = (.ok groups,after)) :
    ∃ at_, adapter at_ batch = .ok groups := by
  induction left generalizing asked with
  | zero => exact ⟨asked,congrArg Prod.fst answered⟩
  | succ left ih =>
    rw [latestPerAuthor] at answered
    cases reply : adapter asked batch with
    | ok found =>
      rw [reply] at answered
      obtain ⟨same,_⟩ := Prod.mk.inj answered
      exact ⟨asked,reply.trans same⟩
    | error e =>
      rw [reply] at answered
      dsimp only at answered
      split at answered
      · exact ih answered
      · cases answered

theorem latestPerAuthor_error (answered : latestPerAuthor adapter batch left asked = (.error e,after)) :
    ∃ at_, adapter at_ batch = .error e := by
  induction left generalizing asked with
  | zero => exact ⟨asked,congrArg Prod.fst answered⟩
  | succ left ih =>
    rw [latestPerAuthor] at answered
    cases reply : adapter asked batch with
    | ok found =>
      rw [reply] at answered
      cases answered
    | error e =>
      rw [reply] at answered
      dsimp only at answered
      split at answered
      · exact ih answered
      · obtain ⟨same,_⟩ := Prod.mk.inj answered
        exact ⟨asked,reply.trans same⟩

theorem latestPerAuthor_asked (adapter : Adapter) (batch : List Str) (left asked : Nat) :
    (latestPerAuthor adapter batch left asked).2 ≤ asked + left + 1 := by
  induction left generalizing asked with
  | zero => exact le_refl _
  | succ left ih =>
    rw [latestPerAuthor]
    split
    · dsimp only
      omega
    · split
      · have later := ih (asked + 1)
        omega
      · dsimp only
        omega

theorem fetchBatch_fetches (adapter : Adapter) (batch : List Str) (asked : Nat) :
    Fetches adapter batch asked (fetchBatch adapter batch asked).1 (fetchBatch adapter batch asked).2 := by
  induction size : batch.length using Nat.strongRecOn generalizing batch asked with
  | ind size smaller =>
    rw [fetchBatch]
    split
    · rename_i groups after reply
      exact .answered reply
    · rename_i e between reply
      split
      · rename_i split_
        obtain ⟨large,long⟩ := split_
        rw [large] at reply
        have left := smaller (batch.take (batch.length / 2)).length (by rw [List.length_take]; omega) (batch.take (batch.length / 2)) between rfl
        dsimp only
        split
        · rename_i e after failed
          rw [failed] at left
          exact .first reply long left
        · rename_i front middle fetched
          rw [fetched] at left
          have right := smaller (batch.drop (batch.length / 2)).length (by rw [List.length_drop]; omega) (batch.drop (batch.length / 2)) middle rfl
          split
          · rename_i e after failed
            rw [failed] at right
            exact .second reply long left right
          · rename_i back after done
            rw [done] at right
            exact .halves reply long left right
      · rename_i whole
        exact .refused reply whole

-- One request, with its retries, for each part of the splitting.
theorem Fetches.bounded {result : Except ClientError (List AuthorGroup)} (fetches : Fetches adapter batch asked result after) :
    after ≤ asked + MAX_ATTEMPTS * max 1 (2 * batch.length - 1) := by
  have once (batch : List Str) (asked : Nat) : (latestPerAuthor adapter batch (MAX_ATTEMPTS - 1) asked).2 ≤ asked + MAX_ATTEMPTS :=
    latestPerAuthor_asked adapter batch _ asked
  induction fetches with
  | @answered batch asked groups after reply | @refused batch asked e after reply whole =>
    have request := once batch asked
    rw [reply] at request
    have least : MAX_ATTEMPTS * 1 ≤ MAX_ATTEMPTS * max 1 (2 * batch.length - 1) := Nat.mul_le_mul_left _ (le_max_left _ _)
    dsimp only at request
    omega
  | @first batch asked between e after reply long left ih =>
    have request := once batch asked
    rw [reply] at request
    rw [List.length_take] at ih
    unfold MAX_ATTEMPTS at *
    dsimp only at request
    omega
  | @second batch asked between middle groups e after reply long left right ihL ihR | @halves batch asked between middle front back after reply long left right ihL ihR =>
    have request := once batch asked
    rw [reply] at request
    rw [List.length_take] at ihL
    rw [List.length_drop] at ihR
    unfold MAX_ATTEMPTS at *
    dsimp only at request
    omega

-- The groups hold the events of their authors, and leave out none of the batch but those that have none.
def Holds (events : Str → List Event) (batch : List Str) (groups : List AuthorGroup) : Prop :=
  (∀ g ∈ groups, g.events = events g.author) ∧ ∀ pk ∈ batch, events pk ≠ [] → ∃ g ∈ groups, g.author = pk

def Serves (events : Str → List Event) (adapter : Adapter) : Prop :=
  ∀ asked batch groups, adapter asked batch = .ok groups → Holds events batch groups

theorem Fetches.holds {events : Str → List Event} (serves : Serves events adapter) {result : Except ClientError (List AuthorGroup)}
    (fetches : Fetches adapter batch asked result after) : ∀ groups, result = .ok groups → Holds events batch groups := by
  induction fetches with
  | @answered batch asked groups after reply =>
    intro other same
    cases same
    obtain ⟨at_,answer⟩ := latestPerAuthor_ok reply
    exact serves at_ batch groups answer
  | refused _ _ | first _ _ _ | second _ _ _ _ =>
    intro groups same
    cases same
  | @halves batch asked between middle front back after _ _ _ _ ihL ihR =>
    intro groups same
    cases same
    obtain ⟨ownL,allL⟩ := ihL front rfl
    obtain ⟨ownR,allR⟩ := ihR back rfl
    refine ⟨?_,?_⟩
    · intro g member
      cases List.mem_append.mp member with
      | inl left => exact ownL g left
      | inr right => exact ownR g right
    · intro pk member more
      rw [← List.take_append_drop (batch.length / 2) batch,List.mem_append] at member
      cases member with
      | inl left =>
        obtain ⟨g,found,same⟩ := allL pk left more
        exact ⟨g,List.mem_append_left _ found,same⟩
      | inr right =>
        obtain ⟨g,found,same⟩ := allR pk right more
        exact ⟨g,List.mem_append_right _ found,same⟩

-- An error is a reply to some part of the list, and a part that is too large is a single author.
theorem Fetches.fails {result : Except ClientError (List AuthorGroup)} (fetches : Fetches adapter batch asked result after) :
    ∀ e, result = .error e → ∃ at_ part, part.Sublist batch ∧ (batch ≠ [] → part ≠ []) ∧ adapter at_ part = .error e ∧
      (e = .PayloadTooLarge → part.length ≤ 1) := by
  induction fetches with
  | answered _ | halves _ _ _ _ =>
    intro e same
    cases same
  | @refused batch asked e after reply whole =>
    intro other same
    cases same
    obtain ⟨at_,answer⟩ := latestPerAuthor_error reply
    refine ⟨at_,batch,List.Sublist.refl batch,id,answer,?_⟩
    intro large
    by_contra long
    exact whole ⟨large,by omega⟩
  | @first batch asked between e after _ long _ ih =>
    intro other same
    obtain ⟨at_,part,inside,more,answer,single⟩ := ih other same
    refine ⟨at_,part,inside.trans (List.take_sublist _ _),fun _ => more ?_,answer,single⟩
    rw [← List.length_pos_iff,List.length_take]
    omega
  | @second batch asked between middle groups e after _ long _ _ _ ih =>
    intro other same
    obtain ⟨at_,part,inside,more,answer,single⟩ := ih other same
    refine ⟨at_,part,inside.trans (List.drop_sublist _ _),fun _ => more ?_,answer,single⟩
    rw [← List.length_pos_iff,List.length_drop]
    omega

end Outcome

section Match
variable {events : Str → List Event} {groups : List AuthorGroup}

-- The map holds the events of the authors it has, and reads empty for the others.
def Reads (events : Str → List Event) (map : Table Str (List Event)) : Prop := ∀ pk found, map.lookup pk = some found → found = events pk

theorem reads_insert {map : Table Str (List Event)} (reads : Reads events map) (author : Str) : Reads events (map.insert author (events author)) := by
  intro pk found there
  by_cases same : pk = author
  · rw [same,AList.lookup_insert] at there
    rw [same]
    exact (Option.some.inj there).symm
  · rw [AList.lookup_insert_ne same] at there
    exact reads pk found there

theorem byAuthor_reads (own : ∀ g ∈ groups, g.events = events g.author) :
    Reads events (byAuthor groups) ∧ ∀ g ∈ groups, g.author ∈ byAuthor groups := by
  have folded (rest : List AuthorGroup) (map : Table Str (List Event)) (own : ∀ g ∈ rest, g.events = events g.author) (reads : Reads events map) :
      Reads events (rest.foldl (fun map g => map.insert g.author g.events) map) ∧
        ∀ pk, pk ∈ map ∨ (∃ g ∈ rest, g.author = pk) → pk ∈ rest.foldl (fun map g => map.insert g.author g.events) map := by
    induction rest generalizing map with
    | nil =>
      refine ⟨reads,?_⟩
      intro pk either
      exact either.resolve_right (by simp)
    | cons g rest ih =>
      have more : Reads events (map.insert g.author g.events) := by
        rw [own g List.mem_cons_self]
        exact reads_insert reads g.author
      obtain ⟨kept,members⟩ := ih (map.insert g.author g.events) (fun other member => own other (List.mem_cons_of_mem _ member)) more
      refine ⟨kept,?_⟩
      intro pk either
      apply members
      obtain old | ⟨found,listed,same⟩ := either
      · exact .inl ((AList.mem_insert _).mpr (.inr old))
      · cases List.mem_cons.mp listed with
        | inl first =>
          rw [first] at same
          exact .inl ((AList.mem_insert _).mpr (.inl same.symm))
        | inr later => exact .inr ⟨found,later,same⟩
  have empty : Reads events (∅ : Table Str (List Event)) := by
    intro pk found there
    cases there
  obtain ⟨reads,members⟩ := folded groups ∅ own empty
  exact ⟨reads,fun g listed => members g.author (.inr ⟨g,listed,rfl⟩)⟩

-- Where the requested pubkeys are distinct, what was taken out for one is not asked for by another.
theorem matchGroups_own {requested : List Str} (distinct : requested.Nodup) {map : Table Str (List Event)}
    (own : ∀ pk ∈ requested, (map.lookup pk).getD [] = events pk) : matchGroups requested map = requested.map fun pk => (pk,events pk) := by
  induction requested generalizing map with
  | nil => rfl
  | cons pk rest ih =>
    rw [List.nodup_cons] at distinct
    rw [matchGroups,List.map_cons,own pk List.mem_cons_self]
    congr 1
    apply ih distinct.2
    intro other member
    have apart : other ≠ pk := by
      intro same
      rw [same] at member
      exact distinct.1 member
    rw [AList.lookup_erase_ne apart]
    exact own other (List.mem_cons_of_mem _ member)

theorem matchGroups_holds {batch : List Str} (distinct : batch.Nodup) (holds : Holds events batch groups) :
    matchGroups batch (byAuthor groups) = batch.map fun pk => (pk,events pk) := by
  obtain ⟨reads,members⟩ := byAuthor_reads holds.1
  apply matchGroups_own distinct
  intro pk member
  cases found : (byAuthor groups).lookup pk with
  | some stored => exact reads pk stored found
  | none =>
    by_contra more
    obtain ⟨g,listed,same⟩ := holds.2 pk member fun empty => more empty.symm
    have there := members g listed
    rw [same] at there
    exact AList.lookup_eq_none.mp found there

end Match

-- A list that is fetched comes back in its order, each author with its own events; a list that is not has an author that alone is too
-- large, or met another error; the requests are bounded.
theorem fetchBatch_exact {events : Str → List Event} {adapter : Adapter} (serves : Serves events adapter) {batch : List Str}
    (distinct : batch.Nodup) (asked : Nat) :
    (∀ groups, (fetchBatch adapter batch asked).1 = .ok groups → matchGroups batch (byAuthor groups) = batch.map fun pk => (pk,events pk)) ∧
      (∀ e, (fetchBatch adapter batch asked).1 = .error e → (e ≠ .PayloadTooLarge ∧ ∃ at_ part, adapter at_ part = .error e) ∨
        (∃ at_ pk, pk ∈ batch ∧ adapter at_ [pk] = .error .PayloadTooLarge) ∨ batch = [] ∧ ∃ at_, adapter at_ [] = .error .PayloadTooLarge) ∧
      (fetchBatch adapter batch asked).2 ≤ asked + MAX_ATTEMPTS * max 1 (2 * batch.length - 1) := by
  have fetches := fetchBatch_fetches adapter batch asked
  refine ⟨?_,?_,fetches.bounded⟩
  · intro groups done
    exact matchGroups_holds distinct (fetches.holds serves groups done)
  · intro e failed
    obtain ⟨at_,part,inside,more,answer,single⟩ := fetches.fails e failed
    by_cases large : e = .PayloadTooLarge
    · rw [large] at answer
      have short := single large
      match part,short with
      | [],_ =>
        have empty : batch = [] := by
          by_contra some_batch
          exact more some_batch rfl
        exact .inr (.inr ⟨empty,at_,answer⟩)
      | [pk],_ => exact .inr (.inl ⟨at_,pk,inside.subset List.mem_cons_self,answer⟩)
    · exact .inl ⟨large,at_,part,answer⟩

-- An adapter that takes one author at a time and has nothing for the second.
def note : Event := ⟨[1],[97],1,0,[],[]⟩

def notes (pk : Str) : List Event := if pk = [98] then [] else [note]

def narrow : Adapter := fun _ batch =>
  if 1 < batch.length then .error .PayloadTooLarge else .ok ((batch.filter fun pk => pk ≠ [98]).map fun pk => ⟨pk,notes pk⟩)

theorem narrow_serves : Serves notes narrow := by
  intro asked batch groups answered
  unfold narrow at answered
  split at answered
  · cases answered
  · cases answered
    refine ⟨?_,?_⟩
    · intro g member
      obtain ⟨pk,_,same⟩ := List.mem_map.mp member
      rw [← same]
    · intro pk member more
      have kept : pk ≠ [98] := by
        intro same
        apply more
        rw [notes,if_pos same]
      exact ⟨⟨pk,notes pk⟩,List.mem_map.mpr ⟨pk,List.mem_filter.mpr ⟨member,decide_eq_true kept⟩,rfl⟩,rfl⟩

theorem fetchBatch_exact_narrow : ∃ groups, (fetchBatch narrow [[97],[98],[99]] 0).1 = .ok groups ∧
    matchGroups [[97],[98],[99]] (byAuthor groups) = [([97],[note]),([98],[]),([99],[note])] := by
  have fetched : (fetchBatch narrow [[97],[98],[99]] 0).1 = .ok [⟨[97],[note]⟩,⟨[99],[note]⟩] := by
    simp [fetchBatch,latestPerAuthor,narrow,MAX_ATTEMPTS,isRetryable,notes]
  exact ⟨_,fetched,(fetchBatch_exact narrow_serves (by decide) 0).1 _ fetched⟩

-- A request for no author at all can be refused as well.
theorem fetchBatch_exact_fails : ¬ ∀ (adapter : Adapter) (batch : List Str) (asked : Nat) (e : ClientError), batch.Nodup →
    (fetchBatch adapter batch asked).1 = .error e →
    e ≠ .PayloadTooLarge ∨ ∃ at_ pk, pk ∈ batch ∧ adapter at_ [pk] = .error .PayloadTooLarge := by
  intro single
  have refused : (fetchBatch (fun _ _ => .error .PayloadTooLarge) [] 0).1 = .error .PayloadTooLarge := by
    rw [fetchBatch]
    rfl
  obtain other | ⟨_,pk,member,_⟩ := single _ [] 0 _ List.nodup_nil refused
  · exact other rfl
  · cases member

end DeepFry.Spamhunter
