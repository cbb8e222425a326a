import DeepFry.Spamhunter.WhitelistClient

namespace DeepFry.Spamhunter.WhitelistClient
open DeepFry.Whitelist DeepFry.Whitelist.Repository
open DeepFry.Whitelist.RouterCheck (Setting Refresh)

-- A call that begins shares no pubkey with what a call in flight has missed.
def apart (w : World) : Action → Prop
  | .call request => ∀ c ∈ w.calls, c.phase.active = true → ∀ pk ∈ request.pubkeys, pk ∉ c.misses
  | _ => True

instance (w : World) (action : Action) : Decidable (apart w action) := by
  cases action <;> unfold apart <;> infer_instance

-- An answer that does not stand for a failure.
def Real (failed : Bool) (pk : Str) (b : Bool) : Prop := pk ≠ [] ∧ (b = false ∨ failed = false)

-- An answer agrees with every real one before it.
def Agreeing (journal : List Entry) (out : Resolved) : Prop :=
  ∀ pubkeys earlier failed, Entry.returned pubkeys earlier failed ∈ journal →
    ∀ pk b later, earlier.lookup pk = some b → Real failed pk b → out.lookup pk = some later → later = b

def Final : List Entry → Prop
  | [] => True
  | .refreshed _ :: rest => Final rest
  | .read _ _ :: rest => Final rest
  | .refused _ :: rest => Final rest
  | .returned _ out _ :: rest => Agreeing rest out ∧ Final rest

structure Kept (w : World) : Prop where
  agree : ∀ (i : Nat) c, w.calls[i]? = some c → c.phase.active = true → ∀ pk b, c.out.lookup pk = some b → w.cache.lookup pk = some b
  fresh : ∀ (i : Nat) c, w.calls[i]? = some c → c.phase.active = true → ∀ pk ∈ c.misses, w.cache.lookup pk = none
  apart : ∀ (i j : Nat) c d, w.calls[i]? = some c → w.calls[j]? = some d → i ≠ j → c.phase.active = true → d.phase.active = true →
    ∀ pk ∈ c.misses, pk ∉ d.misses
  cached : ∀ pubkeys out failed, Entry.returned pubkeys out failed ∈ w.journal → ∀ pk b, out.lookup pk = some b → Real failed pk b →
    w.cache.lookup pk = some b
  final : Final w.journal

section Permanence
variable {cfg : Setting} {w next : World} {idx : Nat} {c : Call}

theorem Final.suffix (newer : List Entry) {older : List Entry} (final : Final (newer ++ older)) : Final older := by
  induction newer with
  | nil => exact final
  | cons entry rest ih =>
    cases entry with
    | returned pubkeys out failed => exact ih final.2
    | refreshed r => exact ih final
    | read pk b => exact ih final
    | refused misses => exact ih final

-- A call's phase changes and nothing else.
theorem Kept.moved (kept : Kept w) (here : w.calls[idx]? = some c) (active : c.phase.active = true) (phase : Phase) :
    Kept (w.put idx { c with phase }) := by
  have same : ∀ (j : Nat) d, (w.calls.set idx { c with phase })[j]? = some d →
      ∃ old, w.calls[j]? = some old ∧ old.out = d.out ∧ old.misses = d.misses ∧ (d.phase.active = true → old.phase.active = true) := by
    intro j d found
    rw [List.getElem?_set] at found
    split at found
    · next own =>
      split at found
      · cases found
        exact ⟨c,own ▸ here,rfl,rfl,fun _ => active⟩
      · cases found
    · exact ⟨d,found,rfl,rfl,id⟩
  refine ⟨fun j d found going pk b held => ?_,fun j d found going pk missed => ?_,?_,kept.cached,kept.final⟩
  · obtain ⟨old,before,out,-,still⟩ := same j d found
    exact kept.agree j old before (still going) pk b (out ▸ held)
  · obtain ⟨old,before,-,misses,still⟩ := same j d found
    exact kept.fresh j old before (still going) pk (misses ▸ missed)
  · intro i j one other found found' distinct going going' pk missed
    obtain ⟨old,before,-,misses,still⟩ := same i one found
    obtain ⟨old',before',-,misses',still'⟩ := same j other found'
    rw [← misses']
    exact kept.apart i j old old' before before' distinct (still going) (still' going') pk (misses ▸ missed)

theorem Kept.note (kept : Kept w) {entry : Entry} (quiet : ∀ pubkeys out failed, entry ≠ .returned pubkeys out failed) :
    Kept (w.note entry) := by
  refine ⟨kept.agree,kept.fresh,kept.apart,fun pubkeys out failed member => ?_,?_⟩
  · exact kept.cached pubkeys out failed ((List.mem_cons.mp member).resolve_left (quiet pubkeys out failed).symm)
  · cases entry with
    | returned pubkeys out failed => exact absurd rfl (quiet pubkeys out failed)
    | refreshed r => exact kept.final
    | read pk b => exact kept.final
    | refused misses => exact kept.final

-- A call whose answers stand in the cache returns.
theorem Kept.returns (kept : Kept w) {pubkeys : List Str} {out : Resolved} {failed : Bool}
    (real : ∀ pk b, out.lookup pk = some b → Real failed pk b → w.cache.lookup pk = some b) (agreeing : Agreeing w.journal out) :
    Kept (w.note (.returned pubkeys out failed)) := by
  refine ⟨kept.agree,kept.fresh,kept.apart,fun pubkeys' out' failed' member => ?_,agreeing,kept.final⟩
  obtain new | old := List.mem_cons.mp member
  · cases new
    exact real
  · exact kept.cached pubkeys' out' failed' old

-- What agrees with the cache agrees with every real answer before it.
theorem Kept.agreeing (kept : Kept w) {out : Resolved} (held : ∀ pk b later, w.cache.lookup pk = some b → out.lookup pk = some later → later = b) :
    Agreeing w.journal out :=
  fun pubkeys earlier failed member pk b later first real again => held pk b later (kept.cached pubkeys earlier failed member pk b first real) again

theorem accept_kept (kept : Kept w) (here : w.calls[idx]? = some c) (active : c.phase.active = true) : Kept (accept cfg w idx c) := by
  unfold accept
  split
  · split
    · exact (kept.moved here active _).note fun _ _ _ => Entry.noConfusion
    · exact (kept.moved here active _).note fun _ _ _ => Entry.noConfusion
  · split
    · exact (kept.moved here active _).note fun _ _ _ => Entry.noConfusion
    · exact kept.moved here active _

theorem readNext_kept (kept : Kept w) (here : w.calls[idx]? = some c) (active : c.phase.active = true) (results : Resolved)
    (left : List Str) : Kept (readNext cfg w idx c results left) := by
  unfold readNext
  split
  · exact kept.moved here active _
  · split
    · exact kept.moved here active _
    · split
      · exact kept.moved here active _
      · exact (kept.moved here active _).note fun _ _ _ => Entry.noConfusion

theorem getElem?_add {calls : List Call} {new d : Call} {j : Nat} (found : (calls ++ [new])[j]? = some d) :
    calls[j]? = some d ∨ j = calls.length ∧ d = new := by
  rw [List.getElem?_append] at found
  split at found
  · exact .inl found
  · next beyond =>
    obtain ⟨last,same⟩ := List.getElem?_eq_some_iff.mp found
    rw [List.length_singleton] at last
    rw [List.getElem_singleton] at same
    exact .inr ⟨by omega,same.symm⟩

-- A new call whose answers stand in the cache, whose misses do not, and which is apart from the others.
theorem Kept.add (kept : Kept w) (agree : ∀ pk b, c.out.lookup pk = some b → w.cache.lookup pk = some b)
    (fresh : ∀ pk ∈ c.misses, w.cache.lookup pk = none)
    (away : ∀ pk ∈ c.misses, ∀ d ∈ w.calls, d.phase.active = true → pk ∉ d.misses) : Kept (w.add c) := by
  refine ⟨fun j d found going => ?_,fun j d found going => ?_,?_,kept.cached,kept.final⟩
  · obtain old | ⟨-,rfl⟩ := getElem?_add found
    · exact kept.agree j d old going
    · exact agree
  · obtain old | ⟨-,rfl⟩ := getElem?_add found
    · exact kept.fresh j d old going
    · exact fresh
  · intro i j one other found found' distinct going going' pk missed
    obtain old | ⟨size,rfl⟩ := getElem?_add found
    · obtain old' | ⟨-,rfl⟩ := getElem?_add found'
      · exact kept.apart i j one other old old' distinct going going' pk missed
      · exact fun both => away pk both one (List.mem_of_getElem? old) going missed
    · obtain old' | ⟨size',rfl⟩ := getElem?_add found'
      · exact away pk missed other (List.mem_of_getElem? old') going'
      · exact absurd (size.trans size'.symm) distinct

theorem start_kept (kept : Kept w) {request : Request} (alone : apart w (.call request)) :
    Kept (start w request (consult w.cache (∅,[]) request.pubkeys)) := by
  have looked := fun pk => @consult_out w.cache ∅ [] request.pubkeys pk
  have missed := @consult_misses w.cache ∅ [] request.pubkeys
  generalize consult w.cache (∅,[]) request.pubkeys = found at looked missed
  rw [List.nil_append] at missed
  have agree : ∀ pk b, found.1.lookup pk = some b → w.cache.lookup pk = some b := fun pk b here => by
    rw [looked pk,AList.lookup_empty,Option.or_none] at here
    split at here
    · exact here
    · cases here
  unfold start
  split
  · have added : Kept (w.add ⟨request,found.1,[],.returned⟩) :=
      kept.add agree (fun pk member => absurd member List.not_mem_nil) fun pk member => absurd member List.not_mem_nil
    refine added.returns (fun pk b here _ => agree pk b here) (added.agreeing fun pk b later held here => ?_)
    exact Option.some.inj ((agree pk later here).symm.trans held)
  · refine kept.add agree (fun pk member => ?_) fun pk member d among going both => ?_
    · change pk ∈ found.2 at member
      rw [missed] at member
      exact Option.isNone_iff_eq_none.mp (List.mem_filter.mp member).2
    · change pk ∈ found.2 at member
      rw [missed] at member
      exact alone d among going pk (List.mem_filter.mp member).1 both

theorem finish_kept (kept : Kept w) (here : w.calls[idx]? = some c) (active : c.phase.active = true) {resolved : Option Resolved}
    (usable : Usable w.journal c.misses resolved) : Kept (finish w idx c resolved) := by
  have put := fun pk => @settle_cache w.cache c.out c.misses resolved pk
  have given := fun pk => @settle_out w.cache c.out c.misses resolved pk
  unfold finish
  generalize settle resolved (w.cache,c.out) c.misses = settled at put given
  have fresh := kept.fresh idx c here active
  have grown : ∀ pk b, w.cache.lookup pk = some b → settled.1.lookup pk = some b := fun pk b held => by
    rw [put pk,if_neg fun missed => ?_]
    · exact held
    · rw [fresh pk missed] at held
      cases held
  -- a call in flight is another one, and was in flight before
  have other : ∀ (j : Nat) d, (w.calls.set idx { c with out := settled.2, phase := .returned })[j]? = some d →
      d.phase.active = true → idx ≠ j ∧ w.calls[j]? = some d := by
    intro j d found going
    rw [List.getElem?_set] at found
    split at found
    · split at found
      · cases found
        exact absurd going Bool.false_ne_true
      · cases found
    · next distinct => exact ⟨distinct,found⟩
  have moved : Kept (World.put { w with cache := settled.1 } idx { c with out := settled.2, phase := .returned }) := by
    refine ⟨fun j d found going pk b held => ?_,fun j d found going pk missed => ?_,?_,?_,kept.final⟩
    · obtain ⟨-,before⟩ := other j d found going
      exact grown pk b (kept.agree j d before going pk b held)
    · obtain ⟨distinct,before⟩ := other j d found going
      change settled.1.lookup pk = none
      rw [put pk,if_neg fun both => kept.apart idx j c d here before distinct active going pk both missed]
      exact kept.fresh j d before going pk missed
    · intro i j one two found found' distinct going going'
      exact kept.apart i j one two (other i one found going).2 (other j two found' going').2 distinct going going'
    · intro pubkeys out failed member pk b first real
      exact grown pk b (kept.cached pubkeys out failed member pk b first real)
  refine moved.returns (fun pk b found real => ?_) fun pubkeys earlier failed member pk b later first real again => ?_
  · change settled.1.lookup pk = some b
    by_cases missed : pk ∈ c.misses
    · rw [given pk,if_pos missed] at found
      rw [put pk,if_pos missed]
      cases answer : resolved.bind (·.lookup pk) with
      | some value =>
        rw [answer] at found
        exact found
      | none =>
        rw [answer] at found
        cases found
        have whole := real.2.resolve_left Bool.noConfusion
        cases resolved with
        | none => cases whole
        | some results =>
          obtain none | held := usable.2 pk missed
          · exact absurd none real.1
          · exact absurd held (AList.lookup_eq_none.mp answer)
    · rw [given pk,if_neg missed] at found
      exact grown pk b (kept.agree idx c here active pk b found)
  · have held := kept.cached pubkeys earlier failed member pk b first real
    rw [given pk,if_neg fun missed => ?_] at again
    · exact Option.some.inj ((kept.agree idx c here active pk later again).symm.trans held)
    · rw [fresh pk missed] at held
      cases held

theorem step_kept (sound : Sound cfg w) (kept : Kept w) {action : Action} (allowed : apart w action)
    (moved : step cfg w action = some next) : Kept next := by
  cases action with
  | refresh attempts =>
    simp only [step] at moved
    split at moved
    · cases moved
      exact kept
    · next r _ =>
      cases moved
      have relisted : Kept { w with list := r.keys } := ⟨kept.agree,kept.fresh,kept.apart,kept.cached,kept.final⟩
      exact relisted.note fun _ _ _ => Entry.noConfusion
  | call request =>
    cases moved
    exact start_kept kept allowed
  | accept idx =>
    obtain ⟨c,here,phase,rfl⟩ := accept_parts moved
    exact accept_kept kept here (by rw [phase]; rfl)
  | read idx =>
    obtain ⟨c,left,results,here,phase,rfl⟩ := read_parts moved
    exact readNext_kept kept here (by rw [phase]; rfl) results left
  | deliver idx =>
    obtain ⟨c,resolved,here,phase,rfl⟩ := deliver_parts moved
    have active : c.phase.active = true := by rw [phase]; rfl
    exact finish_kept kept here active ((sound.calls c (List.mem_of_getElem? here) active).usable phase)
  | fail idx =>
    obtain ⟨c,here,active,rfl⟩ := fail_parts moved
    exact finish_kept kept here active trivial

theorem boot_kept : Kept boot :=
  ⟨fun _ _ found => (nomatch found),fun _ _ found => (nomatch found),fun _ _ _ _ found => (nomatch found),
    fun _ _ _ member => absurd member List.not_mem_nil,trivial⟩

theorem answers_final (lawful : cfg.Lawful) (path : Machine.Reached (step cfg) apart boot w) {newer middle older : List Entry}
    {pubkeys again : List Str} {out later : Resolved} {failed refailed : Bool}
    (ran : w.journal = newer ++ .returned again later refailed :: middle ++ .returned pubkeys out failed :: older) {pk : Str} (given : pk ≠ [])
    {b : Bool} (first : out.lookup pk = some b) (real : b = false ∨ failed = false) (asked : pk ∈ again) : later.lookup pk = some b := by
  obtain ⟨sound,kept⟩ : Sound cfg w ∧ Kept w := path.invariant (fun w => Sound cfg w ∧ Kept w) ⟨boot_sound cfg,boot_kept⟩
    fun both allowed moved => ⟨step_sound lawful both.1 moved,step_kept both.1 both.2 allowed moved⟩
  have honest := sound.honest
  have final := kept.final
  rw [ran,List.append_assoc] at honest final
  obtain ⟨answered,-⟩ := honest.suffix newer
  obtain ⟨agreeing,-⟩ := final.suffix newer
  obtain ⟨b',found⟩ := Option.isSome_iff_exists.mp (AList.lookup_isSome.mpr ((answered.asked pk).mpr asked))
  have member : Entry.returned pubkeys out failed ∈ middle ++ .returned pubkeys out failed :: older :=
    List.mem_append_right _ List.mem_cons_self
  rw [found,agreeing pubkeys out failed member pk b b' first ⟨given,real⟩ found]

end Permanence

def Entry.asks (pk : Str) : Entry → Bool
  | .returned pubkeys _ _ => decide (pk ∈ pubkeys)
  | _ => false

theorem asks_entry {entry : Entry} {pk : Str} (was : entry.asks pk = true) :
    ∃ pubkeys out failed, entry = .returned pubkeys out failed ∧ pk ∈ pubkeys := by
  cases entry with
  | returned pubkeys out failed => exact ⟨pubkeys,out,failed,rfl,of_decide_eq_true was⟩
  | refreshed r => cases was
  | read pk b => cases was
  | refused misses => cases was

theorem answers_final_sample : ∃ w : World, ∃ again out failed older,
    w.journal = .returned again out failed :: older ∧ out.lookup alice = some false := by
  obtain ⟨w,path,found⟩ := Machine.replay_final (step RouterCheck.sampleSetting) apart boot sampleRun
    (fun w : World => w.journal.head?.any (Entry.asks alice) && decide ((w.journal[1]?.bind (Entry.flag alice)) = some (false,false)))
    (by decide +kernel) (by decide +kernel)
  obtain ⟨last,before⟩ := Bool.and_eq_true_iff.mp found
  obtain ⟨newest,first,asks⟩ := (Option.any_eq_true _ _).mp last
  obtain ⟨again,later,refailed,rfl,asked⟩ := asks_entry asks
  obtain ⟨entry,second,flag⟩ := Option.bind_eq_some_iff.mp (of_decide_eq_true before)
  obtain ⟨pubkeys,out,rfl,said⟩ := flag_entry flag
  obtain ⟨older,ran⟩ := List.head?_eq_some_iff.mp first
  rw [ran,List.getElem?_cons_succ] at second
  obtain ⟨rest,next⟩ := List.head?_eq_some_iff.mp (List.head?_eq_getElem?.trans second)
  have whole : w.journal = [] ++ .returned again later refailed :: [] ++ .returned pubkeys out false :: rest := by
    rw [ran,next]
    rfl
  exact ⟨w,again,later,refailed,older,ran,answers_final sample_lawful path whole (by decide) said (.inl rfl) asked⟩

end DeepFry.Spamhunter.WhitelistClient
