import DeepFry.WebOfTrust.RelayPool

namespace DeepFry.WebOfTrust.RelayPool

section Runs
variable {ejectionThresholds : FailureClass → Int} {rs : RelayState} {s : State}

def Config.known (c : Config) (url : Str) : Prop := url ∈ c.relayUrls ∨ url ∈ c.ejectedRelays

-- A configuration against the one it came from: no URL is lost or invented, and what came to be ejected is no longer dialed.
structure Config.Follows (c first : Config) : Prop where
  known : ∀ url, c.known url ↔ first.known url
  fewer : c.relayUrls.Sublist first.relayUrls
  more : first.ejectedRelays <+: c.ejectedRelays
  distinct : first.ejectedRelays.Nodup → c.ejectedRelays.Nodup
  moved : ∀ url ∈ c.ejectedRelays, url ∉ first.ejectedRelays → url ∉ c.relayUrls

theorem Config.Follows.refl (c : Config) : c.Follows c :=
  ⟨fun _ => Iff.rfl,List.Sublist.refl _,List.prefix_refl _,id,fun _ mem fresh => absurd mem fresh⟩

-- Ejected for good, as far as a configuration says so.
structure Config.Out (url : Str) (c : Config) : Prop where
  gone : url ∉ c.relayUrls
  listed : url ∈ c.ejectedRelays

theorem ejectRelayURL_out (url : Str) (c : Config) : (ejectRelayURL url c).1.Out url := by
  simp only [ejectRelayURL]
  split
  · next idle =>
    obtain ⟨still,ejected⟩ := idle
    refine ⟨fun mem => ?_,ejected⟩
    have whole := List.length_filter_eq_length_iff.mp (not_not.mp still)
    simpa using whole url mem
  · refine ⟨by simp,?_⟩
    simp only
    split
    · assumption
    · exact List.mem_append_right _ List.mem_cons_self

theorem ejectRelayURL_follows {url : Str} {c first : Config} (follows : c.Follows first) (known : first.known url) :
    (ejectRelayURL url c).1.Follows first := by
  simp only [ejectRelayURL]
  split
  · exact follows
  · refine ⟨fun other => ?_,List.filter_sublist.trans follows.fewer,?_,fun distinct => ?_,fun other mem fresh kept => ?_⟩
    · rw [← follows.known other]
      by_cases same : other = url
      · subst same
        refine iff_of_true (.inr ?_) ((follows.known other).mpr known)
        simp only
        split
        · assumption
        · exact List.mem_append_right _ List.mem_cons_self
      · simp only [Config.known,List.mem_filter,decide_eq_true_eq]
        split <;> simp [same]
    · simp only
      split
      · exact follows.more
      · exact follows.more.trans (List.prefix_append _ _)
    · have nodup := follows.distinct distinct
      simp only
      split
      · exact nodup
      · next absent => simpa using nodup.concat absent
    · have both := List.mem_filter.mp kept
      refine follows.moved other ?_ fresh both.1
      simp only at mem
      split at mem
      · exact mem
      · exact (List.mem_append.mp mem).resolve_right fun last => by simp_all

-- One configuration is at most some ejections ahead of another.
structure Config.Ahead (c of : Config) : Prop where
  fewer : c.relayUrls.Sublist of.relayUrls
  more : of.ejectedRelays <+: c.ejectedRelays

theorem Config.Ahead.refl (c : Config) : c.Ahead c := ⟨List.Sublist.refl _,List.prefix_refl _⟩

theorem Config.Ahead.trans {a b c : Config} (ab : a.Ahead b) (bc : b.Ahead c) : a.Ahead c :=
  ⟨ab.fewer.trans bc.fewer,bc.more.trans ab.more⟩

theorem Config.Ahead.out {c of : Config} {url : Str} (ahead : c.Ahead of) (out : of.Out url) : c.Out url :=
  ⟨fun mem => out.gone (ahead.fewer.subset mem),ahead.more.subset out.listed⟩

theorem ejectRelayURL_ahead (url : Str) (c : Config) : (ejectRelayURL url c).1.Ahead c := by
  simp only [ejectRelayURL]
  split
  · exact .refl c
  · refine ⟨List.filter_sublist,?_⟩
    simp only
    split
    · exact List.prefix_refl _
    · exact List.prefix_append _ _

theorem ejectRelayURL_entries (url : Str) (c : Config) :
    ∀ other ∈ (ejectRelayURL url c).1.ejectedRelays, other ∈ c.ejectedRelays ∨ other = url := by
  intro other mem
  simp only [ejectRelayURL] at mem
  split at mem
  · exact .inl mem
  · simp only at mem
    split at mem
    · exact .inl mem
    · simpa using mem

-- A process starts from a whole file.
def whole (s : State) : Action → Prop
  | .start _ _ _ => s.torn = false
  | _ => True

instance (s : State) : (action : Action) → Decidable (whole s action)
  | .start _ _ _ => inferInstanceAs (Decidable (s.torn = false))
  | .clear _ _ | .markRelayDead _ _ _ _ | .reap _ | .reconnectRelays _ _ _ | .forwardEvent _ _ => inferInstanceAs (Decidable True)

-- Out of what the process holds, and of the file as long as no write of it broke off.
structure Held (url : Str) (s : State) : Prop where
  viper : s.viper.Out url
  disk : s.torn = false → s.disk.Out url

structure Filed (config : Config) (s : State) : Prop where
  viper : s.viper.Follows config
  disk : s.torn = false → s.disk.Follows config ∧ s.viper.Ahead s.disk
  written : ∀ e ∈ s.ejected, e.2 = true → Held e.1.url s
  accounted : ∀ url ∈ s.viper.ejectedRelays, url ∈ config.ejectedRelays ∨ ∃ e ∈ s.ejected, e.1.url = url

-- What an ejection leaves in the files.
theorem onConnectFail_files (writes : Nat → WriteResult) (s : State) (rs : RelayState) :
    (onConnectFail writes s rs).viper = (ejectRelayURL rs.url s.viper).1 ∧
      ∃ sealed, (onConnectFail writes s rs).ejected = s.ejected ++ [(rs,sealed)] ∧
        ((onConnectFail writes s rs).torn = false →
          (onConnectFail writes s rs).disk = (onConnectFail writes s rs).viper ∨
            sealed = false ∧ s.torn = false ∧ (onConnectFail writes s rs).disk = s.disk) ∧
        (sealed = true → (onConnectFail writes s rs).disk = (onConnectFail writes s rs).viper) := by
  unfold onConnectFail
  dsimp only
  split
  · exact ⟨rfl,true,rfl,fun _ => .inl rfl,fun _ => rfl⟩
  · exact ⟨rfl,false,rfl,fun clean => .inr ⟨rfl,clean,rfl⟩,nofun⟩
  · exact ⟨rfl,false,rfl,nofun,nofun⟩

theorem Held.onConnectFail {url : Str} (held : Held url s) (writes : Nat → WriteResult) (rs : RelayState) :
    Held url (onConnectFail writes s rs) := by
  obtain ⟨viper,sealed,-,disk,-⟩ := onConnectFail_files writes s rs
  have out : (RelayPool.onConnectFail writes s rs).viper.Out url := by
    rw [viper]
    exact (ejectRelayURL_ahead rs.url s.viper).out held.viper
  refine ⟨out,fun clean => ?_⟩
  rcases disk clean with same | ⟨-,before,same⟩
  · rw [same]
    exact out
  · rw [same]
    exact held.disk before

theorem Filed.onConnectFail {config : Config} (filed : Filed config s) (writes : Nat → WriteResult) (known : config.known rs.url) :
    Filed config (onConnectFail writes s rs) := by
  obtain ⟨viper,sealed,ejected,disk,written⟩ := onConnectFail_files writes s rs
  have follows := ejectRelayURL_follows filed.viper known
  have out : (RelayPool.onConnectFail writes s rs).viper.Out rs.url := by
    rw [viper]
    exact ejectRelayURL_out rs.url s.viper
  refine ⟨viper ▸ follows,fun clean => ?_,fun e mem done => ?_,fun url mem => ?_⟩
  · rcases disk clean with same | ⟨-,before,same⟩
    · rw [same,viper]
      exact ⟨follows,.refl _⟩
    · obtain ⟨still,ahead⟩ := filed.disk before
      rw [same,viper]
      exact ⟨still,(ejectRelayURL_ahead rs.url s.viper).trans ahead⟩
  · rw [ejected] at mem
    rcases List.mem_append.mp mem with earlier | now
    · exact (filed.written e earlier done).onConnectFail writes rs
    · cases List.mem_singleton.mp now
      refine ⟨out,fun _ => ?_⟩
      rw [written done]
      exact out
  · rw [viper] at mem
    rw [ejected]
    rcases ejectRelayURL_entries rs.url s.viper url mem with earlier | rfl
    · rcases filed.accounted url earlier with initial | ⟨e,held,same⟩
      · exact .inl initial
      · exact .inr ⟨e,List.mem_append_left _ held,same⟩
    · exact .inr ⟨_,List.mem_append_right _ List.mem_cons_self,rfl⟩

theorem Filed.fold {config : Config} (writes : Nat → WriteResult) {gone : List RelayState} (known : ∀ rs ∈ gone, config.known rs.url)
    (filed : Filed config s) :
    Filed config (gone.foldl (RelayPool.onConnectFail writes) s) ∧
      ∀ url, Held url s → Held url (gone.foldl (RelayPool.onConnectFail writes) s) := by
  induction gone generalizing s with
  | nil => exact ⟨filed,fun _ => id⟩
  | cons rs rest ih =>
    obtain ⟨after,held⟩ := ih (fun other mem => known other (List.mem_cons_of_mem _ mem))
      (filed.onConnectFail writes (known rs List.mem_cons_self))
    exact ⟨after,fun url before => held url (before.onConnectFail writes rs)⟩

-- Where a relay of the next state comes from.
def Descends (s : State) (rs : RelayState) : Prop :=
  (∃ before ∈ s.relays, rs.pointer = before.pointer ∧ rs.url = before.url) ∨ s.torn = false ∧ rs.url ∈ s.disk.relayUrls

-- What a step keeps of the files and the pool.
structure Kept (config : Config) (s next : State) : Prop where
  filed : Filed config next
  held : ∀ url, Held url s → Held url next
  descends : ∀ rs ∈ next.relays, Descends s rs

theorem visit_kept {config : Config} {judge : RelayState → RelayState × Bool}
    (same : ∀ rs, (judge rs).1.pointer = rs.pointer ∧ (judge rs).1.url = rs.url) (writes : Nat → WriteResult)
    (known : ∀ rs ∈ s.relays, config.known rs.url) (filed : Filed config s) : Kept config s (visit judge writes s) := by
  have judged : ∀ {pick : RelayState × Bool → Bool}, ∀ rs ∈ ((s.relays.map judge).filter pick).map Prod.fst,
      ∃ before ∈ s.relays, rs.pointer = before.pointer ∧ rs.url = before.url := by
    intro pick rs mem
    obtain ⟨after,chosen,rfl⟩ := List.mem_map.mp mem
    obtain ⟨before,pooled,rfl⟩ := List.mem_map.mp (List.mem_filter.mp chosen).1
    exact ⟨before,pooled,same before⟩
  obtain ⟨relays,-,-,-⟩ := onConnectFail_fold writes (((s.relays.map judge).filter fun verdict => verdict.2).map Prod.fst)
    { s with relays := ((s.relays.map judge).filter fun verdict => !verdict.2).map Prod.fst }
  have start : Filed config { s with relays := ((s.relays.map judge).filter fun verdict => !verdict.2).map Prod.fst } :=
    ⟨filed.viper,filed.disk,fun e mem done => ⟨(filed.written e mem done).viper,(filed.written e mem done).disk⟩,filed.accounted⟩
  obtain ⟨after,held⟩ := start.fold writes fun rs mem => by
    obtain ⟨before,pooled,-,url⟩ := judged rs mem
    exact url ▸ known before pooled
  refine ⟨after,fun url before => held url ⟨before.viper,before.disk⟩,fun rs mem => ?_⟩
  rw [visit,relays] at mem
  exact .inl (judged rs mem)

-- A step that leaves the files as they are.
theorem Kept.still {config : Config} {relays : List RelayState} {forwardRelay : Option RelayState} (filed : Filed config s)
    (descends : ∀ rs ∈ relays, Descends s rs) : Kept config s { s with relays, forwardRelay } :=
  ⟨⟨filed.viper,filed.disk,fun e mem done => ⟨(filed.written e mem done).viper,(filed.written e mem done).disk⟩,filed.accounted⟩,
    fun _ held => ⟨held.viper,held.disk⟩,descends⟩

-- A new process holds what the file says.
theorem Filed.start {config : Config} {relays : List RelayState} {forwardRelay : Option RelayState} {launched : Nat}
    (filed : Filed config s) (clean : s.torn = false) (read : ∀ rs ∈ relays, rs.url ∈ s.disk.relayUrls) :
    Kept config s { s with relays, forwardRelay, viper := s.disk, launched } := by
  obtain ⟨follows,ahead⟩ := filed.disk clean
  refine ⟨⟨follows,fun _ => ⟨follows,.refl _⟩,fun e mem done => ?_,fun url mem => ?_⟩,fun url held => ?_,fun rs mem => ?_⟩
  · have out := (filed.written e mem done).disk clean
    exact ⟨out,fun _ => out⟩
  · exact filed.accounted url (ahead.more.subset mem)
  · exact ⟨held.disk clean,fun _ => held.disk clean⟩
  · exact .inr ⟨clean,read rs mem⟩

theorem step_kept {config : Config} {action : Action} {next : State} (known : ∀ rs ∈ s.relays, config.known rs.url)
    (filed : Filed config s) (allowed : whole s action) (moved : step ejectionThresholds s action = some next) : Kept config s next := by
  have changed : ∀ {change : RelayState → RelayState}, (∀ rs, (change rs).pointer = rs.pointer ∧ (change rs).url = rs.url) →
      ∀ rs ∈ s.relays.map change, Descends s rs := by
    intro change same rs mem
    obtain ⟨before,pooled,rfl⟩ := List.mem_map.mp mem
    exact .inl ⟨before,pooled,same before⟩
  cases action with
  | start dial now forwardRelayURL =>
    cases moved
    unfold start
    simp only
    split
    · refine filed.start allowed fun rs mem => ?_
      obtain ⟨⟨url,i⟩,listed,rfl⟩ := List.mem_map.mp mem
      have read := List.fst_mem_of_mem_zipIdx listed
      have url : (launch dial now (s.launched + i) url).url = url := by unfold launch; split <;> rfl
      exact url.symm ▸ read
    · exact filed.start allowed fun rs mem => absurd mem List.not_mem_nil
  | clear pointer class_ =>
    cases moved
    exact .still filed (changed fun rs => by split <;> exact ⟨rfl,rfl⟩)
  | markRelayDead url class_ now writes =>
    cases moved
    refine visit_kept (fun rs => ?_) writes known filed
    unfold condemn
    simp only
    split_ifs <;> exact ⟨rfl,rfl⟩
  | reap outstanding =>
    cases moved
    exact .still filed (changed fun rs => by unfold reap; split <;> exact ⟨rfl,rfl⟩)
  | reconnectRelays turn forward writes =>
    cases moved
    have same : ∀ rs, (reconnect ejectionThresholds turn rs).1.pointer = rs.pointer ∧
        (reconnect ejectionThresholds turn rs).1.url = rs.url := by
      intro rs
      unfold reconnect
      simp only
      split_ifs <;> exact ⟨rfl,rfl⟩
    obtain ⟨after,held,descends⟩ := visit_kept same writes known filed
    have done : ∀ e ∈ (visit (reconnect ejectionThresholds turn) writes s).ejected, e.2 = true →
        Held e.1.url (reconnectRelays ejectionThresholds turn forward writes s) :=
      fun e mem sealed => ⟨(after.written e mem sealed).viper,(after.written e mem sealed).disk⟩
    exact ⟨⟨after.viper,after.disk,done,after.accounted⟩,fun url before => ⟨(held url before).viper,(held url before).disk⟩,descends⟩
  | forwardEvent published now =>
    have own : ∀ rs ∈ s.relays, Descends s rs := fun rs mem => .inl ⟨rs,mem,rfl,rfl⟩
    simp only [step,forwardEvent] at moved
    split at moved
    · cases moved; exact ⟨filed,fun _ => id,own⟩
    · split_ifs at moved
      · cases moved; exact ⟨filed,fun _ => id,own⟩
      · cases moved; exact ⟨filed,fun _ => id,own⟩
      · cases moved; exact .still filed own

-- A relay whose ejection was written is not read again.
structure Barred (url : Str) (first : Nat) (s : State) : Prop where
  held : Held url s
  fresh : ∀ rs ∈ s.relays, first ≤ rs.pointer → rs.url ≠ url

theorem Barred.step {config : Config} {url : Str} {first : Nat} {next : State} (barred : Barred url first s) (kept : Kept config s next) :
    Barred url first next := by
  refine ⟨kept.held url barred.held,fun rs mem new same => ?_⟩
  rcases kept.descends rs mem with ⟨before,pooled,pointer,url⟩ | ⟨clean,read⟩
  · exact barred.fresh before pooled (pointer ▸ new) (url ▸ same)
  · exact (barred.held.disk clean).gone (same ▸ read)

structure Recorded (config : Config) (s : State) : Prop extends Filed config s where
  known : ∀ rs ∈ s.relays, config.known rs.url

theorem Recorded.step {config : Config} {next : State} (recorded : Recorded config s) (kept : Kept config s next) : Recorded config next := by
  refine ⟨kept.filed,fun rs mem => ?_⟩
  rcases kept.descends rs mem with ⟨before,pooled,-,url⟩ | ⟨clean,read⟩
  · exact url ▸ recorded.known before pooled
  · exact ((recorded.disk clean).1.known rs.url).mp (.inl read)

theorem reached_recorded {config : Config} (path : Machine.Reached (step ejectionThresholds) whole (boot config) s) : Recorded config s := by
  refine path.invariant _ ?_ (fun recorded allowed moved => recorded.step (step_kept recorded.known recorded.toFiled allowed moved))
  exact ⟨⟨.refl config,fun _ => ⟨.refl config,.refl config⟩,fun _ mem => absurd mem List.not_mem_nil,fun _ mem => .inl mem⟩,
    fun _ mem => absurd mem List.not_mem_nil⟩

-- Where no process starts from a file that a broken write left, an ejection that was written is for good.
theorem ejection_persists {config : Config} {t : State} (path : Machine.Reached (step ejectionThresholds) whole (boot config) s)
    (later : Machine.Reached (step ejectionThresholds) whole s t) (written : (rs,true) ∈ s.ejected) :
    (∀ other ∈ t.relays, s.launched ≤ other.pointer → other.url ≠ rs.url) ∧
      (t.torn = false → t.disk.Out rs.url ∧ t.disk.Follows config ∧
        ∀ url ∈ t.disk.ejectedRelays, url ∈ config.ejectedRelays ∨ ∃ e ∈ t.ejected, e.1.url = url) := by
  have governed := reached_governed path
  have recorded := reached_recorded path
  have barred : Barred rs.url s.launched s := by
    refine ⟨recorded.written _ written rfl,fun other mem new => ?_⟩
    have old := governed.numbered other.pointer (List.mem_map_of_mem (List.mem_append_left _ mem))
    omega
  obtain ⟨kept,after⟩ : Barred rs.url s.launched t ∧ Recorded config t := by
    refine later.invariant (fun t => Barred rs.url s.launched t ∧ Recorded config t) ⟨barred,recorded⟩ ?_
    rintro u action next ⟨barred,recorded⟩ allowed moved
    have kept := step_kept recorded.known recorded.toFiled allowed moved
    exact ⟨barred.step kept,recorded.step kept⟩
  refine ⟨kept.fresh,fun clean => ?_⟩
  obtain ⟨follows,ahead⟩ := after.disk clean
  exact ⟨kept.held.disk clean,follows,fun url mem => after.accounted url (ahead.more.subset mem)⟩

theorem ejection_persists_sample : ∃ s : State, ∃ rs : RelayState, (rs,true) ∈ s.ejected ∧
    rs.url ∉ (start (fun _ => true) (fun _ => 0) none s).disk.relayUrls := by
  obtain ⟨s,path,checked⟩ := Machine.replay_final (step fun _ => 2) whole (boot sampleConfig) sampleRun
    (fun s => !s.torn && s.ejected.any Prod.snd) (by decide) (by decide)
  simp only [Bool.and_eq_true,Bool.not_eq_true',List.any_eq_true] at checked
  obtain ⟨clean,⟨rs,written⟩,mem,sealed⟩ := checked
  cases sealed
  have restarts : step (fun _ => 2) s (.start (fun _ => true) (fun _ => 0) none) =
      some (start (fun _ => true) (fun _ => 0) none s) := rfl
  have still : (start (fun _ => true) (fun _ => 0) none s).torn = false := by
    unfold start
    dsimp only
    split <;> exact clean
  have allowed : whole s (.start (fun _ => true) (fun _ => 0) none) := clean
  exact ⟨s,rs,mem,((ejection_persists path (.step .refl allowed restarts) mem).2 still).1.gone⟩

end Runs

end DeepFry.WebOfTrust.RelayPool
