import DeepFry.Spamhunter.Barrier

namespace DeepFry.Spamhunter
open Actor Machine

variable {F : Type} {s next : System F} {action : Action F}

-- A page the run has advanced over, with the cursor it was asked for with.
structure Fetched where
  after : Option Str
  page : AuthorsPage

abbrev Trails := Nat → List Fetched

def noteTrail (s : System F) (action : Action F) (trails : Trails) : Trails :=
  match s.phase,action with
  | .setCursor w page _,.proceed _ => Function.update trails w.runId (trails w.runId ++ [⟨w.after,page⟩])
  | _,_ => trails

def tailCursor (trail : List Fetched) : Option Str := trail.getLast?.bind (·.page.endCursor)

-- Every page was asked for from the start or from the cursor of the page before it.
def Chained (trail : List Fetched) : Prop :=
  ∀ front fetched back, trail = front ++ fetched :: back → fetched.after = none ∨ fetched.after = tailCursor front

-- No page's flush comes back from a writer that ended before it acknowledged the barrier.
def flushHeard (s : System F) : Action F → Bool
  | .proceed _ =>
    match s.phase with
    | .flush _ (some _) => s.store.stage.live
    | .await _ (some _) => s.acked
    | _ => true
  | _ => true

-- The page between its insertion and its cursor.
def Held (s : System F) : Prop :=
  match s.phase with
  | .flush _ (some (page,cursor)) => page.endCursor = some cursor ∧ Queued (· ∈ valid page) s
  | .await _ (some (page,cursor)) =>
    page.endCursor = some cursor ∧ Queued (· ∈ valid page) s ∧ Fenced (· ∈ valid page) s
  | .setCursor _ page cursor => page.endCursor = some cursor ∧ Landed (· ∈ valid page) s
  | _ => True

def advancedOver (trail : List Fetched) (pk : Str) : Prop := ∃ fetched ∈ trail, pk ∈ valid fetched.page

structure Tracked (s : System F) (trails : Trails) : Prop where
  alone : Alone s
  cursors : ∀ run ∈ s.runs.rows, run.lastCursor = tailCursor (trails run.runId)
  unborn : ∀ runId, s.runs.sequence < runId → trails runId = []
  chained : ∀ runId, Chained (trails runId)
  landed : ∀ runId, Landed (advancedOver (trails runId)) s
  walking : ∀ w, walkOf s.phase = some w →
    w.runId ≤ s.runs.sequence ∧ (w.after = none ∨ w.after = tailCursor (trails w.runId))
  held : Held s

theorem chained_concat {trail : List Fetched} {fetched : Fetched} (chained : Chained trail)
    (onward : fetched.after = none ∨ fetched.after = tailCursor trail) : Chained (trail ++ [fetched]) := by
  intro front other back split
  rcases List.eq_nil_or_concat back with rfl | ⟨rest,last,rfl⟩
  · obtain ⟨same,one⟩ := List.append_inj' split rfl
    cases List.singleton_inj.mp one
    exact same ▸ onward
  · rw [List.concat_eq_append,← List.cons_append,← List.append_assoc] at split
    exact chained front other rest (List.append_inj' split rfl).1

theorem tailCursor_concat (trail : List Fetched) (fetched : Fetched) :
    tailCursor (trail ++ [fetched]) = fetched.page.endCursor := by
  simp [tailCursor]

theorem tailCursor_some {trail : List Fetched} {cursor : Str} (last : tailCursor trail = some cursor) :
    ∃ front fetched, trail = front ++ [fetched] ∧ fetched.page.endCursor = some cursor := by
  rcases List.eq_nil_or_concat trail with rfl | ⟨front,fetched,rfl⟩
  · cases last
  · rw [List.concat_eq_append] at last ⊢
    exact ⟨front,fetched,rfl,tailCursor_concat front fetched ▸ last⟩

theorem cursors_calm {t after : Runs} {trails : Trails} (calm : Calm t after)
    (cursors : ∀ run ∈ t.rows, run.lastCursor = tailCursor (trails run.runId)) :
    ∀ run ∈ after.rows, run.lastCursor = tailCursor (trails run.runId) := by
  intro run member
  obtain ⟨old,stored,sameId,sameCursor⟩ := calm.2 run member
  rw [sameId,sameCursor]
  exact cursors old stored

theorem cursors_begin {t : Runs} {trails : Trails} {now : Int} {configJson : Str}
    (unborn : ∀ runId, t.sequence < runId → trails runId = [])
    (cursors : ∀ run ∈ t.rows, run.lastCursor = tailCursor (trails run.runId)) :
    ∀ run ∈ (beginRun now configJson t).rows, run.lastCursor = tailCursor (trails run.runId) := by
  intro run member
  rcases List.mem_append.mp member with old | new
  · exact cursors run old
  · cases List.mem_singleton.mp new
    rw [unborn _ (Nat.lt_succ_self _)]
    rfl

theorem cursors_advance {t : Runs} {trails : Trails} {w : Walk} {page : AuthorsPage} {cursor : Str}
    (returned : page.endCursor = some cursor)
    (cursors : ∀ run ∈ t.rows, run.lastCursor = tailCursor (trails run.runId)) :
    ∀ run ∈ (setRunCursor t w.runId cursor).rows, run.lastCursor =
      tailCursor (Function.update trails w.runId (trails w.runId ++ [⟨w.after,page⟩]) run.runId) := by
  intro run member
  obtain ⟨old,stored,rfl⟩ := mem_update.mp member
  by_cases here : old.runId = w.runId
  · rw [if_pos here]
    change some cursor = tailCursor (Function.update trails w.runId _ old.runId)
    rw [here,Function.update_self,tailCursor_concat,returned]
  · rw [if_neg here,Function.update_of_ne here]
    exact cursors old stored

-- The process moves on, with a write to the run table that moves no cursor.
theorem Tracked.calmly {trails : Trails} {runs : Runs} {phase : Phase} (tracked : Tracked s trails)
    (calm : Calm s.runs runs) (alone : Alone { s with runs, phase })
    (walking : ∀ w, walkOf phase = some w →
      w.runId ≤ s.runs.sequence ∧ (w.after = none ∨ w.after = tailCursor (trails w.runId)))
    (held : Held { s with runs, phase }) : Tracked { s with runs, phase } trails :=
  ⟨alone,cursors_calm calm tracked.cursors,calm.1 ▸ tracked.unborn,tracked.chained,tracked.landed,calm.1 ▸ walking,held⟩

theorem Tracked.onward {trails : Trails} {phase : Phase} (tracked : Tracked s trails) (alone : Alone { s with phase })
    (walking : ∀ w, walkOf phase = some w →
      w.runId ≤ s.runs.sequence ∧ (w.after = none ∨ w.after = tailCursor (trails w.runId)))
    (held : Held { s with phase }) : Tracked { s with phase } trails :=
  tracked.calmly (.refl _) alone walking held

theorem noteTrail_same {trails : Trails} (other : ∀ w page cursor, s.phase ≠ .setCursor w page cursor) :
    noteTrail s action trails = trails := by
  unfold noteTrail
  split
  · exact absurd ‹_› (other _ _ _)
  · rfl

theorem tracked_writes {trails : Trails} (wrote : Writes s action next) (tracked : Tracked s trails) :
    Tracked next trails := by
  have same : next.phase = s.phase ∧ next.runs = s.runs := by
    cases wrote <;> exact ⟨rfl,rfl⟩
  refine ⟨alone_step (.writer wrote) tracked.alone,?_,?_,tracked.chained,?_,?_,?_⟩
  · rw [same.2]; exact tracked.cursors
  · rw [same.2]; exact tracked.unborn
  · exact fun runId => (tracked.landed runId).writes wrote
  · rw [same.1,same.2]; exact tracked.walking
  · have held := tracked.held
    unfold Held at held ⊢
    rw [same.1]
    split at held
    · exact ⟨held.1,held.2.writes wrote⟩
    · exact ⟨held.1,held.2.1.writes wrote,held.2.2.writes wrote held.2.1⟩
    · exact ⟨held.1,held.2.writes wrote⟩
    · trivial

theorem tracked_start {trails : Trails} {resume : Bool} {now : Int} {configJson : Str} {limit : Option Nat}
    (tracked : Tracked s trails) : Tracked ⟨fresh s.store.committed,false,
      (select resume now configJson limit s.runs).2,.probeStart (select resume now configJson limit s.runs).1 1⟩ trails := by
  rcases select_cases resume now configJson limit s.runs with ⟨run,_,latest,chosen⟩ | ⟨_,chosen⟩ <;> rw [chosen]
  · have stored := (latest_some latest).1
    refine ⟨fun _ _ => rfl,cursors_calm (calm_config _ _ _) tracked.cursors,tracked.unborn,tracked.chained,tracked.landed,?_,trivial⟩
    rintro w ⟨⟩
    exact ⟨s.runs.issued run stored,.inr (tracked.cursors run stored)⟩
  · refine ⟨fun _ _ => rfl,cursors_begin tracked.unborn tracked.cursors,?_,tracked.chained,tracked.landed,?_,trivial⟩
    · intro runId later
      change s.runs.sequence + 1 < runId at later
      exact tracked.unborn runId (by omega)
    · rintro w ⟨⟩
      exact ⟨le_refl _,.inl rfl⟩

theorem tracked_cursor {trails : Trails} {w : Walk} {page : AuthorsPage} {cursor : Str}
    (here : s.phase = .setCursor w page cursor) (tracked : Tracked s trails) : Tracked { s with
      runs := setRunCursor s.runs w.runId cursor
      phase := if (advanced w cursor).limited then .flush (advanced w cursor) none else .fetch (advanced w cursor) 1 }
      (Function.update trails w.runId (trails w.runId ++ [⟨w.after,page⟩])) := by
  obtain ⟨known,onward⟩ := tracked.walking w (by rw [here]; rfl)
  obtain ⟨returned,landed⟩ : page.endCursor = some cursor ∧ Landed (· ∈ valid page) s := by
    have held := tracked.held
    rwa [Held,here] at held
  refine ⟨?_,cursors_advance returned tracked.cursors,?_,?_,?_,?_,?_⟩
  · intro _ live
    exact tracked.alone (by rw [here]; rfl) live
  · intro runId later
    change s.runs.sequence < runId at later
    rw [Function.update_of_ne (by omega)]
    exact tracked.unborn runId later
  · intro runId
    by_cases own : runId = w.runId
    · rw [own,Function.update_self]; exact chained_concat (tracked.chained _) onward
    · rw [Function.update_of_ne own]; exact tracked.chained _
  · intro runId
    by_cases own : runId = w.runId
    · rw [own,Function.update_self]
      rintro pk ⟨fetched,walked,wanted⟩
      rcases List.mem_append.mp walked with old | new
      · exact tracked.landed w.runId pk ⟨fetched,old,wanted⟩
      · cases List.mem_singleton.mp new
        exact landed pk wanted
    · rw [Function.update_of_ne own]; exact tracked.landed _
  · intro w' walks
    dsimp only at walks
    split at walks <;> cases walks
    refine ⟨known,.inr ?_⟩
    change some cursor = tailCursor (Function.update trails w.runId _ w.runId)
    rw [Function.update_self,tailCursor_concat,returned]
  · dsimp only [Held]
    split_ifs <;> trivial

-- Outside the walk there is nothing to say about one.
theorem idle_walk {phase : Phase} (idle : walkOf phase = none) {good : Walk → Prop} (w : Walk) (walks : walkOf phase = some w) : good w := by
  rw [idle] at walks
  cases walks

theorem tracked_step {trails : Trails} (moved : Step s action next) (heard : flushHeard s action = true)
    (tracked : Tracked s trails) : Tracked next (noteTrail s action trails) := by
  have alone := alone_step moved tracked.alone
  have walking := tracked.walking
  have held := tracked.held
  have quietly : (∀ w page cursor, s.phase ≠ .setCursor w page cursor) → noteTrail s action trails = trails := noteTrail_same
  cases moved with
  | writer wrote =>
    have same : noteTrail s action trails = trails := by
      unfold noteTrail
      split
      · cases wrote with
        | quiet way => rcases way with same | same <;> cases same
      · rfl
    rw [same]
    exact tracked_writes wrote tracked
  | start here => rw [quietly (by simp [here])]; exact tracked_start tracked
  | crash =>
    have same : noteTrail s .crash trails = trails := by unfold noteTrail; split <;> simp_all
    rw [same]
    exact ⟨fun _ _ => rfl,tracked.cursors,tracked.unborn,tracked.chained,tracked.landed,(idle_walk rfl),trivial⟩
  | storeError calls =>
    have same : noteTrail s .storeError trails = trails := by unfold noteTrail; split <;> simp_all
    rw [same]
    exact tracked.onward alone (idle_walk rfl) trivial
  | setCursor here =>
    simp only [noteTrail,here]
    exact tracked_cursor here tracked
  | probe here way =>
    rw [quietly (by simp [here])]
    have known := walking _ (by rw [here]; rfl)
    rcases way with ⟨v,rfl⟩ | ⟨next,rfl⟩ | rfl
    · exact tracked.onward alone (by rintro w ⟨⟩; exact known) trivial
    · exact tracked.onward alone (by rintro w ⟨⟩; exact known) trivial
    · exact tracked.onward alone (idle_walk rfl) trivial
  | probeEnd here way =>
    rw [quietly (by simp [here])]
    rcases way with ⟨v,rfl⟩ | ⟨next,rfl⟩ | rfl <;> exact tracked.onward alone (idle_walk rfl) trivial
  | page here | again here =>
    rw [quietly (by simp [here])]
    have known := walking _ (by rw [here]; rfl)
    exact tracked.onward alone (by rintro w ⟨⟩; exact known) trivial
  | restart here =>
    rw [quietly (by simp [here])]
    have known := walking _ (by rw [here]; rfl)
    exact tracked.onward alone (by rintro w ⟨⟩; exact ⟨known.1,.inl rfl⟩) trivial
  | failed here | panic here | read here | scored here | vanished here | closed here | lost here | fetchError here =>
    rw [quietly (by simp [here])]
    exact tracked.onward alone (idle_walk rfl) trivial
  | readEnd here way =>
    rw [quietly (by simp [here])]
    rcases way with rfl | ⟨v,rfl⟩ <;> exact tracked.onward alone (idle_walk rfl) trivial
  | @setStart w v now here =>
    rw [quietly (by simp [here])]
    have known := walking _ (by rw [here]; rfl)
    have calm : Calm s.runs (if w.existingStart.isNone then setRunMaxLevStart s.runs w.runId v else s.runs) := by
      split_ifs
      · exact calm_maxLevStart _ _ _
      · exact .refl _
    exact tracked.calmly calm alone (by rintro w ⟨⟩; exact known) trivial
  | abort here => rw [quietly (by simp [here])]; exact tracked.calmly (calm_aborted _ _ _) alone (idle_walk rfl) trivial
  | setEnd here => rw [quietly (by simp [here])]; exact tracked.calmly (calm_maxLevEnd _ _ _) alone (idle_walk rfl) trivial
  | markDone here marked => rw [quietly (by simp [here])]; exact tracked.calmly (calm_done marked) alone (idle_walk rfl) trivial
  | @insert w page now store here sent =>
    rw [quietly (by simp [here])]
    have known := walking _ (by rw [here]; rfl)
    have data := (send_parts sent).2.1
    refine ⟨alone,tracked.cursors,tracked.unborn,tracked.chained,fun runId pk wanted => ?_,?_,?_⟩
    · exact data ▸ tracked.landed runId pk wanted
    · intro w' walks
      cases last : page.endCursor with
      | none => simp [last,walkOf] at walks
      | some cursor =>
        simp only [last,Option.map_some,walkOf,Option.some.injEq] at walks
        subst walks
        exact known
    · cases last : page.endCursor with
      | none => trivial
      | some cursor =>
        refine ⟨last,?_⟩
        have queued : Queued (fun _ => False) s := fun _ _ => False.elim
        exact (queued.send sent).mono fun pk wanted => .inr wanted
  | unheard here dead =>
    rename_i w pending now
    rw [quietly (by simp [here])]
    cases pending with
    | none => exact tracked.onward alone (idle_walk rfl) trivial
    | some pair => simp [flushHeard,here,dead,Stage.live] at heard
  | @flush w pending now store here sent =>
    rw [quietly (by simp [here])]
    have data := (send_parts sent).2.1
    refine ⟨alone,tracked.cursors,tracked.unborn,tracked.chained,fun runId pk wanted => ?_,?_,?_⟩
    · exact data ▸ tracked.landed runId pk wanted
    · cases pending with
      | none => exact idle_walk rfl
      | some pair => rintro w' ⟨⟩; exact walking _ (by rw [here]; rfl)
    · cases pending with
      | none => trivial
      | some pair =>
        rw [Held,here] at held
        have fence := fun live => tracked.alone (by rw [here]; rfl) live
        exact ⟨held.1,(held.2.send sent).mono fun pk wanted => .inl wanted,Fenced.send sent fence⟩
  | await here gone =>
    rename_i w pending now
    rw [quietly (by simp [here])]
    cases pending with
    | none => exact tracked.onward alone (idle_walk rfl) trivial
    | some pair =>
      rw [Held,here] at held
      simp only [flushHeard,here] at heard
      refine tracked.onward alone ?_ ⟨held.1,held.2.2.1 heard⟩
      rintro w' ⟨⟩
      exact walking _ (by rw [here]; rfl)
  | score here _ _ sent =>
    rw [quietly (by simp [here])]
    have data := (send_parts sent).2.1
    refine ⟨alone,tracked.cursors,tracked.unborn,tracked.chained,fun runId pk wanted => ?_,(idle_walk rfl),trivial⟩
    exact data ▸ tracked.landed runId pk wanted

def walkStart : System F × Trails := (System.empty,fun _ => [])

theorem tracked_reached {s : System F × Trails}
    (path : Reached (traced noteTrail step) (fun s action => flushHeard s.1 action = true) walkStart s) :
    Tracked s.1 s.2 := by
  refine path.invariant (fun s => Tracked s.1 s.2) ?_ fun {_ _ _} tracked heard moved => ?_
  · refine ⟨fun _ _ => rfl,nofun,fun _ _ => rfl,?_,?_,idle_walk rfl,trivial⟩
    · intro _ front fetched back split
      cases front <;> cases split
    · rintro _ pk ⟨fetched,walked,_⟩
      cases walked
  · obtain ⟨stepped,noted⟩ := traced_parts moved
    rw [noted]
    exact tracked_step (step_cases stepped) heard tracked

-- A stored cursor stands for the chain of pages up to the page that returned it, all committed.
def CursorDurable (s : System F × Trails) : Prop :=
  ∀ run ∈ s.1.runs.rows, ∀ cursor, run.lastCursor = some cursor →
    (∃ front fetched, s.2 run.runId = front ++ [fetched] ∧ fetched.page.endCursor = some cursor) ∧
      Chained (s.2 run.runId) ∧
      ∀ fetched ∈ s.2 run.runId, ∀ pk ∈ valid fetched.page, pk ∈ s.1.store.committed.pubkey

theorem cursor_durable {s : System F × Trails}
    (path : Reached (traced noteTrail step) (fun s action => flushHeard s.1 action = true) walkStart s) :
    CursorDurable s := by
  intro run stored cursor last
  have tracked := tracked_reached path
  refine ⟨?_,tracked.chained _,fun fetched walked pk wanted => tracked.landed run.runId pk ⟨fetched,walked,wanted⟩⟩
  exact tailCursor_some ((tracked.cursors run stored).symm.trans last)

def samplePk : Str := List.replicate 64 97

def samplePage : AuthorsPage := ⟨[samplePk],some [99]⟩

-- One page inserted, its barrier sent and both messages in the writer's open transaction.
def pageUnderWay : List (Action Unit) :=
  [.start false 0 [] none,.stats (.ok 0),.proceed 0,.page (.ok samplePage),.proceed 0,.proceed 0,.receive,.receive,.begin]

theorem cursor_durable_sample : ∃ s : System Unit × Trails, ∃ run ∈ s.1.runs.rows, run.lastCursor = some [99] ∧
    CursorDurable s := by
  obtain ⟨s,path,found⟩ := replay_final (traced noteTrail step) (fun s action => flushHeard s.1 action = true) walkStart
    (pageUnderWay ++ [.commit,.proceed 0,.proceed 0]) (fun s => s.1.runs.rows.any (·.lastCursor = some [99]))
    (by decide +kernel) (by decide +kernel)
  obtain ⟨run,stored,last⟩ := List.any_eq_true.mp found
  exact ⟨s,run,stored,by simpa using last,cursor_durable path⟩

-- The transaction fails, flush returns Ok all the same, and the cursor moves past the lost page.
theorem cursor_durable_fails : ¬ ∀ s : System Unit × Trails,
    Reached (traced noteTrail step) (fun _ _ => True) walkStart s → CursorDurable s := by
  intro claimed
  obtain ⟨s,path,found⟩ := replay_final (traced noteTrail step) (fun _ _ => True) walkStart
    (pageUnderWay ++ [.fail,.proceed 0,.proceed 0])
    (fun s => s.1.runs.rows.any fun run => run.lastCursor = some [99] ∧
      samplePk ∉ s.1.store.committed.pubkey ∧ (s.2 run.runId).any fun fetched => samplePk ∈ valid fetched.page)
    (by decide +kernel) (by decide +kernel)
  obtain ⟨run,stored,good⟩ := List.any_eq_true.mp found
  obtain ⟨last,missing,walked⟩ := of_decide_eq_true good
  obtain ⟨fetched,member,wanted⟩ := List.any_eq_true.mp walked
  exact missing ((claimed s path run stored _ last).2.2 fetched member _ (by simpa using wanted))

end DeepFry.Spamhunter
