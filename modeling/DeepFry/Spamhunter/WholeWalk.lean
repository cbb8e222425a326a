import DeepFry.Spamhunter.Cursor

namespace DeepFry.Spamhunter
open Actor Machine

variable {F : Type} {s next : System F} {action : Action F}

-- A server whose paginated key list does not change. A page lists the keys from the place of its
-- cursor on, the cursor it returns stands for the place after it, and no cursor means the end.
structure Server where
  keys : List Str
  serve : Option Str → AuthorsPage
  position : Option Str → Nat
  start : position none = 0
  serves : ∀ after, (serve after).authors <+: keys.drop (position after)
  onward : ∀ after cursor, (serve after).endCursor = some cursor →
    position (some cursor) = position after + (serve after).authors.length
  ending : ∀ after, (serve after).endCursor = none → keys.length ≤ position after + (serve after).authors.length

-- The valid keys before a place of the list.
def Server.before (server : Server) (place : Nat) (pk : Str) : Prop :=
  pk ∈ server.keys.take place ∧ isValidPubkey pk = true

def Server.holds (server : Server) (pk : Str) : Prop := pk ∈ server.keys ∧ isValidPubkey pk = true

-- Every write succeeds, no page limit is set, and a page that arrives is the server's page.
def steady (server : Server) (s : System F) : Action F → Bool
  | .fail | .storeError => false
  | .start _ _ _ limit => limit.isNone
  | .page (.ok page) =>
    match s.phase with
    | .fetch w _ => page = server.serve w.after
    | _ => true
  | _ => true

-- The run of the walk that was started last.
def noteWalk (s : System F) (action : Action F) (last : Option Nat) : Option Nat :=
  match s.phase,action with
  | .off,.start resume now configJson limit => some (select resume now configJson limit s.runs).1.runId
  | _,_ => last

theorem Server.page_before {server : Server} {after : Option Str} {place : Nat}
    (reach : place ≤ server.position after + (server.serve after).authors.length) {pk : Str}
    (known : server.before place pk) :
    server.before (server.position after) pk ∨ pk ∈ valid (server.serve after) := by
  obtain ⟨member,shaped⟩ := known
  have wider := (List.take_sublist_take_left reach).subset member
  rw [List.take_add,← List.prefix_iff_eq_take.mp (server.serves after),List.mem_append] at wider
  rcases wider with old | new
  · exact .inl ⟨old,shaped⟩
  · exact .inr (List.mem_filter.mpr ⟨new,shaped⟩)

theorem Server.valid_holds {server : Server} {after : Option Str} {pk : Str} (member : pk ∈ valid (server.serve after)) :
    server.holds pk := by
  obtain ⟨listed,shaped⟩ := List.mem_filter.mp member
  exact ⟨List.mem_of_mem_drop ((server.serves after).subset listed),shaped⟩

theorem Server.holds_before {server : Server} {pk : Str} (known : server.holds pk) :
    server.before server.keys.length pk := by
  rw [Server.before,List.take_length]
  exact known

-- The page at hand, and what its pubkeys have come to.
def Paged (server : Server) (s : System F) : Prop :=
  match s.phase with
  | .insert w page => page = server.serve w.after
  | .flush w (some (page,cursor)) =>
    page = server.serve w.after ∧ page.endCursor = some cursor ∧ Queued (· ∈ valid page) s
  | .await w (some (page,cursor)) =>
    page = server.serve w.after ∧ page.endCursor = some cursor ∧ Queued (· ∈ valid page) s ∧ Fenced (· ∈ valid page) s
  | .setCursor w page cursor => page = server.serve w.after ∧ page.endCursor = some cursor ∧ Landed (· ∈ valid page) s
  | .flush _ none => Queued server.holds s
  | .await _ none => Queued server.holds s ∧ Fenced server.holds s
  | .probeEnd .. | .setEnd .. | .enumerated .. => Landed server.holds s
  | _ => True

structure Walked (server : Server) (s : System F) : Prop where
  alone : Alone s
  live : ∀ runId, activeRun s.phase = some runId → s.store.stage.live = true
  opened : ∀ runId, activeRun s.phase = some runId → Open s.runs runId
  known : ∀ pk ∈ s.store.committed.pubkey, server.holds pk
  coming : ∀ message ∈ outstanding s.store, ∀ pk ∈ brings message, server.holds pk
  asked : ∀ pk ∈ todoOf s.phase, server.holds pk
  cursors : ∀ run ∈ s.runs.rows, run.status ≠ .done → Landed (server.before (server.position run.lastCursor)) s
  walking : ∀ w, walkOf s.phase = some w → w.limit = none ∧ Landed (server.before (server.position w.after)) s
  paged : Paged server s

theorem holds_batch {server : Server} {batch : List (WriteMsg F)} {db : Tables F}
    (coming : ∀ message ∈ batch, ∀ pk ∈ brings message, server.holds pk) (known : ∀ pk ∈ db.pubkey, server.holds pk) :
    ∀ pk ∈ (batch.foldl (fun db message => execute message db) db).pubkey, server.holds pk := by
  induction batch generalizing db with
  | nil => exact known
  | cons message rest ih =>
    refine ih (fun other member => coming other (List.mem_cons_of_mem _ member)) fun pk stored => ?_
    rcases (execute_pubkey message pk db).mp stored with new | old
    · exact coming message List.mem_cons_self pk new
    · exact known pk old

theorem walked_writes {server : Server} (steady : action ≠ .fail) (wrote : Writes s action next) (walked : Walked server s) :
    Walked server next := by
  obtain ⟨alone,live,opened,known,coming,asked,cursors,walking,paged⟩ := walked
  have same : next.phase = s.phase ∧ next.runs = s.runs := by cases wrote <;> exact ⟨rfl,rfl⟩
  refine ⟨alone_step (.writer wrote) alone,?_,same.1 ▸ same.2 ▸ opened,?_,?_,same.1 ▸ asked,?_,?_,?_⟩
  · intro runId runs
    rw [same.1] at runs
    cases wrote with
    | quiet _ _ _ _ live' => exact live'
    | commit committed => rw [(commit_parts committed).2.1]; rfl
    | fail => exact absurd rfl steady
    | stop closing => rw [closing] at runs; cases runs
  · cases wrote with
    | quiet _ data => exact data ▸ known
    | commit committed =>
      rw [(commit_parts committed).2.2.2]
      exact holds_batch (fun message member => coming message (List.mem_append_left _ member)) known
    | fail => exact absurd rfl steady
    | stop _ stopped => exact (stop_parts stopped).2.1 ▸ known
  · exact fun message member => coming message (outstanding_writes wrote message member)
  · intro run stored unfinished
    rw [same.2] at stored
    exact (cursors run stored unfinished).writes wrote
  · intro w walks
    rw [same.1] at walks
    exact (walking w walks).imp_right fun landed => landed.writes wrote
  · unfold Paged at paged ⊢
    rw [same.1]
    split at paged
    · exact paged
    · exact ⟨paged.1,paged.2.1,paged.2.2.writes wrote⟩
    · exact ⟨paged.1,paged.2.1,paged.2.2.1.writes wrote,paged.2.2.2.writes wrote paged.2.2.1⟩
    · exact ⟨paged.1,paged.2.1,paged.2.2.writes wrote⟩
    · exact paged.writes wrote
    · exact ⟨paged.1.writes wrote,paged.2.writes wrote paged.1⟩
    · exact paged.writes wrote
    · exact paged.writes wrote
    · exact paged.writes wrote
    · trivial

-- A write to the run table that moves no cursor and neither marks done nor reopens a run.
def Gentle (t after : Runs) : Prop :=
  ∀ run ∈ after.rows, ∃ old ∈ t.rows, old.runId = run.runId ∧ old.lastCursor = run.lastCursor ∧
    (old.status = .done ↔ run.status = .done)

theorem Gentle.refl (t : Runs) : Gentle t t := fun run stored => ⟨run,stored,rfl,rfl,Iff.rfl⟩

theorem gentle_update (t : Runs) (runId : Nat) (set : Run → Run) (keeps : ∀ run, (set run).runId = run.runId)
    (same : ∀ run ∈ t.rows, run.runId = runId →
      run.lastCursor = (set run).lastCursor ∧ (run.status = .done ↔ (set run).status = .done)) :
    Gentle t (t.update runId set keeps) := by
  intro run member
  obtain ⟨old,stored,sameId,rfl | ⟨here,rfl⟩⟩ := update_origin member
  · exact ⟨run,stored,rfl,rfl,Iff.rfl⟩
  · exact ⟨old,stored,sameId,same old stored here⟩

theorem gentle_config (t : Runs) (runId : Nat) (configJson : Str) : Gentle t (setRunConfigJson t runId configJson) :=
  gentle_update t _ _ _ fun _ _ _ => ⟨rfl,Iff.rfl⟩

theorem gentle_maxLevStart (t : Runs) (runId : Nat) (v : Int) : Gentle t (setRunMaxLevStart t runId v) :=
  gentle_update t _ _ _ fun _ _ _ => ⟨rfl,Iff.rfl⟩

theorem gentle_maxLevEnd (t : Runs) (runId : Nat) (v : Int) : Gentle t (setRunMaxLevEnd t runId v) :=
  gentle_update t _ _ _ fun _ _ _ => ⟨rfl,Iff.rfl⟩

theorem gentle_aborted {t : Runs} {runId : Nat} {now : Int} (opened : Open t runId) :
    Gentle t (markRunAborted t runId now) :=
  gentle_update t _ _ _ fun run stored here =>
    ⟨rfl,fun done => absurd done (opened run stored here),fun done => by cases done⟩

-- The process moves on.
theorem Walked.onward {server : Server} {runs : Runs} {phase : Phase} (walked : Walked server s)
    (gentle : Gentle s.runs runs) (alone : Alone { s with runs, phase })
    (active : ∀ runId, activeRun phase = some runId → activeRun s.phase = some runId)
    (asked : ∀ pk ∈ todoOf phase, server.holds pk)
    (walking : ∀ w, walkOf phase = some w → w.limit = none ∧ Landed (server.before (server.position w.after)) s)
    (paged : Paged server { s with runs, phase }) : Walked server { s with runs, phase } := by
  refine ⟨alone,fun runId runs => walked.live runId (active runId runs),?_,walked.known,walked.coming,asked,?_,walking,paged⟩
  · intro runId runs run stored same done
    obtain ⟨old,there,sameId,_,closed⟩ := gentle run stored
    exact walked.opened runId (active runId runs) old there (sameId.trans same) (closed.mpr done)
  · intro run stored unfinished
    obtain ⟨old,there,_,same,closed⟩ := gentle run stored
    rw [← same]
    exact walked.cursors old there fun done => unfinished (closed.mp done)

theorem Walked.leaves {server : Server} {phase : Phase} (walked : Walked server s) (alone : Alone { s with phase })
    (idle : activeRun phase = none) (none : walkOf phase = none) (asked : todoOf phase = [])
    (paged : Paged server { s with phase }) : Walked server { s with phase } := by
  refine walked.onward (.refl _) alone (fun _ runs => ?_) (fun pk member => ?_) (fun _ walks => ?_) paged
  · cases idle.symm.trans runs
  · rw [asked] at member; cases member
  · cases none.symm.trans walks

theorem unfinished_before {t runs : Runs} {runId : Nat} {now v : Int} {run : Run}
    (marked : markRunDone t runId now v = some runs) (member : run ∈ runs.rows) (unfinished : run.status ≠ .done) :
    run ∈ t.rows := by
  unfold markRunDone at marked
  split at marked
  · rw [Option.some.injEq] at marked
    rw [← marked] at member
    obtain ⟨old,stored,_,rfl | ⟨_,rfl⟩⟩ := update_origin member
    · exact stored
    · exact absurd rfl unfinished
  · cases marked

theorem walked_start {server : Server} {resume : Bool} {now : Int} {configJson : Str} (walked : Walked server s) :
    Walked server ⟨fresh s.store.committed,false,(select resume now configJson none s.runs).2,
      .probeStart (select resume now configJson none s.runs).1 1⟩ := by
  rcases select_cases resume now configJson none s.runs with ⟨run,_,latest,chosen⟩ | ⟨_,chosen⟩ <;> rw [chosen]
  · obtain ⟨stored,unfinished,_⟩ := latest_some latest
    have gentle : Gentle s.runs (continueRun run configJson none s.runs).2 := gentle_config _ _ _
    refine ⟨fun _ _ => rfl,fun _ _ => rfl,?_,walked.known,nofun,nofun,?_,?_,trivial⟩
    · rintro runId ⟨⟩ other there same done
      obtain ⟨old,known,sameId,_,closed⟩ := gentle other there
      exact unfinished (rows_unique known stored (sameId.trans same) ▸ closed.mpr done)
    · intro other there open_
      obtain ⟨old,known,_,same,closed⟩ := gentle other there
      rw [← same]
      exact walked.cursors old known fun done => open_ (closed.mp done)
    · rintro w ⟨⟩
      exact ⟨rfl,walked.cursors run stored unfinished⟩
  · have nothing : Landed (server.before (server.position none)) s := by
      rintro pk ⟨member,_⟩
      rw [server.start] at member
      cases member
    refine ⟨fun _ _ => rfl,fun _ _ => rfl,?_,walked.known,nofun,nofun,?_,?_,trivial⟩
    · rintro runId ⟨⟩ other there same done
      rcases List.mem_append.mp there with old | new
      · have bound := s.runs.issued other old
        rw [same] at bound
        exact absurd bound (Nat.not_succ_le_self _)
      · cases List.mem_singleton.mp new; cases done
    · intro other there open_
      rcases List.mem_append.mp there with old | new
      · exact walked.cursors other old open_
      · cases List.mem_singleton.mp new; exact nothing
    · rintro w ⟨⟩
      exact ⟨rfl,nothing⟩

-- The page's cursor is set: everything before the place it stands for has landed.
theorem walked_cursor {server : Server} {w : Walk} {page : AuthorsPage} {cursor : Str}
    (here : s.phase = .setCursor w page cursor) (walked : Walked server s) : Walked server { s with
      runs := setRunCursor s.runs w.runId cursor
      phase := .fetch (advanced w cursor) 1 } := by
  obtain ⟨free,landed⟩ := walked.walking w (by rw [here]; rfl)
  have paged := walked.paged
  rw [Paged,here] at paged
  obtain ⟨served,returned,whole⟩ := paged
  subst served
  have through : Landed (server.before (server.position (some cursor))) s := fun pk known => by
    rcases server.page_before (server.onward _ _ returned).le known with old | new
    · exact landed pk old
    · exact whole pk new
  have active : activeRun s.phase = some w.runId := by rw [here]; rfl
  refine ⟨fun _ => walked.alone (by rw [here]; rfl),?_,?_,walked.known,walked.coming,nofun,?_,?_,trivial⟩
  · rintro runId ⟨⟩; exact walked.live _ active
  · rintro runId ⟨⟩; exact (walked.opened _ active).unclosed (unclosed_cursor _ _ _)
  · intro run stored unfinished
    rcases cursor_origin stored with there | ⟨_,set⟩
    · exact walked.cursors run there unfinished
    · rw [set]; exact through
  · rintro w' ⟨⟩
    exact ⟨free,through⟩

-- A message is sent that brings nothing the server does not hold.
theorem Walked.sends {server : Server} {message : WriteMsg F} {store : Thread (Tables F) (WriteMsg F)} {acked : Bool} {phase : Phase}
    (walked : Walked server s) (sent : send s.store message = some store) (brought : ∀ pk ∈ brings message, server.holds pk)
    (alone : Alone ⟨store,acked,s.runs,phase⟩) (active : ∀ runId, activeRun phase = some runId → activeRun s.phase = some runId)
    (asked : ∀ pk ∈ todoOf phase, server.holds pk)
    (walking : ∀ w, walkOf phase = some w → w.limit = none ∧ Landed (server.before (server.position w.after)) s)
    (paged : Paged server ⟨store,acked,s.runs,phase⟩) : Walked server ⟨store,acked,s.runs,phase⟩ := by
  obtain ⟨live,data,stage,more⟩ := send_parts sent
  refine ⟨alone,?_,fun runId runs => walked.opened runId (active runId runs),data.symm ▸ walked.known,?_,asked,?_,?_,paged⟩
  · intro runId _
    rw [stage]
    exact live
  · intro message member
    rw [more,List.mem_append] at member
    rcases member with old | new
    · exact walked.coming message old
    · cases List.mem_singleton.mp new
      exact brought
  · exact fun run stored unfinished pk wanted => data ▸ walked.cursors run stored unfinished pk wanted
  · intro w walks
    obtain ⟨free,landed⟩ := walking w walks
    exact ⟨free,fun pk wanted => data ▸ landed pk wanted⟩

theorem walked_insert {server : Server} {w : Walk} {page : AuthorsPage} {store : Thread (Tables F) (WriteMsg F)}
    (here : s.phase = .insert w page) (sent : send s.store (.Pubkeys (valid page)) = some store)
    (walked : Walked server s) :
    Walked server { s with store, phase := .flush (counted w page) (page.endCursor.map (page,·)) } := by
  have alone := walked.alone
  obtain ⟨free,landed⟩ := walked.walking w (by rw [here]; rfl)
  have served : page = server.serve w.after := by
    have paged := walked.paged
    rwa [Paged,here] at paged
  have active : activeRun s.phase = some w.runId := by rw [here]; rfl
  have stage := (send_parts sent).2.2.1
  refine walked.sends sent (fun pk known => Server.valid_holds (served ▸ known)) ?_ (fun _ runs => active.trans runs) nofun ?_ ?_
  · exact fun _ live' => flushing_send rfl sent (alone (by rw [here]; rfl) (stage ▸ live'))
  · intro w' walks
    cases last : page.endCursor with
    | none => simp [last,walkOf] at walks
    | some cursor =>
      simp only [last,Option.map_some,walkOf,Option.some.injEq] at walks
      subst walks
      exact ⟨free,landed⟩
  · have queued := landed.queued.send sent
    cases last : page.endCursor with
    | none =>
      refine queued.mono fun pk known => ?_
      subst served
      exact server.page_before (server.ending _ last) (Server.holds_before known)
    | some cursor => exact ⟨served,last,queued.mono fun pk wanted => .inr wanted⟩

theorem walked_flush {server : Server} {w : Walk} {pending : Option (AuthorsPage × Str)}
    {store : Thread (Tables F) (WriteMsg F)} (here : s.phase = .flush w pending) (sent : send s.store .Flush = some store)
    (walked : Walked server s) : Walked server { s with store, acked := false, phase := .await w pending } := by
  have walking := walked.walking
  have paged := walked.paged
  have fence := fun live => walked.alone (by rw [here]; rfl) live
  have active : activeRun s.phase = some w.runId := by rw [here]; rfl
  refine walked.sends sent nofun nofun (fun _ runs => active.trans runs) nofun ?_ ?_
  · intro w' walks
    cases pending with
    | none => cases walks
    | some pair =>
      cases walks
      exact walking w (by rw [here]; rfl)
  · rw [Paged,here] at paged
    cases pending with
    | none => exact ⟨(paged.send sent).mono fun pk wanted => .inl wanted,Fenced.send sent fence⟩
    | some pair =>
      exact ⟨paged.1,paged.2.1,(paged.2.2.send sent).mono fun pk wanted => .inl wanted,Fenced.send sent fence⟩

theorem walked_await {server : Server} {w : Walk} {pending : Option (AuthorsPage × Str)}
    (here : s.phase = .await w pending) (gone : flushing s = false) (walked : Walked server s) :
    Walked server { s with phase := afterFlush w pending } := by
  have walking := walked.walking
  have paged := walked.paged
  have active : activeRun s.phase = some w.runId := by rw [here]; rfl
  have live := walked.live _ active
  rw [Paged,here] at paged
  refine walked.onward (.refl _) (fun _ _ => gone) (fun _ runs => ?_) (fun pk asked => ?_) (fun w' walks => ?_) ?_
  · rw [active,← runs]; cases pending <;> rfl
  · cases pending <;> cases asked
  · cases pending with
    | none => cases walks
    | some pair => cases walks; exact walking w (by rw [here]; rfl)
  · cases pending with
    | none => exact paged.2.1 (paged.2.heard live gone)
    | some pair => exact ⟨paged.1,paged.2.1,paged.2.2.2.1 (paged.2.2.2.heard live gone)⟩

theorem walked_score {server : Server} {runId : Nat} {pk : Str} {rest : List Str} {p : Persist F}
    {store : Thread (Tables F) (WriteMsg F)} (here : s.phase = .scoring runId (pk :: rest)) (ownPk : p.pubkey = pk)
    (sent : send s.store (.Score p) = some store) (walked : Walked server s) :
    Walked server { s with store, phase := .scoring runId rest } := by
  have alone := walked.alone
  have asked : ∀ pk' ∈ pk :: rest, server.holds pk' := by
    have asked := walked.asked
    rwa [here] at asked
  have active : activeRun s.phase = some runId := by rw [here]; rfl
  have stage := (send_parts sent).2.2.1
  refine walked.sends sent ?_ ?_ (fun _ runs => active.trans runs) (fun pk' later => asked pk' (List.mem_cons_of_mem _ later)) nofun trivial
  · intro pk' brought
    cases List.mem_singleton.mp brought
    exact ownPk ▸ asked pk List.mem_cons_self
  · exact fun _ live' => flushing_send rfl sent (alone (by rw [here]; rfl) (stage ▸ live'))

theorem walked_step {server : Server} (moved : Step s action next) (steadily : steady server s action = true)
    (walked : Walked server s) : Walked server next := by
  have alone := alone_step moved walked.alone
  have walking := walked.walking
  have paged := walked.paged
  cases moved with
  | writer wrote =>
    refine walked_writes (fun failed => ?_) wrote walked
    subst failed
    cases steadily
  | start here =>
    obtain rfl := Option.isNone_iff_eq_none.mp steadily
    exact walked_start walked
  | crash => exact ⟨fun _ _ => rfl,nofun,nofun,walked.known,nofun,nofun,walked.cursors,nofun,trivial⟩
  | storeError => cases steadily
  | insert here sent => exact walked_insert here sent walked
  | flush here sent => exact walked_flush here sent walked
  | await here gone => exact walked_await here gone walked
  | score here _ ownPk sent => exact walked_score here ownPk sent walked
  | unheard here dead =>
    have live := walked.live _ (by rw [here]; rfl)
    rw [dead] at live
    cases live
  | @setCursor w page cursor now here =>
    have unlimited : (advanced w cursor).limited = false := by
      simp only [Walk.limited,advanced,(walking w (by rw [here]; rfl)).1]
    simp only [unlimited,Bool.false_eq_true,if_false]
    exact walked_cursor here walked
  | probe here way =>
    have known := walking _ (by rw [here]; rfl)
    have active : activeRun s.phase = some _ := congrArg activeRun here
    rcases way with ⟨v,rfl⟩ | ⟨attempt,rfl⟩ | rfl
    · exact walked.onward (.refl _) alone (fun _ runs => active.trans runs) nofun (by rintro w ⟨⟩; exact known) trivial
    · exact walked.onward (.refl _) alone (fun _ runs => active.trans runs) nofun (by rintro w ⟨⟩; exact known) trivial
    · exact walked.leaves alone rfl rfl rfl trivial
  | probeEnd here way =>
    rw [Paged,here] at paged
    have active : activeRun s.phase = some _ := congrArg activeRun here
    rcases way with ⟨v,rfl⟩ | ⟨attempt,rfl⟩ | rfl
    · exact walked.onward (.refl _) alone (fun _ runs => active.trans runs) nofun nofun paged
    · exact walked.onward (.refl _) alone (fun _ runs => active.trans runs) nofun nofun paged
    · exact walked.leaves alone rfl rfl rfl trivial
  | page here =>
    have known := walking _ (by rw [here]; rfl)
    exact walked.onward (.refl _) alone (fun _ runs => (congrArg activeRun here).trans runs) nofun
      (by rintro w ⟨⟩; exact known) (by simp only [steady,here,decide_eq_true_eq] at steadily; exact steadily)
  | again here =>
    have known := walking _ (by rw [here]; rfl)
    exact walked.onward (.refl _) alone (fun _ runs => (congrArg activeRun here).trans runs) nofun
      (by rintro w ⟨⟩; exact known) trivial
  | restart here =>
    have free := (walking _ (by rw [here]; rfl)).1
    refine walked.onward (.refl _) alone (fun _ runs => (congrArg activeRun here).trans runs) nofun ?_ trivial
    rintro w ⟨⟩
    refine ⟨free,fun pk wanted => ?_⟩
    obtain ⟨member,_⟩ := wanted
    rw [server.start] at member
    cases member
  | failed here =>
    exact walked.onward (.refl _) alone (fun _ runs => (congrArg activeRun here).trans runs) nofun nofun trivial
  | panic | vanished | closed | lost | fetchError => exact walked.leaves alone rfl rfl rfl trivial
  | @setStart w v now here =>
    have known := walking _ (by rw [here]; rfl)
    have gentle : Gentle s.runs (if w.existingStart.isNone then setRunMaxLevStart s.runs w.runId v else s.runs) := by
      split_ifs
      · exact gentle_maxLevStart _ _ _
      · exact .refl _
    exact walked.onward gentle alone (fun _ runs => (congrArg activeRun here).trans runs) nofun
      (by rintro w ⟨⟩; exact known) trivial
  | abort here =>
    have opened := walked.opened _ (by rw [here]; rfl)
    exact walked.onward (gentle_aborted opened) alone nofun nofun nofun trivial
  | setEnd here =>
    rw [Paged,here] at paged
    exact walked.onward (gentle_maxLevEnd _ _ _) alone (fun _ runs => (congrArg activeRun here).trans runs) nofun nofun paged
  | read here =>
    refine walked.onward (.refl _) alone (fun _ runs => (congrArg activeRun here).trans runs) ?_ nofun trivial
    intro pk asked
    exact walked.known pk (AList.mem_keys.mpr ((List.mem_insertionSort _).mp asked))
  | scored here =>
    exact walked.onward (.refl _) alone (fun _ runs => (congrArg activeRun here).trans runs) nofun nofun trivial
  | readEnd here way =>
    rcases way with rfl | ⟨v,rfl⟩
    · exact walked.leaves alone rfl rfl rfl trivial
    · exact walked.onward (.refl _) alone (fun _ runs => (congrArg activeRun here).trans runs) nofun nofun trivial
  | markDone here marked =>
    refine ⟨alone,nofun,nofun,walked.known,walked.coming,nofun,fun run stored unfinished => ?_,nofun,trivial⟩
    exact walked.cursors run (unfinished_before marked stored unfinished) unfinished

-- What a step does to the run table.
inductive Rewrites (s : System F) (action : Action F) (runs : Runs) : Prop where
  | gentle : Gentle s.runs runs → Rewrites s action runs
  | select {resume now configJson limit} : s.phase = .off → action = .start resume now configJson limit →
      runs = (select resume now configJson limit s.runs).2 → Rewrites s action runs
  | cursor {w page cursor now} : s.phase = .setCursor w page cursor → action = .proceed now →
      runs = setRunCursor s.runs w.runId cursor → Rewrites s action runs
  | done {runId now v} : s.phase = .markDone runId v → markRunDone s.runs runId now v = some runs → Rewrites s action runs

theorem step_rewrites (moved : Step s action next) (opened : ∀ r, activeRun s.phase = some r → Open s.runs r) :
    Rewrites s action next.runs := by
  cases moved with
  | writer wrote => cases wrote <;> exact .gentle (.refl _)
  | start here => exact .select here rfl rfl
  | setCursor here => exact .cursor here rfl rfl
  | markDone here marked => exact .done here marked
  | setStart here =>
    refine .gentle ?_
    dsimp only
    split_ifs
    · exact gentle_maxLevStart _ _ _
    · exact .refl _
  | abort here => exact .gentle (gentle_aborted (opened _ (by rw [here]; rfl)))
  | setEnd here => exact .gentle (gentle_maxLevEnd _ _ _)
  | probe | probeEnd | page | again | restart | failed | panic | insert | unheard | flush | await | read | scored
  | readEnd | vanished | closed | storeError | lost | score | fetchError | crash => exact .gentle (.refl _)

def isStart : Action F → Bool
  | .start .. => true
  | _ => false

theorem active_step (moved : Step s action next) (plain : isStart action = false) {r : Nat}
    (runs : activeRun next.phase = some r) : activeRun s.phase = some r := by
  cases moved with
  | writer wrote => cases wrote <;> exact runs
  | start => cases plain
  | crash | storeError | fetchError | lost | closed | markDone | vanished | panic | abort => cases runs
  | probe here way | probeEnd here way =>
    rcases way with ⟨v,rfl⟩ | ⟨attempt,rfl⟩ | rfl
    · rw [here]; exact runs
    · rw [here]; exact runs
    · cases runs
  | readEnd here way =>
    rcases way with rfl | ⟨v,rfl⟩
    · cases runs
    · rw [here]; exact runs
  | @unheard w pending now here | @await w pending now here => rw [here]; cases pending <;> exact runs
  | setCursor here =>
    rw [here]
    dsimp only at runs
    split_ifs at runs <;> exact runs
  | page here | again here | restart here | failed here | setStart here | insert here | flush here | setEnd here
  | read here | scored here | score here => rw [here]; exact runs

-- The run of the last walk is the newest of the runs that are not done.
structure Newest (s : System F) (last : Option Nat) : Prop where
  there : ∀ r, last = some r → ∀ run ∈ s.runs.rows, r < run.runId → run.status = .done
  active : ∀ r, activeRun s.phase = some r → last = some r

theorem newest_start {t : Runs} {resume : Bool} {now : Int} {configJson : Str} {limit : Option Nat} :
    ∀ run ∈ (select resume now configJson limit t).2.rows,
      (select resume now configJson limit t).1.runId < run.runId → run.status = .done := by
  intro run member later
  rcases select_cases resume now configJson limit t with ⟨old,_,latest,chosen⟩ | ⟨_,chosen⟩ <;> rw [chosen] at member later
  · obtain ⟨there,known,same,_,closed⟩ := gentle_config t old.runId configJson run member
    by_contra open_
    have bound := (latest_some latest).2.2 there known fun done => open_ (closed.mp done)
    rw [same] at bound
    exact absurd later (not_lt.mpr bound)
  · change t.sequence + 1 < run.runId at later
    have bound := (beginRun now configJson t).issued run member
    change run.runId ≤ t.sequence + 1 at bound
    omega

theorem newest_step {last : Option Nat} (moved : Step s action next)
    (opened : ∀ r, activeRun s.phase = some r → Open s.runs r) (newest : Newest s last) :
    Newest next (noteWalk s action last) := by
  cases plain : isStart action with
  | true =>
    cases moved with
    | start here => simp only [noteWalk,here]; exact ⟨by rintro r ⟨⟩; exact newest_start,by rintro r ⟨⟩; rfl⟩
    | writer wrote =>
      cases wrote with
      | quiet way => rcases way with rfl | rfl <;> cases plain
      | commit | fail | stop => cases plain
    | _ => cases plain
  | false =>
    have same : noteWalk s action last = last := by
      unfold noteWalk
      split
      · cases plain
      · rfl
    rw [same]
    refine ⟨fun r known run stored later => ?_,fun r runs => newest.active r (active_step moved plain runs)⟩
    cases step_rewrites moved opened with
    | gentle gentle =>
      obtain ⟨old,there,same,_,closed⟩ := gentle run stored
      exact closed.mp (newest.there r known old there (same ▸ later))
    | select _ started => rw [started] at plain; cases plain
    | cursor here _ set =>
      rw [set] at stored
      rcases cursor_origin stored with there | ⟨own,_⟩
      · exact newest.there r known run there later
      · have walks := newest.active _ (congrArg activeRun here)
        rw [known,Option.some.injEq] at walks
        omega
    | done here marked =>
      by_contra unfinished
      exact unfinished (newest.there r known run (unfinished_before marked stored unfinished) later)

-- An unfinished walk is what the next resume picks up.
theorem newest_resumed {r : Nat} {now : Int} {configJson : Str} {limit : Option Nat} (newest : Newest s (some r))
    (unfinished : ∃ run ∈ s.runs.rows, run.runId = r ∧ run.status ≠ .done)
    (moved : step s (.start true now configJson limit) = some next) :
    ∃ w, next.phase = .probeStart w 1 ∧ w.runId = r := by
  obtain ⟨run,stored,rfl,open_⟩ := unfinished
  cases step_cases moved with
  | start here =>
    refine ⟨_,rfl,?_⟩
    rcases select_cases true now configJson limit s.runs with ⟨old,_,latest,chosen⟩ | ⟨latest,_⟩
    · obtain ⟨known,unfinished,most⟩ := latest_some latest
      have below : ¬ run.runId < old.runId := fun later => unfinished (newest.there _ rfl old known later)
      rw [chosen]
      exact le_antisymm (not_lt.mp below) (most run stored open_)
    · exact absurd (latest_none (latest rfl) run stored) open_
  | writer wrote =>
    cases wrote with
    | quiet way => rcases way with same | same <;> cases same

-- Only set_run_cursor moves a cursor: every other step leaves each row its cursor, and a new row has none.
theorem cursor_kept (moved : Step s action next) (opened : ∀ r, activeRun s.phase = some r → Open s.runs r)
    (away : ∀ w page cursor, s.phase ≠ .setCursor w page cursor) :
    ∀ run ∈ next.runs.rows, (∃ old ∈ s.runs.rows, old.runId = run.runId ∧ old.lastCursor = run.lastCursor) ∨
      s.runs.sequence < run.runId ∧ run.lastCursor = none := by
  intro run stored
  cases step_rewrites moved opened with
  | gentle gentle =>
    obtain ⟨old,there,same,cursor,_⟩ := gentle run stored
    exact .inl ⟨old,there,same,cursor⟩
  | @select resume now configJson limit _ _ chosen =>
    rw [chosen] at stored
    rcases select_cases resume now configJson limit s.runs with ⟨old,_,_,chosen⟩ | ⟨_,chosen⟩ <;> rw [chosen] at stored
    · obtain ⟨there,known,same,cursor,_⟩ := gentle_config s.runs old.runId configJson run stored
      exact .inl ⟨there,known,same,cursor⟩
    · rcases List.mem_append.mp stored with old | new
      · exact .inl ⟨run,old,rfl,rfl⟩
      · cases List.mem_singleton.mp new; exact .inr ⟨Nat.lt_succ_self _,rfl⟩
  | cursor here => exact absurd here (away _ _ _)
  | done here marked =>
    obtain ⟨old,there,same,cursor⟩ := (calm_done marked).2 run stored
    exact .inl ⟨old,there,same.symm,cursor.symm⟩

-- Before the walk: the table holds nothing the server does not list, and every run is done.
structure Before (server : Server) (s : System F) : Prop where
  idle : s.phase = .off
  empty : outstanding s.store = []
  known : ∀ pk ∈ s.store.committed.pubkey, server.holds pk
  finished : ∀ run ∈ s.runs.rows, run.status = .done

theorem walked_reached {server : Server} {start : System F} (before : Before server start) {s : System F × Option Nat}
    (path : Reached (traced noteWalk step) (fun s action => steady server s.1 action = true) (start,none) s) :
    Walked server s.1 ∧ Newest s.1 s.2 := by
  refine path.invariant (fun s => Walked server s.1 ∧ Newest s.1 s.2) ?_ fun {_ _ _} known steadily moved => ?_
  · obtain ⟨idle,empty,known,finished⟩ := before
    refine ⟨⟨?_,?_,?_,known,?_,?_,?_,?_,?_⟩,nofun,?_⟩
    · exact fun _ _ => by rw [flushing,empty]; rfl
    · intro r runs; rw [idle] at runs; cases runs
    · intro r runs; rw [idle] at runs; cases runs
    · intro message member; rw [empty] at member; cases member
    · intro pk asked; rw [idle] at asked; cases asked
    · exact fun run stored open_ => absurd (finished run stored) open_
    · intro w walks; rw [idle] at walks; cases walks
    · rw [Paged,idle]; trivial
    · intro r runs; rw [idle] at runs; cases runs
  · obtain ⟨stepped,noted⟩ := traced_parts moved
    rw [noted]
    exact ⟨walked_step (step_cases stepped) steadily known.1,newest_step (step_cases stepped) known.1.opened known.2⟩

theorem crash_safe_enumeration {server : Server} {start : System F} (before : Before server start)
    {s : System F × Option Nat}
    (path : Reached (traced noteWalk step) (fun s action => steady server s.1 action = true) (start,none) s) :
    (∀ runId, s.1.phase = .enumerated runId →
      s.1.store.committed.pubkey.keys.Nodup ∧
        ∀ pk, pk ∈ s.1.store.committed.pubkey.keys ↔ pk ∈ server.keys ∧ isValidPubkey pk = true) ∧
    (∀ action next, step s.1 action = some next → (∀ w page cursor, s.1.phase ≠ .setCursor w page cursor) →
      ∀ run ∈ next.runs.rows, (∃ old ∈ s.1.runs.rows, old.runId = run.runId ∧ old.lastCursor = run.lastCursor) ∨
        s.1.runs.sequence < run.runId ∧ run.lastCursor = none) ∧
    (∀ r now configJson limit next, s.2 = some r → (∃ run ∈ s.1.runs.rows, run.runId = r ∧ run.status ≠ .done) →
      step s.1 (.start true now configJson limit) = some next → ∃ w, next.phase = .probeStart w 1 ∧ w.runId = r) := by
  obtain ⟨walked,newest⟩ := walked_reached before path
  refine ⟨fun runId complete => ⟨AList.keys_nodup _,fun pk => ?_⟩,?_,?_⟩
  · have landed := walked.paged
    rw [Paged,complete] at landed
    rw [← AList.mem_keys]
    exact ⟨walked.known pk,landed pk⟩
  · exact fun action next moved away => cursor_kept (step_cases moved) walked.opened away
  · intro r now configJson limit next last unfinished moved
    rw [last] at newest
    exact newest_resumed newest unfinished moved

def firstKey : Str := List.replicate 64 97

def secondKey : Str := List.replicate 64 98

-- Two pages of one key each; every other cursor stands at the end.
def twoPages : Server where
  keys := [firstKey,secondKey]
  serve after := if after = none then ⟨[firstKey],some [1]⟩ else if after = some [1] then ⟨[secondKey],none⟩ else ⟨[],none⟩
  position after := if after = none then 0 else if after = some [1] then 1 else 2
  start := rfl
  serves after := by
    by_cases first : after = none
    · simp [first]
    · by_cases second : after = some [1] <;> simp [first,second]
  onward after cursor := by
    by_cases first : after = none
    · subst first
      rintro ⟨⟩
      rfl
    · by_cases second : after = some [1] <;> simp [first,second]
  ending after := by
    by_cases first : after = none
    · simp [first]
    · by_cases second : after = some [1] <;> simp [first,second]

-- The first page, a crash after its cursor, a resume that is told INVALID_CURSOR and walks both pages again.
def interruptedWalk : List (Action Unit) :=
  let page (p : AuthorsPage) : List (Action Unit) :=
    [.page (.ok p),.proceed 0,.proceed 0,.receive,.receive,.begin,.commit,.proceed 0]
  [.start false 0 [] none,.stats (.ok 0),.proceed 0] ++ page ⟨[firstKey],some [1]⟩ ++ [.proceed 0,.crash,
    .start true 0 [] none,.stats (.ok 0),.proceed 0,.page (.error (.Graphql (some (Bytes.text "INVALID_CURSOR")) []))] ++
    page ⟨[firstKey],some [1]⟩ ++ [.proceed 0,.page (.error .Unavailable)] ++ page ⟨[secondKey],none⟩ ++ [.stats (.ok 0),.proceed 0]

theorem crash_safe_enumeration_sample : ∃ s : System Unit × Option Nat, s.1.phase = .enumerated 1 ∧
    s.1.store.committed.pubkey.keys.Nodup ∧
      ∀ pk, pk ∈ s.1.store.committed.pubkey.keys ↔ pk ∈ [firstKey,secondKey] ∧ isValidPubkey pk = true := by
  obtain ⟨s,path,found⟩ := replay_final (traced noteWalk step) (fun s action => steady twoPages s.1 action = true)
    (System.empty,none) interruptedWalk (fun s => enumeratedRun s.1.phase = some 1)
    (by decide +kernel) (by decide +kernel)
  have complete := enumeratedRun_some (of_decide_eq_true found)
  have before : Before twoPages (System.empty : System Unit) :=
    ⟨rfl,rfl,fun pk stored => absurd stored (AList.notMem_empty pk),fun run stored => absurd stored List.not_mem_nil⟩
  exact ⟨s,complete,(crash_safe_enumeration before path).1 1 complete⟩

end DeepFry.Spamhunter
