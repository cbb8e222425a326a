import DeepFry.Spamhunter.RunBatch

namespace DeepFry.Spamhunter
open Actor

-- What becomes of pubkeys handed to the writer: queued, then fenced by a barrier, then landed.

variable {F : Type} {s next : System F} {action : Action F} {pks : Str → Prop}

def Landed (pks : Str → Prop) (s : System F) : Prop := ∀ pk, pks pk → pk ∈ s.store.committed.pubkey

def Queued (pks : Str → Prop) (s : System F) : Prop :=
  s.store.stage.live = true → ∀ pk, pks pk → pk ∈ (settled execute s.store).pubkey

-- Unacknowledged, the barrier is the last message and the only one of its kind.
def Fenced (pks : Str → Prop) (s : System F) : Prop :=
  (s.acked = true → Landed pks s) ∧
    (s.acked = false → s.store.stage.live = true →
      ∃ front, outstanding s.store = front ++ [.Flush] ∧ front.any isFlush = false)

theorem Queued.mono {fewer : Str → Prop} (queued : Queued pks s) (less : ∀ pk, fewer pk → pks pk) : Queued fewer s :=
  fun live pk wanted => queued live pk (less pk wanted)

theorem stored_stays (pk : Str) (message : WriteMsg F) (db : Tables F) (stored : pk ∈ db.pubkey) :
    pk ∈ (execute message db).pubkey := (execute_pubkey message pk db).mpr (.inr stored)

theorem Landed.queued (landed : Landed pks s) : Queued pks s := by
  intro _ pk wanted
  exact foldl_keeps (stored_stays pk) _ (landed pk wanted)

theorem Landed.commit {store : Thread (Tables F) (WriteMsg F)} (committed : commit execute s.store = some store)
    (landed : Landed pks s) : Landed pks { s with store } := by
  intro pk wanted
  exact commit_keeps (stored_stays pk) committed (landed pk wanted)

-- The writer takes no committed pubkey out.
theorem Landed.writes (wrote : Writes s action next) (landed : Landed pks s) : Landed pks next := by
  cases wrote with
  | quiet _ data => exact fun pk wanted => data ▸ landed pk wanted
  | commit committed => exact landed.commit committed
  | fail failed => exact fun pk wanted => (fail_parts failed).1 ▸ landed pk wanted
  | stop _ stopped => exact fun pk wanted => (stop_parts stopped).2.1 ▸ landed pk wanted

theorem Queued.writes (wrote : Writes s action next) (queued : Queued pks s) : Queued pks next := by
  cases wrote with
  | quiet _ data same live =>
    intro _ pk wanted
    rw [settled,data,same]
    exact queued live pk wanted
  | commit committed =>
    intro _ pk wanted
    rw [settled_commit committed]
    exact queued (by rw [(commit_parts committed).1]; rfl) pk wanted
  | fail failed => intro live; rw [(fail_parts failed).2.1] at live; cases live
  | stop _ stopped => intro live; rw [(stop_parts stopped).2.2.1] at live; cases live

theorem Queued.send {store : Thread (Tables F) (WriteMsg F)} {message : WriteMsg F}
    (sent : send s.store message = some store) (queued : Queued pks s) :
    Queued (fun pk => pks pk ∨ pk ∈ brings message) { s with store } := by
  intro _ pk wanted
  rw [settled_send sent,execute_pubkey]
  rcases wanted with old | new
  · exact .inr (queued (send_parts sent).1 pk old)
  · exact .inl new

-- A barrier that comes after the pubkeys, in a writer with no other barrier.
theorem Fenced.send {store : Thread (Tables F) (WriteMsg F)} (sent : Actor.send s.store .Flush = some store)
    (alone : s.store.stage.live = true → flushing s = false) :
    Fenced pks { s with store, acked := false } := by
  refine ⟨nofun,fun _ _ => ?_⟩
  obtain ⟨live,_,_,more⟩ := send_parts sent
  exact ⟨_,more,alone live⟩

theorem Fenced.writes (wrote : Writes s action next) (queued : Queued pks s) (fenced : Fenced pks s) : Fenced pks next := by
  obtain ⟨heard,waiting⟩ := fenced
  cases wrote with
  | quiet _ data same live live' =>
    refine ⟨fun acked pk wanted => data ▸ heard acked pk wanted,fun unheard _ => ?_⟩
    obtain ⟨front,split,first⟩ := waiting unheard live
    exact ⟨front,same.trans split,first⟩
  | @commit store committed =>
    obtain ⟨stage,stage',queue,data⟩ := commit_parts committed
    have live : s.store.stage.live = true := by rw [stage]; rfl
    cases acked : s.acked with
    | true => exact ⟨fun _ => (heard acked).commit committed,fun unheard => by simp at unheard⟩
    | false =>
      obtain ⟨front,split,first⟩ := waiting acked live
      have parts : s.store.stage.buffer ++ s.store.queue = front ++ [.Flush] := split
      rcases List.eq_nil_or_concat s.store.queue with empty | ⟨rest,last,more⟩
      · -- the barrier was in the batch: nothing is outstanding
        have idle : outstanding store = [] := by rw [outstanding,stage',queue,empty]; rfl
        refine ⟨fun _ pk wanted => ?_,fun unheard => ?_⟩
        · have landed := queued.writes (.commit committed) (by rw [stage']; rfl) pk wanted
          rwa [settled_idle idle] at landed
        · rw [empty,List.append_nil] at parts
          simp [parts,isFlush] at unheard
      · rw [more,List.concat_eq_append,← List.append_assoc] at parts
        obtain ⟨before,tail⟩ := List.append_inj' parts rfl
        cases List.singleton_inj.mp tail
        rw [← before,List.any_append,Bool.or_eq_false_iff] at first
        refine ⟨fun acked' => ?_,fun _ _ => ⟨rest,?_,first.2⟩⟩
        · simp [first.1] at acked'
        · rw [outstanding,stage',queue,more,List.concat_eq_append]; rfl
  | fail failed =>
    obtain ⟨data,dead,_,_⟩ := fail_parts failed
    exact ⟨fun acked pk wanted => data ▸ heard acked pk wanted,fun _ live => by rw [dead] at live; cases live⟩
  | stop _ stopped =>
    obtain ⟨_,data,dead,_⟩ := stop_parts stopped
    exact ⟨fun acked pk wanted => data ▸ heard acked pk wanted,fun _ live => by rw [dead] at live; cases live⟩

-- A live writer that no longer holds the barrier has acknowledged it.
theorem Fenced.heard (fenced : Fenced pks s) (live : s.store.stage.live = true) (gone : flushing s = false) :
    s.acked = true := by
  by_contra silent
  obtain ⟨front,split,_⟩ := fenced.2 (Bool.eq_false_iff.mpr silent) live
  rw [flushing,split,List.any_append] at gone
  simp [isFlush] at gone

-- Only a walk at its barrier has one outstanding.
def awaiting : Phase → Bool
  | .await .. => true
  | _ => false

def Alone (s : System F) : Prop := awaiting s.phase = false → s.store.stage.live = true → flushing s = false

theorem flushing_writes (wrote : Writes s action next) (alone : flushing s = false)
    (live : next.store.stage.live = true) : flushing next = false := by
  cases wrote with
  | quiet _ _ same => rw [flushing,same]; exact alone
  | commit committed =>
    obtain ⟨_,stage,queue,_⟩ := commit_parts committed
    rw [flushing,outstanding,List.any_append,Bool.or_eq_false_iff] at alone
    rw [flushing,outstanding,stage,queue]
    exact alone.2
  | fail failed => rw [(fail_parts failed).2.1] at live; cases live
  | stop _ stopped => rw [(stop_parts stopped).2.2.1] at live; cases live

theorem outstanding_writes (wrote : Writes s action next) : ∀ message ∈ outstanding next.store, message ∈ outstanding s.store := by
  intro message member
  cases wrote with
  | quiet _ _ same => exact same ▸ member
  | commit committed =>
    obtain ⟨_,stage,queue,_⟩ := commit_parts committed
    rw [outstanding,stage,queue] at member
    exact List.mem_append_right _ member
  | fail failed =>
    obtain ⟨_,stage,queue,_⟩ := fail_parts failed
    rw [outstanding,stage,queue] at member
    exact List.mem_append_right _ member
  | stop _ stopped => rw [(stop_parts stopped).2.2.2] at member; cases member

theorem flushing_send {store : Thread (Tables F) (WriteMsg F)} {message : WriteMsg F} (other : isFlush message = false)
    (sent : send s.store message = some store) (alone : flushing s = false) :
    (outstanding store).any isFlush = false := by
  rw [(send_parts sent).2.2.2,List.any_append,Bool.or_eq_false_iff]
  exact ⟨alone,by simp [other]⟩

theorem alone_step (moved : Step s action next) (alone : Alone s) : Alone next := by
  intro waits live
  cases moved with
  | writer wrote =>
    have kept : next.phase = s.phase ∧ (next.store.stage.live = true → s.store.stage.live = true) := by
      cases wrote with
      | quiet _ _ _ before => exact ⟨rfl,fun _ => before⟩
      | commit committed => exact ⟨rfl,fun _ => by rw [(commit_parts committed).1]; rfl⟩
      | fail failed => exact ⟨rfl,fun _ => (fail_parts failed).2.2.2⟩
      | stop _ stopped => exact ⟨rfl,fun live' => by rw [(stop_parts stopped).2.2.1] at live'; cases live'⟩
    exact flushing_writes wrote (alone (kept.1 ▸ waits) (kept.2 live)) live
  | start => rfl
  | crash => rfl
  | insert here sent => exact flushing_send rfl sent (alone (by rw [here]; rfl) (send_parts sent).1)
  | score here _ _ sent => exact flushing_send rfl sent (alone (by rw [here]; rfl) (send_parts sent).1)
  | flush here sent => cases waits
  | await here gone => exact gone
  | storeError calls => exact alone (by cases here : s.phase <;> simp [here,callsStore] at calls <;> rfl) live
  | probe here | probeEnd here | page here | again here | restart here | failed here | setStart here | abort here
  | panic here | unheard here | setCursor here | setEnd here | read here | scored here | readEnd here | vanished here
  | markDone here | closed here | lost here | fetchError here => exact alone (by rw [here]; rfl) live

end DeepFry.Spamhunter
