import DeepFry.Lib.Orbit
import DeepFry.Spamhunter.RunBatch

namespace DeepFry.Spamhunter
open Orbit

-- The page loop of one enumeration against an adapter whose reply depends on the cursor alone. A store error only ends it earlier.
abbrev PageServer := Option Str → Except ClientError AuthorsPage

inductive PageOutcome where
  | completed (count : Nat)
  | aborted (e : ClientError)
deriving DecidableEq

-- The requests of one fetch: a retryable error is met again on every attempt.
def requests : Except ClientError AuthorsPage → Nat
  | .ok _ => 1
  | .error e => if isRetryable e then MAX_ATTEMPTS else 1

-- One turn of the loop: the walk goes on, or it ends.
def pageTurn (server : PageServer) (w : Walk) : Walk ⊕ PageOutcome :=
  match server w.after with
  | .error e => if restarts w.after e then .inl { w with after := none } else .inr (.aborted e)
  | .ok page =>
    match page.endCursor with
    | none => .inr (.completed (counted w page).count)
    | some c =>
      let next := advanced (counted w page) c
      if next.limited then .inr (.completed next.count) else .inl next

-- None: more turns are to come. With the outcome comes the number of page requests.
def pageLoop (server : PageServer) : Nat → Walk → Option (PageOutcome × Nat)
  | 0,_ => none
  | turns+1,w =>
    match pageTurn server w with
    | .inr outcome => some (outcome,requests (server w.after))
    | .inl next => (pageLoop server turns next).map fun (outcome,sent) => (outcome,requests (server w.after) + sent)

def Terminates (server : PageServer) (w : Walk) : Prop :=
  ∃ bound, ∀ turns, bound ≤ turns → ∃ outcome sent, pageLoop server turns w = some (outcome,sent) ∧ sent ≤ bound

-- The cursor that the reply to a cursor leads to, and the valid pubkeys it brings.
def follow (server : PageServer) (after : Option Str) : Option (Option Str) :=
  match server after with
  | .error e => if restarts after e then some none else none
  | .ok page => page.endCursor.map some

def gained (server : PageServer) (after : Option Str) : Nat :=
  match server after with
  | .error _ => 0
  | .ok page => (valid page).length

section Turns
variable {server : PageServer} {w : Walk}

-- The limit ends the walk here: the reply is a page with a cursor, and enough pubkeys were seen.
def full (server : PageServer) (w : Walk) : Prop :=
  ∃ lim page, w.limit = some lim ∧ server w.after = .ok page ∧ page.endCursor.isSome ∧ lim ≤ w.count + gained server w.after

def onward (server : PageServer) (w : Walk) (after : Option Str) : Walk := { w with after := after, count := w.count + gained server w.after }

-- A turn goes on exactly when the reply leads to a cursor and the limit does not end the walk.
theorem pageTurn_onward (server : PageServer) (w : Walk) :
    (∃ after, follow server w.after = some after ∧ ¬full server w ∧ pageTurn server w = .inl (onward server w after)) ∨
      (follow server w.after = none ∨ full server w) ∧ ∃ outcome, pageTurn server w = .inr outcome := by
  cases reply : server w.after with
  | error e =>
    have none_full : ¬full server w := by
      intro ended
      obtain ⟨_,page,_,same,_⟩ := ended
      rw [reply] at same
      cases same
    by_cases again : restarts w.after e = true
    · exact .inl ⟨none,by simp [follow,reply,again],none_full,by simp [pageTurn,reply,again,onward,gained]⟩
    · exact .inr ⟨.inl (by simp [follow,reply,again]),.aborted e,by simp [pageTurn,reply,again]⟩
  | ok page =>
    cases cursor : page.endCursor with
    | none => exact .inr ⟨.inl (by simp [follow,reply,cursor]),.completed (counted w page).count,by simp [pageTurn,reply,cursor]⟩
    | some c =>
      have next : advanced (counted w page) c = onward server w (some c) := by
        simp [advanced,counted,onward,gained,reply]
      have limited : (advanced (counted w page) c).limited = true ↔ full server w := by
        unfold Walk.limited full advanced counted
        cases w.limit with
        | none => simp
        | some lim => simp [reply,cursor,gained]
      by_cases ended : full server w
      · refine .inr ⟨.inr ended,.completed (advanced (counted w page) c).count,?_⟩
        simp only [pageTurn,reply,cursor,limited.mpr ended,if_true]
      · refine .inl ⟨some c,by simp [follow,reply,cursor],ended,?_⟩
        have open_ : (advanced (counted w page) c).limited = false := Bool.eq_false_iff.mpr fun closed => ended (limited.mp closed)
        rw [next] at open_
        simp only [pageTurn,reply,cursor,next,open_,Bool.false_eq_true,if_false]

theorem pageLoop_more {turns more : Nat} {result : PageOutcome × Nat} (returned : pageLoop server turns w = some result)
    (enough : turns ≤ more) : pageLoop server more w = some result := by
  induction turns generalizing more w result with
  | zero => cases returned
  | succ turns ih =>
    obtain ⟨spare,rfl⟩ := Nat.exists_eq_add_of_le' (Nat.lt_of_lt_of_le (Nat.succ_pos turns) enough)
    rw [pageLoop] at returned ⊢
    cases turn : pageTurn server w with
    | inr outcome =>
      rw [turn] at returned
      exact returned
    | inl next =>
      rw [turn] at returned
      obtain ⟨later,found,same⟩ := Option.map_eq_some_iff.mp returned
      exact Option.map_eq_some_iff.mpr ⟨later,ih found (by omega),same⟩

-- The loop terminates where some number of turns is enough.
theorem terminates_iff : Terminates server w ↔ ∃ turns, (pageLoop server turns w).isSome := by
  constructor
  · intro terminates
    obtain ⟨bound,ends⟩ := terminates
    obtain ⟨outcome,sent,returned,_⟩ := ends bound (le_refl _)
    exact ⟨bound,by rw [returned]; rfl⟩
  · intro found
    obtain ⟨turns,some_result⟩ := found
    obtain ⟨result,returned⟩ := Option.isSome_iff_exists.mp some_result
    refine ⟨turns + result.2,?_⟩
    intro more enough
    exact ⟨result.1,result.2,pageLoop_more returned (by omega),by omega⟩

end Turns

section Trail
variable {server : PageServer} {w : Walk}

def trail (server : PageServer) (w : Walk) : Nat → Option (Option Str) := orbit (follow server) w.after

def found (server : PageServer) (w : Walk) : Nat → Nat := total (follow server) (gained server) w.after

-- The walk when it has gone on k times.
def along (server : PageServer) (w : Walk) (k : Nat) (after : Option Str) : Walk := { w with after := after, count := w.count + found server w k }

-- Forever: every cursor on the trail leads on, and no page on it is where the limit ends the walk.
def Forever (server : PageServer) (w : Walk) : Prop := ∀ k, ∃ after, trail server w k = some after ∧ ¬full server (along server w k after)

theorem trail_succ {k : Nat} {after : Option Str} (here : trail server w k = some after) : trail server w (k+1) = follow server after := by
  have step : trail server w (k+1) = (trail server w k).bind (follow server) := rfl
  rw [step,here]
  rfl

theorem along_onward {k : Nat} {after next : Option Str} (here : trail server w k = some after) :
    onward server (along server w k after) next = along server w (k+1) next := by
  have weight : found server w (k+1) = found server w k + gained server after := by
    have here : orbit (follow server) w.after k = some after := here
    rw [found,total,here]
    rfl
  simp only [along,onward,weight,Nat.add_assoc]

theorem pageLoop_forever (forever : Forever server w) (turns k : Nat) {after : Option Str} (here : trail server w k = some after) :
    pageLoop server turns (along server w k after) = none := by
  induction turns generalizing k after with
  | zero => rfl
  | succ turns ih =>
    obtain ⟨same,there,open_⟩ := forever k
    rw [here] at there
    cases there
    obtain ⟨next,there,_⟩ := forever (k+1)
    have leads : follow server after = some next := (trail_succ here).symm.trans there
    rw [pageLoop]
    obtain ⟨onto,led,_,turned⟩ | ⟨ended,_⟩ := pageTurn_onward server (along server w k after)
    · rw [turned,along_onward here]
      have same : trail server w (k+1) = some onto := (trail_succ here).trans led
      dsimp only
      rw [ih (k+1) same]
      rfl
    · cases ended with
      | inl stuck =>
        change follow server after = none at stuck
        rw [leads] at stuck
        cases stuck
      | inr closed => exact absurd closed open_

theorem forever_of_none (endless : ∀ turns, pageLoop server turns w = none) : Forever server w := by
  have shifted : ∀ k, ∃ after, trail server w k = some after ∧ ∀ turns, pageLoop server turns (along server w k after) = none := by
    intro k
    induction k with
    | zero =>
      refine ⟨w.after,rfl,?_⟩
      intro turns
      exact endless turns
    | succ k ih =>
      obtain ⟨after,here,none_yet⟩ := ih
      obtain ⟨onto,led,_,turned⟩ | ⟨_,outcome,turned⟩ := pageTurn_onward server (along server w k after)
      · refine ⟨onto,(trail_succ here).trans led,?_⟩
        intro turns
        have more := none_yet (turns+1)
        rw [pageLoop,turned] at more
        dsimp only at more
        rw [along_onward here,Option.map_eq_none_iff] at more
        exact more
      · have once := none_yet 1
        rw [pageLoop,turned] at once
        cases once
  intro k
  obtain ⟨after,here,none_yet⟩ := shifted k
  refine ⟨after,here,?_⟩
  intro closed
  have once := none_yet 1
  rw [pageLoop] at once
  obtain ⟨_,_,open_,_⟩ | ⟨_,outcome,turned⟩ := pageTurn_onward server (along server w k after)
  · exact open_ closed
  · rw [turned] at once
    cases once

theorem terminates_forever : Terminates server w ↔ ¬Forever server w := by
  rw [terminates_iff]
  constructor
  · intro ends forever
    obtain ⟨turns,some_result⟩ := ends
    have none_yet := pageLoop_forever forever turns 0 rfl
    have same : along server w 0 w.after = w := rfl
    rw [same] at none_yet
    rw [none_yet] at some_result
    cases some_result
  · intro finite
    by_contra endless
    apply finite
    apply forever_of_none
    intro turns
    rw [← Option.not_isSome_iff_eq_none]
    intro ended
    exact endless ⟨turns,ended⟩

-- A cursor that comes back ends nothing, unless a limit is set and is reached by then, or the way round brings valid pubkeys.
def Breaks (server : PageServer) (w : Walk) : Prop :=
  ∀ i j, i < j → ∀ after, trail server w i = some after → trail server w j = some after →
    ∃ lim, w.limit = some lim ∧ (lim ≤ w.count + found server w j ∨ found server w i < found server w j)

theorem breaks_of_terminates (terminates : Terminates server w) : Breaks server w := by
  intro i j later after first again
  by_contra stuck
  apply terminates_forever.mp terminates
  obtain ⟨p,rfl⟩ := Nat.exists_eq_add_of_le later.le
  have back : orbit (follow server) w.after i = orbit (follow server) w.after (i + p) := first.trans again.symm
  intro k
  have defined := orbit_defined first again (by omega) k
  obtain ⟨here,there⟩ := Option.isSome_iff_exists.mp defined
  refine ⟨here,there,?_⟩
  intro closed
  obtain ⟨lim,page,limit,reply,_,reached⟩ := closed
  -- A limit that is set is above all that the way brings.
  have flat : found server w i = found server w (i + p) := by
    by_contra rises
    have less := lt_of_le_of_ne (total_mono (Nat.le_add_right i p)) rises
    exact stuck ⟨lim,limit,.inr less⟩
  have most := total_flat back (by omega) flat (k+1)
  have weight : found server w (k+1) = found server w k + gained server here := by
    have there : orbit (follow server) w.after k = some here := there
    rw [found,total,there]
    rfl
  have most : found server w (k+1) ≤ found server w (i + p) := most
  apply stuck
  refine ⟨lim,limit,.inl ?_⟩
  change lim ≤ w.count + found server w k + gained server here at reached
  omega

-- Where an error leads, and that at the null cursor it leads nowhere.
theorem follow_error {after next : Option Str} {e : ClientError} (reply : server after = .error e) (led : follow server after = some next) :
    next = none ∧ after ≠ none := by
  unfold follow at led
  rw [reply] at led
  obtain ⟨again,same⟩ := Option.ite_none_right_eq_some.mp led
  cases same
  refine ⟨rfl,?_⟩
  rintro rfl
  cases e with
  | Graphql code message => cases code <;> simp [restarts] at again
  | Unavailable => cases again
  | PayloadTooLarge => cases again
  | Transport message => cases again

theorem follow_page {after next : Option Str} {page : AuthorsPage} (reply : server after = .ok page) (led : follow server after = some next) :
    ∃ c, page.endCursor = some c ∧ next = some c := by
  unfold follow at led
  rw [reply] at led
  obtain ⟨c,cursor,same⟩ := Option.map_eq_some_iff.mp led
  exact ⟨c,cursor,same.symm⟩

theorem Forever.leads (forever : Forever server w) {k : Nat} {after : Option Str} (here : trail server w k = some after) :
    ∃ next, follow server after = some next ∧ trail server w (k+1) = some next := by
  obtain ⟨next,there,_⟩ := forever (k+1)
  exact ⟨next,(trail_succ here).symm.trans there,there⟩

-- Past any point of the trail a page with a cursor comes: behind the null cursor no restart follows.
theorem Forever.page (forever : Forever server w) (k : Nat) :
    ∃ n, k ≤ n ∧ ∃ after page, trail server w n = some after ∧ server after = .ok page ∧ page.endCursor.isSome := by
  obtain ⟨after,here,_⟩ := forever k
  obtain ⟨next,led,there⟩ := forever.leads here
  cases reply : server after with
  | ok page =>
    obtain ⟨c,cursor,_⟩ := follow_page reply led
    exact ⟨k,le_refl _,after,page,here,reply,by rw [cursor]; rfl⟩
  | error e =>
    obtain ⟨rfl,_⟩ := follow_error reply led
    obtain ⟨further,led,_⟩ := forever.leads there
    cases first : server none with
    | ok page =>
      obtain ⟨c,cursor,_⟩ := follow_page first led
      exact ⟨k+1,Nat.le_succ _,none,page,there,first,by rw [cursor]; rfl⟩
    | error e => exact absurd rfl (follow_error first led).2

-- A limit would have ended it.
theorem Forever.unreached (forever : Forever server w) {lim : Nat} (limit : w.limit = some lim) (k : Nat) :
    ¬lim ≤ w.count + found server w k := by
  intro enough
  obtain ⟨n,later,after,reply,here,answered,cursor⟩ := forever.page k
  obtain ⟨same,there,open_⟩ := forever n
  rw [here] at there
  cases there
  apply open_
  refine ⟨lim,reply,limit,answered,cursor,?_⟩
  have more : found server w k ≤ found server w n := total_mono later
  change lim ≤ w.count + found server w n + gained server after
  omega

-- The cursors a walk can come to.
def cursors (server : PageServer) (w : Walk) : Set (Option Str) :=
  insert w.after (insert none ((fun reply => match reply with
    | Except.ok page => page.endCursor
    | Except.error _ => none) '' Set.range server))

theorem cursors_finite (finite : (Set.range server).Finite) : (cursors server w).Finite := ((finite.image _).insert _).insert _

theorem trail_cursors {k : Nat} {after : Option Str} (here : trail server w k = some after) : after ∈ cursors server w := by
  cases k with
  | zero =>
    cases here
    exact .inl rfl
  | succ k =>
    obtain ⟨before,there,led⟩ := Option.bind_eq_some_iff.mp here
    cases reply : server before with
    | error e => exact .inr (.inl (follow_error reply led).1)
    | ok page =>
      obtain ⟨c,cursor,same⟩ := follow_page reply led
      refine .inr (.inr ⟨server before,⟨before,rfl⟩,?_⟩)
      rw [reply,same]
      exact cursor

theorem terminates_of_breaks (finite : (Set.range server).Finite) (breaks : Breaks server w) : Terminates server w := by
  rw [terminates_forever]
  intro forever
  have inside : ∀ k, ∃ c ∈ cursors server w, orbit (follow server) w.after k = some c := by
    intro k
    obtain ⟨after,here,_⟩ := forever k
    exact ⟨after,trail_cursors here,here⟩
  obtain ⟨i,j,later,after,first,again⟩ := orbit_repeats (cursors_finite finite) inside
  obtain ⟨lim,limit,reached | rises⟩ := breaks i j later after first again
  · exact forever.unreached limit j reached
  · obtain ⟨p,rfl⟩ := Nat.exists_eq_add_of_le later.le
    obtain ⟨k,enough⟩ := total_rises (first.trans again.symm) rises lim
    have enough : lim ≤ found server w k := enough
    exact forever.unreached limit k (by omega)

-- Against finitely many pages the walk terminates exactly when no cursor comes back without a limit that ends it.
theorem enumeration_terminates (finite : (Set.range server).Finite) : Terminates server w ↔ Breaks server w :=
  ⟨breaks_of_terminates,terminates_of_breaks finite⟩

end Trail

-- A server that rejects the cursor of its own first page.
def rejecting : PageServer
  | none => .ok ⟨[],some [99]⟩
  | some _ => .error (.Graphql (some (Bytes.text "INVALID_CURSOR")) [])

def newWalk : Walk := ⟨1,none,none,none,0⟩

theorem rejecting_finite : (Set.range rejecting).Finite := by
  refine ((Set.finite_singleton _).insert _ : ({rejecting none,rejecting (some [])} : Set _).Finite).subset ?_
  intro reply member
  obtain ⟨after,same⟩ := member
  cases after with
  | none => exact .inl same.symm
  | some c => exact .inr same.symm

theorem enumeration_terminates_fails : ¬ ∀ (server : PageServer) (w : Walk), (Set.range server).Finite → Terminates server w := by
  intro always
  have breaks := breaks_of_terminates (always rejecting newWalk rejecting_finite)
  obtain ⟨lim,limit,_⟩ := breaks 0 2 (by decide) none rfl rfl
  cases limit

-- A list of two pages with the cursor 'c' between them.
def shortWalk : PageServer
  | none => .ok ⟨[],some [99]⟩
  | some _ => .ok ⟨[],none⟩

theorem enumeration_terminates_pages : Terminates shortWalk newWalk ∧ Breaks shortWalk newWalk := by
  have finite : (Set.range shortWalk).Finite := by
    refine ((Set.finite_singleton _).insert _ : ({shortWalk none,shortWalk (some [])} : Set _).Finite).subset ?_
    intro reply member
    obtain ⟨after,same⟩ := member
    cases after with
    | none => exact .inl same.symm
    | some c => exact .inr same.symm
  have ends : Terminates shortWalk newWalk := terminates_iff.mpr ⟨2,rfl⟩
  exact ⟨ends,(enumeration_terminates finite).mp ends⟩

end DeepFry.Spamhunter
