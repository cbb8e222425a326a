import DeepFry.Lib.Machine
import DeepFry.WebOfTrust.Dispatch

namespace DeepFry.WebOfTrust.RelayPool

-- Times and durations in nanoseconds.
def initialBackoff : Int := 30 * 1000000000

def maxBackoff : Int := 5 * 60 * 1000000000

-- strikes, misses, downs and downAt are what the run has seen of the relay; nothing reads them. strikes: the failures of a class since
-- its counter was last cleared; misses: the failed dials since the relay was last connected or cleared; downs: the failures since it
-- was last connected, the last of them at downAt.
structure RelayState where
  pointer : Nat
  url : Str
  conn : Bool
  alive : Bool
  backoff : Int
  retryAt : Option Int
  fails : FailureClass → Nat
  strikes : FailureClass → Nat
  misses : Nat
  downs : Nat
  downAt : Int

-- The two lists of the configuration that the crawler writes.
structure Config where
  relayUrls : List Str
  ejectedRelays : List Str

-- viper is what the process holds, disk what the last write left, torn whether that write broke off. ejected: the relays onConnectFail
-- was called for, each with whether the configuration was written then. launched: the relays made so far.
structure State where
  relays : List RelayState
  forwardRelay : Option RelayState
  viper : Config
  disk : Config
  torn : Bool
  ejected : List (RelayState × Bool)
  launched : Nat

def fresh (pointer : Nat) (url : Str) : RelayState where
  pointer := pointer
  url := url
  conn := false
  alive := false
  backoff := initialBackoff
  retryAt := none
  fails _ := 0
  strikes _ := 0
  misses := 0
  downs := 0
  downAt := 0

def threshold (ejectionThresholds : FailureClass → Int) (class_ : FailureClass) : Int :=
  if ejectionThresholds class_ ≤ 0 then 10 else ejectionThresholds class_

namespace RelayState

-- retryAt is set from the clock, and the next wait is twice as long.
def postpone (now : Int) (rs : RelayState) : RelayState := { rs with
  retryAt := some (now + rs.backoff)
  backoff := if rs.backoff * 2 > maxBackoff then maxBackoff else rs.backoff * 2
  downs := rs.downs + 1
  downAt := now }

def strike (class_ : FailureClass) (rs : RelayState) : RelayState := { rs with
  fails := Function.update rs.fails class_ (rs.fails class_ + 1)
  strikes := Function.update rs.strikes class_ (rs.strikes class_ + 1) }

def down (rs : RelayState) : RelayState := { rs with conn := false, alive := false }

def clear (class_ : FailureClass) (rs : RelayState) : RelayState := { rs with
  fails := Function.update rs.fails class_ 0
  strikes := Function.update rs.strikes class_ 0
  misses := if class_ = .classTransport then 0 else rs.misses }

-- Every counter is halved.
def connect (rs : RelayState) : RelayState := { rs with
  conn := true
  alive := true
  backoff := initialBackoff
  fails := fun class_ => rs.fails class_ / 2
  misses := 0
  downs := 0 }

def miss (rs : RelayState) : RelayState := { rs.strike .classTransport with misses := rs.misses + 1 }

end RelayState

-- The new lists, and whether they are to be written.
def ejectRelayURL (url : Str) (c : Config) : Config × Bool :=
  let filtered := c.relayUrls.filter (· ≠ url)
  let removed := filtered.length ≠ c.relayUrls.length
  let alreadyEjected := url ∈ c.ejectedRelays
  if ¬ removed ∧ alreadyEjected then (c,false)
  else (⟨filtered,if alreadyEjected then c.ejectedRelays else c.ejectedRelays ++ [url]⟩,true)

-- viper.WriteConfig truncates the file before it writes it. refused: it failed before that; torn: it failed after that, and the file
-- reads as something else from then on.
inductive WriteResult where
  | written
  | refused
  | torn (left : Config)

-- A failed write is only logged.
def onConnectFail (writes : Nat → WriteResult) (s : State) (rs : RelayState) : State :=
  let (viper,due) := ejectRelayURL rs.url s.viper
  match if due then writes rs.pointer else .refused with
  | .written => { s with viper := viper, disk := viper, torn := false, ejected := s.ejected ++ [(rs,true)] }
  | .refused => { s with viper := viper, ejected := s.ejected ++ [(rs,false)] }
  | .torn left => { s with viper := viper, disk := left, torn := true, ejected := s.ejected ++ [(rs,false)] }

-- The loops of markRelayDead and ReconnectRelays: each relay is judged once, and stays or is ejected.
def visit (judge : RelayState → RelayState × Bool) (writes : Nat → WriteResult) (s : State) : State :=
  let judged := s.relays.map judge
  ((judged.filter fun verdict => verdict.2).map Prod.fst).foldl (onConnectFail writes)
    { s with relays := (judged.filter fun verdict => !verdict.2).map Prod.fst }

section Step
variable (ejectionThresholds : FailureClass → Int)

def condemn (url : Str) (class_ : FailureClass) (now : Nat → Int) (rs : RelayState) : RelayState × Bool :=
  if rs.url ≠ url then (rs,false)
  else
    let struck := rs.down.strike class_
    if threshold ejectionThresholds class_ ≤ struck.fails class_ then (struck,true)
    else (struck.postpone (now rs.pointer),false)

def markRelayDead (url : Str) (class_ : FailureClass) (now : Nat → Int) (writes : Nat → WriteResult) (s : State) : State :=
  visit (condemn ejectionThresholds url class_ now) writes s

-- One relay's turn in ReconnectRelays: the clock before the dial and after it, how the dial ends, and whether a query
-- goroutine clears the counter between the Add and the Load. Clearing at any other point is a step before or after.
structure Turn where
  now : Int
  dialed : Bool
  cleared : Bool
  failedAt : Int

def early (now : Int) (rs : RelayState) : Bool := rs.retryAt.any fun at_ => decide (now < at_)

def reconnect (turn : Nat → Turn) (rs : RelayState) : RelayState × Bool :=
  let t := turn rs.pointer
  if rs.alive then (rs,false)
  else if early t.now rs then (rs,false)
  else if t.dialed then (rs.connect,false)
  else
    let missed := if t.cleared then rs.miss.clear .classTransport else rs.miss
    if threshold ejectionThresholds .classTransport ≤ missed.fails .classTransport then (missed,true)
    else (missed.postpone t.failedAt,false)

-- The forward relay has no counters and is never ejected.
def reconnectForward (t : Turn) (rs : RelayState) : RelayState :=
  if rs.alive then rs
  else if early t.now rs then rs
  else if t.dialed then { rs with conn := true, alive := true, backoff := initialBackoff, downs := 0 }
  else rs.postpone t.failedAt

def reconnectRelays (turn : Nat → Turn) (forward : Turn) (writes : Nat → WriteResult) (s : State) : State :=
  let swept := visit (reconnect ejectionThresholds turn) writes s
  { swept with forwardRelay := swept.forwardRelay.map (reconnectForward forward) }

-- none: a nil connection is dereferenced.
def forwardEvent (published : Bool) (now : Int) (s : State) : Option State :=
  match s.forwardRelay with
  | none => some s
  | some rs =>
    if !rs.alive then some s
    else if !rs.conn then none
    else if published then some s
    else some { s with forwardRelay := some (rs.down.postpone now) }

-- The outstanding relays of a batch that ends at its quorum are closed without a failure.
def reap (outstanding : Nat → Bool) (rs : RelayState) : RelayState :=
  if rs.alive ∧ outstanding rs.pointer ∧ rs.conn then rs.down else rs

def launch (dial : Nat → Bool) (now : Nat → Int) (pointer : Nat) (url : Str) : RelayState :=
  if dial pointer then { fresh pointer url with conn := true, alive := true }
  else (fresh pointer url).miss.postpone (now pointer)

-- New, on the configuration LoadConfig reads; without one connection it fails and the process ends.
def start (dial : Nat → Bool) (now : Nat → Int) (forwardRelayURL : Option Str) (s : State) : State :=
  let relays := s.disk.relayUrls.zipIdx.map fun (url,i) => launch dial now (s.launched + i) url
  let launched := s.launched + relays.length
  if relays.any RelayState.alive then
    { s with
      relays := relays
      viper := s.disk
      launched := launched + 1
      forwardRelay := forwardRelayURL.map fun url =>
        if dial launched then { fresh launched url with conn := true, alive := true } else fresh launched url }
  else { s with relays := [], forwardRelay := none, viper := s.disk, launched := launched }

inductive Action where
  | start (dial : Nat → Bool) (now : Nat → Int) (forwardRelayURL : Option Str)
  | clear (pointer : Nat) (class_ : FailureClass)
  | markRelayDead (url : Str) (class_ : FailureClass) (now : Nat → Int) (writes : Nat → WriteResult)
  | reap (outstanding : Nat → Bool)
  | reconnectRelays (turn : Nat → Turn) (forward : Turn) (writes : Nat → WriteResult)
  | forwardEvent (published : Bool) (now : Int)

def step (s : State) : Action → Option State
  | .start dial now forwardRelayURL => some (start dial now forwardRelayURL s)
  | .clear pointer class_ => some { s with relays := s.relays.map fun rs => if rs.pointer = pointer then rs.clear class_ else rs }
  | .markRelayDead url class_ now writes => some (markRelayDead ejectionThresholds url class_ now writes s)
  | .reap outstanding => some { s with relays := s.relays.map (reap outstanding) }
  | .reconnectRelays turn forward writes => some (reconnectRelays ejectionThresholds turn forward writes s)
  | .forwardEvent published now => forwardEvent published now s

end Step

-- The wait after the failure that k others went before.
def wait (k : Nat) : Int := min (initialBackoff * 2 ^ k) maxBackoff

theorem wait_zero : wait 0 = initialBackoff := by decide

theorem capped_twice (d limit : Int) (positive : 0 < limit) :
    min (d * 2) limit = if min d limit * 2 > limit then limit else min d limit * 2 := by omega

theorem wait_succ (k : Nat) : wait (k + 1) = if wait k * 2 > maxBackoff then maxBackoff else wait k * 2 := by
  have twice : initialBackoff * 2 ^ (k + 1) = initialBackoff * 2 ^ k * 2 := by ring
  unfold wait
  rw [twice]
  exact capped_twice _ _ (by decide)

-- What holds of a relay whichever way it fails and comes back.
structure RelayState.Sound (rs : RelayState) : Prop where
  linked : rs.conn = rs.alive
  spaced : rs.backoff = wait rs.downs
  dated : 0 < rs.downs → rs.retryAt = some (rs.downAt + wait (rs.downs - 1))
  fair : ∀ class_, rs.fails class_ ≤ rs.strikes class_
  counted : rs.misses ≤ rs.fails .classTransport

namespace RelayState.Sound
variable {rs : RelayState}

theorem fresh (pointer : Nat) (url : Str) : (fresh pointer url).Sound where
  linked := rfl
  spaced := wait_zero.symm
  dated down := absurd down (Nat.lt_irrefl 0)
  fair _ := Nat.le_refl 0
  counted := Nat.le_refl 0

theorem postpone (sound : rs.Sound) (now : Int) : (rs.postpone now).Sound where
  linked := sound.linked
  spaced := by simp only [RelayState.postpone,sound.spaced,wait_succ]
  dated _ := by simp only [RelayState.postpone,sound.spaced,Nat.add_sub_cancel]
  fair := sound.fair
  counted := sound.counted

theorem down (sound : rs.Sound) : rs.down.Sound :=
  ⟨rfl,sound.spaced,sound.dated,sound.fair,sound.counted⟩

theorem strike (sound : rs.Sound) (class_ : FailureClass) : (rs.strike class_).Sound where
  linked := sound.linked
  spaced := sound.spaced
  dated := sound.dated
  fair other := by
    have fair := sound.fair other
    by_cases same : other = class_
    · subst same
      simpa only [RelayState.strike,Function.update_self] using Nat.succ_le_succ fair
    · simpa only [RelayState.strike,Function.update_of_ne same] using fair
  counted := by
    have counted := sound.counted
    simp only [RelayState.strike,Function.update_apply]
    split
    · next same => rw [← same]; omega
    · exact counted

theorem clear (sound : rs.Sound) (class_ : FailureClass) : (rs.clear class_).Sound where
  linked := sound.linked
  spaced := sound.spaced
  dated := sound.dated
  fair other := by
    have fair := sound.fair other
    simp only [RelayState.clear,Function.update_apply]
    split
    · exact Nat.le_refl 0
    · exact fair
  counted := by
    have counted := sound.counted
    simp only [RelayState.clear,Function.update_apply]
    split
    · next same => rw [if_pos same.symm]
    · next other => rw [if_neg (Ne.symm other)]; exact counted

theorem connect (sound : rs.Sound) : rs.connect.Sound where
  linked := rfl
  spaced := wait_zero.symm
  dated down := absurd down (Nat.lt_irrefl 0)
  fair class_ := Nat.le_trans (Nat.div_le_self _ 2) (sound.fair class_)
  counted := Nat.zero_le _

theorem miss (sound : rs.Sound) : rs.miss.Sound where
  linked := sound.linked
  spaced := sound.spaced
  dated := sound.dated
  fair := (sound.strike .classTransport).fair
  counted := by
    have counted := sound.counted
    simpa only [RelayState.miss,RelayState.strike,Function.update_self] using Nat.succ_le_succ counted

end RelayState.Sound

-- New counts the first failure without a look at the threshold.
def limit (ejectionThresholds : FailureClass → Int) (class_ : FailureClass) : Int :=
  if class_ = .classTransport then max (threshold ejectionThresholds class_) 2 else threshold ejectionThresholds class_

structure RelayState.Standing (ejectionThresholds : FailureClass → Int) (rs : RelayState) : Prop extends rs.Sound where
  under : ∀ class_, rs.fails class_ < limit ejectionThresholds class_

structure RelayState.Struck (ejectionThresholds : FailureClass → Int) (rs : RelayState) : Prop extends rs.Sound where
  reached : ∃ class_, threshold ejectionThresholds class_ ≤ rs.fails class_

section Runs
variable {ejectionThresholds : FailureClass → Int} {rs : RelayState} {s : State} {writes : Nat → WriteResult}

theorem threshold_positive (class_ : FailureClass) : 0 < threshold ejectionThresholds class_ := by
  unfold threshold
  split <;> omega

theorem threshold_limit (class_ : FailureClass) : threshold ejectionThresholds class_ ≤ limit ejectionThresholds class_ := by
  unfold limit
  split
  · exact le_max_left _ _
  · exact le_refl _

namespace RelayState.Standing

theorem down (standing : rs.Standing ejectionThresholds) : rs.down.Standing ejectionThresholds :=
  ⟨standing.toSound.down,standing.under⟩

theorem postpone (sound : rs.Sound) (under : ∀ class_, rs.fails class_ < limit ejectionThresholds class_) (now : Int) :
    (rs.postpone now).Standing ejectionThresholds :=
  ⟨sound.postpone now,under⟩

theorem clear (standing : rs.Standing ejectionThresholds) (class_ : FailureClass) :
    (rs.clear class_).Standing ejectionThresholds where
  toSound := standing.toSound.clear class_
  under other := by
    have under := standing.under other
    have positive : 0 < threshold ejectionThresholds other := threshold_positive other
    have bound : threshold ejectionThresholds other ≤ limit ejectionThresholds other := threshold_limit other
    simp only [RelayState.clear,Function.update_apply]
    split
    · push_cast; omega
    · exact under

theorem connect (standing : rs.Standing ejectionThresholds) : rs.connect.Standing ejectionThresholds where
  toSound := standing.toSound.connect
  under class_ := by
    have under := standing.under class_
    have half := Nat.div_le_self (rs.fails class_) 2
    simp only [RelayState.connect]
    omega

-- A counter that stays below its threshold on the way up.
theorem strike_under (standing : rs.Standing ejectionThresholds) {class_ : FailureClass}
    (short : ¬ threshold ejectionThresholds class_ ≤ (rs.strike class_).fails class_) (other : FailureClass) :
    (rs.strike class_).fails other < limit ejectionThresholds other := by
  by_cases same : other = class_
  · subst same
    exact lt_of_lt_of_le (not_le.mp short) (threshold_limit other)
  · have under := standing.under other
    simpa only [RelayState.strike,Function.update_of_ne same] using under

theorem launch (dial : Nat → Bool) (now : Nat → Int) (pointer : Nat) (url : Str) :
    (launch dial now pointer url).Standing ejectionThresholds := by
  have sound := RelayState.Sound.fresh pointer url
  unfold RelayPool.launch
  split
  · refine ⟨⟨rfl,sound.spaced,sound.dated,sound.fair,sound.counted⟩,fun class_ => ?_⟩
    exact lt_of_lt_of_le (threshold_positive class_) (threshold_limit class_)
  · refine .postpone sound.miss (fun class_ => ?_) _
    have positive : 0 < threshold ejectionThresholds class_ := threshold_positive class_
    have bound : threshold ejectionThresholds class_ ≤ limit ejectionThresholds class_ := threshold_limit class_
    cases class_ with
    | classTransport =>
      have two : (2 : Int) ≤ limit ejectionThresholds .classTransport := by simp only [limit,if_true,le_max_right]
      have one : (RelayPool.fresh pointer url).miss.fails .classTransport = 1 := rfl
      rw [one]
      omega
    | classFilterRej => exact lt_of_lt_of_le positive bound
    | classSubFlap => exact lt_of_lt_of_le positive bound

end RelayState.Standing

-- What a loop does with the relay it judges.
structure Verdict (ejectionThresholds : FailureClass → Int) (rs : RelayState) (verdict : RelayState × Bool) : Prop where
  pointer : verdict.1.pointer = rs.pointer
  url : verdict.1.url = rs.url
  kept : verdict.2 = false → verdict.1.Standing ejectionThresholds
  gone : verdict.2 = true → verdict.1.Struck ejectionThresholds

theorem Verdict.stays {after : RelayState} (pointer : after.pointer = rs.pointer) (url : after.url = rs.url)
    (standing : after.Standing ejectionThresholds) : Verdict ejectionThresholds rs (after,false) :=
  ⟨pointer,url,fun _ => standing,(nomatch ·)⟩

theorem Verdict.leaves {after : RelayState} (pointer : after.pointer = rs.pointer) (url : after.url = rs.url)
    (struck : after.Struck ejectionThresholds) : Verdict ejectionThresholds rs (after,true) :=
  ⟨pointer,url,(nomatch ·),fun _ => struck⟩

theorem condemn_verdict (url : Str) (class_ : FailureClass) (now : Nat → Int) (standing : rs.Standing ejectionThresholds) :
    Verdict ejectionThresholds rs (condemn ejectionThresholds url class_ now rs) := by
  have sound := standing.toSound.down.strike class_
  unfold condemn
  split
  · exact .stays rfl rfl standing
  · simp only
    split
    · next reached => exact .leaves rfl rfl ⟨sound,class_,reached⟩
    · next short => exact .stays rfl rfl (.postpone sound (standing.down.strike_under short) _)

theorem reconnect_verdict (turn : Nat → Turn) (standing : rs.Standing ejectionThresholds) :
    Verdict ejectionThresholds rs (reconnect ejectionThresholds turn rs) := by
  unfold reconnect
  simp only
  split_ifs with alive early dialed cleared reached short
  · exact .stays rfl rfl standing
  · exact .stays rfl rfl standing
  · exact .stays rfl rfl standing.connect
  · exact .leaves rfl rfl ⟨standing.toSound.miss.clear _,_,reached⟩
  · refine .stays rfl rfl (.postpone (standing.toSound.miss.clear _) (fun other => ?_) _)
    cases other with
    | classTransport => exact lt_of_lt_of_le (not_le.mp reached) (threshold_limit _)
    | classFilterRej => exact standing.under .classFilterRej
    | classSubFlap => exact standing.under .classSubFlap
  · exact .leaves rfl rfl ⟨standing.toSound.miss,_,short⟩
  · exact .stays rfl rfl (.postpone standing.toSound.miss (standing.strike_under short) _)

theorem reconnectForward_sound (t : Turn) (sound : rs.Sound) : (reconnectForward t rs).Sound := by
  unfold reconnectForward
  split_ifs with alive early dialed
  · exact sound
  · exact sound
  · exact ⟨rfl,wait_zero.symm,fun down => absurd down (Nat.lt_irrefl 0),sound.fair,sound.counted⟩
  · exact sound.postpone _

-- The numbers of the relays a process holds or has ejected.
def State.numbers (s : State) : List Nat := (s.relays ++ s.ejected.map Prod.fst).map RelayState.pointer

-- What an ejection does to everything but the files.
theorem onConnectFail_frame (writes : Nat → WriteResult) (s : State) (rs : RelayState) :
    (onConnectFail writes s rs).relays = s.relays ∧ (onConnectFail writes s rs).forwardRelay = s.forwardRelay ∧
      (onConnectFail writes s rs).launched = s.launched ∧
      (onConnectFail writes s rs).ejected.map Prod.fst = s.ejected.map Prod.fst ++ [rs] := by
  unfold onConnectFail
  dsimp only
  split <;> exact ⟨rfl,rfl,rfl,List.map_append⟩

theorem onConnectFail_fold (writes : Nat → WriteResult) (gone : List RelayState) (s : State) :
    (gone.foldl (onConnectFail writes) s).relays = s.relays ∧
      (gone.foldl (onConnectFail writes) s).forwardRelay = s.forwardRelay ∧
      (gone.foldl (onConnectFail writes) s).launched = s.launched ∧
      (gone.foldl (onConnectFail writes) s).ejected.map Prod.fst = s.ejected.map Prod.fst ++ gone := by
  induction gone generalizing s with
  | nil => exact ⟨rfl,rfl,rfl,(List.append_nil _).symm⟩
  | cons rs rest ih =>
    obtain ⟨relays,forward,launched,ejected⟩ := ih (onConnectFail writes s rs)
    obtain ⟨same,own,count,named⟩ := onConnectFail_frame writes s rs
    refine ⟨relays.trans same,forward.trans own,launched.trans count,ejected.trans ?_⟩
    rw [named,List.append_assoc]
    rfl

-- No relay is lost or doubled on the way.
theorem visit_numbers {judge : RelayState → RelayState × Bool} (same : ∀ rs, (judge rs).1.pointer = rs.pointer)
    (writes : Nat → WriteResult) (s : State) : (visit judge writes s).numbers.Perm s.numbers := by
  have parts := List.filter_append_perm (fun verdict : RelayState × Bool => !verdict.2) (s.relays.map judge)
  simp only [Bool.not_not] at parts
  have whole := (parts.map Prod.fst).map RelayState.pointer
  have kept : ((s.relays.map judge).map Prod.fst).map RelayState.pointer = s.relays.map RelayState.pointer := by
    simp only [List.map_map]
    exact List.map_congr_left fun rs _ => same rs
  rw [kept,List.map_append,List.map_append] at whole
  obtain ⟨relays,-,-,ejected⟩ := onConnectFail_fold writes (((s.relays.map judge).filter fun verdict => verdict.2).map Prod.fst)
    { s with relays := ((s.relays.map judge).filter fun verdict => !verdict.2).map Prod.fst }
  unfold State.numbers visit
  simp only [relays,ejected,List.map_append]
  refine List.Perm.trans ?_ (whole.append_right _)
  rw [List.append_assoc]
  exact List.Perm.append_left _ List.perm_append_comm

structure Governed (ejectionThresholds : FailureClass → Int) (s : State) : Prop where
  standing : ∀ rs ∈ s.relays, rs.Standing ejectionThresholds
  forward : ∀ rs ∈ s.forwardRelay, rs.Sound
  struck : ∀ e ∈ s.ejected, e.1.Struck ejectionThresholds
  distinct : s.numbers.Nodup
  numbered : ∀ n ∈ s.numbers, n < s.launched

theorem launched_pointers (dial : Nat → Bool) (now : Nat → Int) (first : Nat) (urls : List Str) :
    (urls.zipIdx.map fun (url,i) => launch dial now (first + i) url).map RelayState.pointer = List.range' first urls.length := by
  have pointer : ∀ n url, (launch dial now n url).pointer = n := by
    intro n url
    unfold launch
    split <;> rfl
  calc (urls.zipIdx.map fun (url,i) => launch dial now (first + i) url).map RelayState.pointer
    _ = (urls.zipIdx.map Prod.snd).map (first + ·) := by
      simp only [List.map_map]
      exact List.map_congr_left fun entry _ => pointer _ _
    _ = List.range' first urls.length := by rw [List.zipIdx_map_snd,List.map_add_range',Nat.add_zero]

namespace Governed

theorem visit {judge : RelayState → RelayState × Bool} (governed : Governed ejectionThresholds s)
    (verdict : ∀ {rs : RelayState}, rs.Standing ejectionThresholds → Verdict ejectionThresholds rs (judge rs))
    (same : ∀ rs, (judge rs).1.pointer = rs.pointer) (writes : Nat → WriteResult) :
    Governed ejectionThresholds (visit judge writes s) := by
  have numbers := visit_numbers same writes s
  obtain ⟨relays,forward,launched,ejected⟩ := onConnectFail_fold writes
    (((s.relays.map judge).filter fun verdict => verdict.2).map Prod.fst)
    { s with relays := ((s.relays.map judge).filter fun verdict => !verdict.2).map Prod.fst }
  refine ⟨fun rs mem => ?_,fun rs mem => ?_,fun e mem => ?_,numbers.nodup_iff.mpr governed.distinct,fun n mem => ?_⟩
  · rw [RelayPool.visit,relays] at mem
    obtain ⟨after,chosen,rfl⟩ := List.mem_map.mp mem
    obtain ⟨judged,stays⟩ := List.mem_filter.mp chosen
    obtain ⟨before,pooled,rfl⟩ := List.mem_map.mp judged
    exact (verdict (governed.standing before pooled)).kept (by simpa using stays)
  · rw [RelayPool.visit,forward] at mem
    exact governed.forward rs mem
  · have named : e.1 ∈ (RelayPool.visit judge writes s).ejected.map Prod.fst := List.mem_map_of_mem mem
    rw [RelayPool.visit,ejected] at named
    rcases List.mem_append.mp named with earlier | now
    · obtain ⟨before,struck,same⟩ := List.mem_map.mp earlier
      exact same ▸ governed.struck before struck
    · obtain ⟨after,chosen,same⟩ := List.mem_map.mp now
      obtain ⟨judged,leaves⟩ := List.mem_filter.mp chosen
      obtain ⟨rs,pooled,rfl⟩ := List.mem_map.mp judged
      exact same ▸ (verdict (governed.standing rs pooled)).gone leaves
  · have bound := governed.numbered n (numbers.mem_iff.mp mem)
    rw [RelayPool.visit,launched]
    exact bound

-- A change to each relay by itself.
theorem map {change : RelayState → RelayState} (governed : Governed ejectionThresholds s)
    (kept : ∀ {rs : RelayState}, rs.Standing ejectionThresholds → (change rs).Standing ejectionThresholds)
    (same : ∀ rs, (change rs).pointer = rs.pointer) : Governed ejectionThresholds { s with relays := s.relays.map change } := by
  have numbers : State.numbers { s with relays := s.relays.map change } = s.numbers := by
    simp only [State.numbers,List.map_append,List.map_map]
    exact congrArg (· ++ _) (List.map_congr_left fun rs _ => same rs)
  refine ⟨fun rs mem => ?_,governed.forward,governed.struck,numbers ▸ governed.distinct,?_⟩
  · obtain ⟨before,pooled,rfl⟩ := List.mem_map.mp mem
    exact kept (governed.standing before pooled)
  · rw [numbers]
    exact governed.numbered

theorem forwarding {forwardRelay : Option RelayState} (governed : Governed ejectionThresholds s)
    (sound : ∀ rs ∈ forwardRelay, rs.Sound) : Governed ejectionThresholds { s with forwardRelay } :=
  ⟨governed.standing,sound,governed.struck,governed.distinct,governed.numbered⟩

theorem start (governed : Governed ejectionThresholds s) (dial : Nat → Bool) (now : Nat → Int) (forwardRelayURL : Option Str) :
    Governed ejectionThresholds (start dial now forwardRelayURL s) := by
  have gone : ((s.ejected.map Prod.fst).map RelayState.pointer).Sublist s.numbers :=
    (List.sublist_append_right s.relays _).map RelayState.pointer
  have fewer : ∀ n ∈ (s.ejected.map Prod.fst).map RelayState.pointer, n < s.launched :=
    fun n mem => governed.numbered n (gone.subset mem)
  unfold RelayPool.start
  simp only [List.length_map,List.length_zipIdx]
  split
  · refine ⟨fun rs mem => ?_,fun rs mem => ?_,governed.struck,?_,fun n mem => ?_⟩
    · obtain ⟨⟨url,i⟩,_,rfl⟩ := List.mem_map.mp mem
      exact .launch dial now (s.launched + i) url
    · obtain ⟨url,_,rfl⟩ := Option.map_eq_some_iff.mp mem
      have sound := RelayState.Sound.fresh (s.launched + s.disk.relayUrls.length) url
      split
      · exact ⟨rfl,sound.spaced,sound.dated,sound.fair,sound.counted⟩
      · exact sound
    · simp only [State.numbers,List.map_append,launched_pointers]
      refine List.nodup_append.mpr ⟨List.nodup_range' .., governed.distinct.sublist gone,?_⟩
      rintro n new m old rfl
      have less := fewer n old
      have least := (List.mem_range'_1.mp new).1
      omega
    · simp only [State.numbers,List.map_append,launched_pointers,List.mem_append] at mem
      show n < s.launched + s.disk.relayUrls.length + 1
      rcases mem with new | old
      · have less := (List.mem_range'_1.mp new).2
        omega
      · have less := fewer n old
        omega
  · refine ⟨fun rs mem => absurd mem (List.not_mem_nil),fun rs mem => absurd mem (Option.not_mem_none rs),governed.struck,
      governed.distinct.sublist gone,fun n mem => ?_⟩
    have less := fewer n mem
    simp only
    omega

end Governed

theorem step_governed {action : Action} {next : State} (governed : Governed ejectionThresholds s)
    (moved : step ejectionThresholds s action = some next) : Governed ejectionThresholds next := by
  cases action with
  | start dial now forwardRelayURL => cases moved; exact governed.start dial now forwardRelayURL
  | clear pointer class_ =>
    cases moved
    refine governed.map (fun standing => ?_) (fun rs => ?_)
    · split
      · exact standing.clear class_
      · exact standing
    · split <;> rfl
  | markRelayDead url class_ now writes =>
    cases moved
    refine governed.visit (condemn_verdict url class_ now) (fun rs => ?_) writes
    unfold condemn
    simp only
    split_ifs <;> rfl
  | reap outstanding =>
    cases moved
    refine governed.map (fun standing => ?_) (fun rs => ?_)
    · unfold reap
      split
      · exact standing.down
      · exact standing
    · unfold reap
      split <;> rfl
  | reconnectRelays turn forward writes =>
    cases moved
    have swept : Governed ejectionThresholds (visit (reconnect ejectionThresholds turn) writes s) := by
      refine governed.visit (reconnect_verdict turn) (fun rs => ?_) writes
      unfold reconnect
      simp only
      split_ifs <;> rfl
    refine swept.forwarding fun rs mem => ?_
    obtain ⟨before,held,rfl⟩ := Option.map_eq_some_iff.mp mem
    exact reconnectForward_sound forward (swept.forward before held)
  | forwardEvent published now =>
    simp only [step,forwardEvent] at moved
    split at moved
    · cases moved; exact governed
    · next rs held =>
      split_ifs at moved
      · cases moved; exact governed
      · cases moved; exact governed
      · cases moved
        refine governed.forwarding fun after mem => ?_
        cases mem
        exact (governed.forward rs held).down.postpone now

def boot (config : Config) : State := ⟨[],none,config,config,false,[],0⟩

theorem boot_governed (config : Config) : Governed ejectionThresholds (boot config) :=
  ⟨fun _ mem => absurd mem List.not_mem_nil,fun rs mem => absurd mem (Option.not_mem_none rs),
    fun _ mem => absurd mem List.not_mem_nil,List.nodup_nil,fun _ mem => absurd mem List.not_mem_nil⟩

theorem reached_governed {config : Config} {admitted : State → Action → Prop}
    (path : Machine.Reached (step ejectionThresholds) admitted (boot config) s) : Governed ejectionThresholds s :=
  path.invariant _ (boot_governed config) (fun governed _ moved => step_governed governed moved)

-- A forward relay that is alive is connected.
theorem Governed.moves (governed : Governed ejectionThresholds s) (action : Action) :
    (step ejectionThresholds s action).isSome := by
  cases action with
  | forwardEvent published now =>
    simp only [step,forwardEvent]
    split
    · rfl
    · next rs held =>
      have linked := (governed.forward rs held).linked
      split_ifs with dead severed sent
      · rfl
      · rw [linked] at severed
        simp_all
      · rfl
      · rfl
  | _ => rfl

-- Two relays, the first never answers: it is ejected at the first sweep after its wait, and the configuration is written.
def sampleConfig : Config := ⟨[Bytes.text "wss://a",Bytes.text "wss://b"],[]⟩

def sampleRun : List Action :=
  [.start (fun pointer => pointer = 1) (fun _ => 0) none,
    .reconnectRelays (fun _ => ⟨initialBackoff,false,false,initialBackoff⟩) ⟨0,false,false,0⟩ fun _ => .written]

end Runs

end DeepFry.WebOfTrust.RelayPool
