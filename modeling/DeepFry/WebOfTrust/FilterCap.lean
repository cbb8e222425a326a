import DeepFry.WebOfTrust.ChunkCoverage

namespace DeepFry.WebOfTrust.QueryRelay

-- What each step owes the learned cap: its range, that only a drained probe raises it, and that a cap noticed during a probe is not undone.
structure Learned (c : Crawler) (q next : Query) : Prop where
  low : 10 ≤ next.rs.filterCap
  high : next.rs.filterCap ≤ c.filterBatchSize
  raised : q.rs.filterCap < next.rs.filterCap → (∃ a, q.asked.getLast? = some a ∧ a.probe = some next.rs.filterCap ∧ a.drained = true) ∧
    q.refused = false
  kept : ∀ v, next.noticed = some v → next.rs.filterCap ≤ v

-- The store after a probe comes with no rejection received before the probe's EOSE and no cap lowered since the probe was sent, and fits the
-- word; the store after a rejection is not above the cap.
def Meets (q : Query) (action : Action) : Prop :=
  match action,q.pc with
  | .loop,.raising chunk => q.noticed = none ∧ q.refused = false ∧ chunk.batchCap < 2^31
  | .loop,.halving _ _ newVal => newVal ≤ q.rs.filterCap
  | _,_ => True

-- A chunk in flight: the cap has not risen since it was loaded.
structure Flight (c : Crawler) (q : Query) (chunk : Chunk) : Prop where
  cap : q.rs.filterCap ≤ chunk.cap
  word : chunk.cap < 2^31
  probe : chunk.isProbing = true → chunk.cap < chunk.batchCap ∧ chunk.batchCap ≤ chunk.cap * 2 ∧ chunk.batchCap ≤ c.filterBatchSize
  noticed : ∀ v, q.noticed = some v → v < chunk.cap
  sent : ∃ a, q.asked.getLast? = some a ∧ a.probe = if chunk.isProbing then some chunk.batchCap else none

def Sits (c : Crawler) (q : Query) : Pc → Prop
  | .sized _ batchCap => q.rs.filterCap ≤ batchCap ∧ batchCap < 2^31
  | .marking _ batchCap probe => q.rs.filterCap ≤ batchCap ∧ batchCap < 2^31 ∧ batchCap < probe ∧ probe ≤ batchCap * 2 ∧ probe ≤ c.filterBatchSize
  | .subscribing chunk | .draining chunk | .drained chunk | .rejected chunk => Flight c q chunk
  | .raising chunk => Flight c q chunk ∧ chunk.isProbing = true
  | .halving chunk _ newVal => Flight c q chunk ∧ 10 ≤ newVal
  | _ => True

structure Ranged (c : Crawler) (q : Query) : Prop where
  low : 10 ≤ q.rs.filterCap
  high : q.rs.filterCap ≤ c.filterBatchSize
  word : q.rs.filterCap < 2^31
  kept : ∀ v, q.noticed = some v → q.rs.filterCap ≤ v
  swaps : ∀ k old newVal, q.handler k = .swapping old newVal → 10 ≤ newVal ∧ newVal < old
  sits : Sits c q q.pc

section Cap
variable {c : Crawler} {q next : Query} {chunk : Chunk}

theorem halve_low (old : Int) : 10 ≤ halve old 10 := by
  unfold halve
  split <;> omega

theorem halve_lt {old : Int} (above : 10 < old) : halve old 10 < old := by
  unfold halve
  split <;> omega

theorem int32_word {n : Int} (low : 0 ≤ n) (high : n < 2^31) : int32 n = n := by
  unfold int32
  rw [Int.bmod_def]
  norm_num at high ⊢
  omega

theorem int32_wrapped {n : Int} (low : 2^31 ≤ n) (high : n < 2^32) : int32 n < 0 := by
  unfold int32
  rw [Int.bmod_def]
  norm_num at low high ⊢
  omega

-- A lower cap and another handler leave a chunk in flight.
theorem Flight.lower (flight : Flight c q chunk) (cap : next.rs.filterCap ≤ q.rs.filterCap) (asked : next.asked = q.asked)
    (noticed : ∀ v, next.noticed = some v → v < chunk.cap) : Flight c next chunk :=
  ⟨cap.trans flight.cap,flight.word,flight.probe,noticed,by rw [asked]; exact flight.sent⟩

theorem Flight.same (flight : Flight c q chunk) (cap : next.rs.filterCap = q.rs.filterCap) (asked : next.asked = q.asked)
    (noticed : next.noticed = q.noticed) : Flight c next chunk :=
  flight.lower cap.le asked fun v given => flight.noticed v (by rw [← noticed]; exact given)

theorem Sits.lower {pc : Pc} (sits : Sits c q pc) (cap : next.rs.filterCap ≤ q.rs.filterCap) (asked : next.asked = q.asked)
    (noticed : ∀ chunk, pc.chunk = some chunk → Flight c q chunk → ∀ v, next.noticed = some v → v < chunk.cap) : Sits c next pc := by
  cases pc with
  | sized authors batchCap => exact ⟨cap.trans sits.1,sits.2⟩
  | marking authors batchCap probe => exact ⟨cap.trans sits.1,sits.2⟩
  | subscribing chunk => exact Flight.lower sits cap asked (noticed chunk rfl sits)
  | draining chunk => exact Flight.lower sits cap asked (noticed chunk rfl sits)
  | drained chunk => exact Flight.lower sits cap asked (noticed chunk rfl sits)
  | rejected chunk => exact Flight.lower sits cap asked (noticed chunk rfl sits)
  | raising chunk => exact ⟨sits.1.lower cap asked (noticed chunk rfl sits.1),sits.2⟩
  | halving chunk old newVal => exact ⟨sits.1.lower cap asked (noticed chunk rfl sits.1),sits.2⟩
  | ready => trivial
  | top authors => trivial
  | raised chunk => trivial
  | halved chunk old newVal => trivial
  | clearing chunk old newVal => trivial
  | returning err => trivial
  | returned err => trivial

theorem Sits.same {pc : Pc} (sits : Sits c q pc) (cap : next.rs.filterCap = q.rs.filterCap) (asked : next.asked = q.asked)
    (noticed : next.noticed = q.noticed) : Sits c next pc :=
  sits.lower cap.le asked fun _ _ flight v given => flight.noticed v (by rw [← noticed]; exact given)

theorem Flight.send {authors : List Str} {cap batchCap : Int} {isProbing : Bool} {rs : RelayState} (below : rs.filterCap ≤ cap)
    (word : cap < 2^31) (probe : isProbing = true → cap < batchCap ∧ batchCap ≤ cap * 2 ∧ batchCap ≤ c.filterBatchSize) :
    Flight c (QueryRelay.send { q with rs } (chunkOf authors cap batchCap isProbing)) (chunkOf authors cap batchCap isProbing) :=
  ⟨below,word,probe,(fun v none => by cases none),_,List.getLast?_concat,rfl⟩

theorem drainLast_probe {asked : List Asked} {a : Asked} (last : asked.getLast? = some a) :
    ∃ b, (drainLast asked).getLast? = some b ∧ b.probe = a.probe := by
  unfold drainLast
  rw [last]
  exact ⟨{ a with drained := true },List.getLast?_concat,rfl⟩

theorem update_swaps {k : Nat} {stage : Handler} (swaps : ∀ k old newVal, q.handler k = .swapping old newVal → 10 ≤ newVal ∧ newVal < old)
    (entered : ∀ old newVal, stage = .swapping old newVal → 10 ≤ newVal ∧ newVal < old) :
    ∀ j old newVal, Function.update q.handler k stage j = .swapping old newVal → 10 ≤ newVal ∧ newVal < old := by
  intro j old newVal there
  rw [Function.update_apply] at there
  split at there
  · exact entered old newVal there
  · exact swaps j old newVal there

-- With the cap as it was.
theorem Ranged.capped (ranged : Ranged c q) (cap : next.rs.filterCap = q.rs.filterCap)
    (kept : ∀ v, next.noticed = some v → q.rs.filterCap ≤ v)
    (swaps : ∀ k old newVal, next.handler k = .swapping old newVal → 10 ≤ newVal ∧ newVal < old) (sits : Sits c next next.pc) :
    Ranged c next := by
  refine ⟨?_,?_,?_,?_,swaps,sits⟩
  · rw [cap]
    exact ranged.low
  · rw [cap]
    exact ranged.high
  · rw [cap]
    exact ranged.word
  · rw [cap]
    exact kept

theorem Ranged.enter (ranged : Ranged c q) (cap : next.rs.filterCap = q.rs.filterCap) (noticed : next.noticed = q.noticed)
    (handler : next.handler = q.handler) (sits : Sits c next next.pc) : Ranged c next := by
  apply ranged.capped cap _ _ sits
  · rw [noticed]
    exact ranged.kept
  · rw [handler]
    exact ranged.swaps

theorem Ranged.fresh (ranged : Ranged c q) (cap : next.rs.filterCap = q.rs.filterCap) (noticed : next.noticed = none)
    (handler : next.handler = q.handler) (sits : Sits c next next.pc) : Ranged c next := by
  apply ranged.capped cap _ _ sits
  · intro v given
    rw [noticed] at given
    cases given
  · rw [handler]
    exact ranged.swaps

theorem Ranged.handled {k : Nat} {stage : Handler} (ranged : Ranged c q) (pc : next.pc = q.pc) (asked : next.asked = q.asked)
    (cap : next.rs.filterCap = q.rs.filterCap) (noticed : next.noticed = q.noticed) (handler : next.handler = Function.update q.handler k stage)
    (entered : ∀ old newVal, stage = .swapping old newVal → 10 ≤ newVal ∧ newVal < old) : Ranged c next := by
  apply ranged.capped cap
  · rw [noticed]
    exact ranged.kept
  · rw [handler]
    exact update_swaps ranged.swaps entered
  · rw [pc]
    exact ranged.sits.same cap asked noticed

theorem noted_below {newVal v : Int} (below : newVal < q.rs.filterCap) (flight : Flight c q chunk) (given : noted q newVal = some v) : v < chunk.cap := by
  unfold noted at given
  split at given
  · cases given
    exact below.trans_le flight.cap
  · exact flight.noticed v given

theorem noted_kept {newVal v : Int} (below : newVal < q.rs.filterCap) (kept : ∀ v, q.noticed = some v → q.rs.filterCap ≤ v)
    (given : noted q newVal = some v) : newVal ≤ v := by
  unfold noted at given
  split at given
  · cases given
    exact le_refl _
  · exact below.le.trans (kept v given)

theorem inForce_above {filterCap : Int} (low : 10 ≤ filterCap) : inForce filterCap = filterCap := if_neg (by omega)

theorem raise_cap (ranged : Ranged c q) (pc : q.pc = .raising chunk) (small : chunk.batchCap < 2^31) : int32 chunk.batchCap = chunk.batchCap := by
  have sits := ranged.sits
  rw [pc] at sits
  have above := (sits.1.probe sits.2).1
  have below := sits.1.cap
  have low := ranged.low
  exact int32_word (by omega) small

-- The step lemma: where the condition is met, the cap stays in range and is only ever raised by the store after a probe.
theorem Ranged.moved {action : Action} (ranged : Ranged c q) (moved : Moved c q action next) (meets : Meets q action) :
    Ranged c next ∧ (next.rs.filterCap ≤ q.rs.filterCap ∨ ∃ chunk, action = .loop ∧ q.pc = .raising chunk ∧
      next.rs.filterCap = chunk.batchCap) := by
  have sits := ranged.sits
  cases moved with
  | call authors => exact ⟨ranged.fresh rfl rfl rfl trivial,.inl le_rfl⟩
  | closed authors e => exact ⟨ranged.fresh rfl rfl rfl trivial,.inl le_rfl⟩
  | load authors pc some =>
    refine ⟨ranged.enter rfl rfl rfl ?_,.inl le_rfl⟩
    dsimp only [Sits]
    rw [inForce_above ranged.low]
    exact ⟨le_rfl,ranged.word⟩
  | finish pc => exact ⟨ranged.enter rfl rfl rfl trivial,.inl le_rfl⟩
  | tries authors batchCap probe pc above double most =>
    rw [pc] at sits
    exact ⟨ranged.enter rfl rfl rfl ⟨sits.1,sits.2,above,double,most⟩,.inl le_rfl⟩
  | plain authors batchCap pc =>
    rw [pc] at sits
    exact ⟨ranged.fresh rfl rfl rfl (Flight.send sits.1 sits.2 (fun probing => by cases probing)),.inl le_rfl⟩
  | probe authors batchCap probe pc =>
    rw [pc] at sits
    obtain ⟨below,word,above,double,most⟩ := sits
    exact ⟨ranged.fresh rfl rfl rfl (Flight.send below word fun _ => ⟨above,double,most⟩),.inl le_rfl⟩
  | compare chunk pc probing above =>
    rw [pc] at sits
    exact ⟨ranged.enter rfl rfl rfl ⟨Flight.same sits rfl rfl rfl,probing⟩,.inl le_rfl⟩
  | pass chunk pc => exact ⟨ranged.enter rfl rfl rfl trivial,.inl le_rfl⟩
  | raise chunk pc =>
    have small : q.noticed = none ∧ q.refused = false ∧ chunk.batchCap < 2^31 := by
      unfold Meets at meets
      rw [pc] at meets
      exact meets
    rw [pc] at sits
    obtain ⟨above,_,most⟩ := sits.1.probe sits.2
    have below := sits.1.cap
    have low := ranged.low
    have stored := raise_cap ranged pc small.2.2
    refine ⟨⟨?_,?_,?_,?_,ranged.swaps,trivial⟩,.inr ⟨chunk,rfl,pc,stored⟩⟩
    · dsimp only
      omega
    · dsimp only
      omega
    · dsimp only
      omega
    · intro v given
      rw [small.1] at given
      cases given
  | restart chunk pc => exact ⟨ranged.enter rfl rfl rfl trivial,.inl le_rfl⟩
  | reject chunk pc above =>
    rw [pc] at sits
    exact ⟨ranged.enter rfl rfl rfl ⟨Flight.same sits rfl rfl rfl,halve_low _⟩,.inl le_rfl⟩
  | floor chunk e pc => exact ⟨ranged.enter rfl rfl rfl trivial,.inl le_rfl⟩
  | halve chunk old newVal pc =>
    have below : newVal ≤ q.rs.filterCap := by
      unfold Meets at meets
      rw [pc] at meets
      exact meets
    rw [pc] at sits
    refine ⟨⟨sits.2,below.trans ranged.high,Int.lt_of_le_of_lt below ranged.word,?_,ranged.swaps,trivial⟩,.inl below⟩
    intro v given
    exact below.trans (ranged.kept v given)
  | unstreak chunk old newVal pc => exact ⟨ranged.enter rfl rfl rfl trivial,.inl le_rfl⟩
  | excuse chunk old newVal pc probing => exact ⟨ranged.enter rfl rfl rfl trivial,.inl le_rfl⟩
  | blame chunk old newVal e pc plain => exact ⟨ranged.enter rfl rfl rfl trivial,.inl le_rfl⟩
  | leave err pc => exact ⟨ranged.enter rfl rfl rfl trivial,.inl le_rfl⟩
  | subscribed chunk pc =>
    rw [pc] at sits
    exact ⟨ranged.enter rfl rfl rfl (Flight.same sits rfl rfl rfl),.inl le_rfl⟩
  | refused chunk msg pc =>
    rw [pc] at sits
    exact ⟨ranged.enter rfl rfl rfl (Flight.same sits rfl rfl rfl),.inl le_rfl⟩
  | failed msg quick e => exact ⟨ranged.enter rfl rfl rfl trivial,.inl le_rfl⟩
  | expired deadline => exact ⟨ranged.enter rfl rfl rfl trivial,.inl le_rfl⟩
  | eose chunk pc =>
    rw [pc] at sits
    obtain ⟨a,last,probe⟩ := sits.sent
    obtain ⟨b,final,same⟩ := drainLast_probe last
    exact ⟨ranged.enter rfl rfl rfl ⟨sits.cap,sits.word,sits.probe,sits.noticed,b,final,same.trans probe⟩,.inl le_rfl⟩
  | dropped cause e => exact ⟨ranged.enter rfl rfl rfl trivial,.inl le_rfl⟩
  | counted => exact ⟨ranged.enter rfl rfl rfl trivial,.inl le_rfl⟩
  | notice k text => exact ⟨ranged.handled rfl rfl rfl rfl rfl (fun _ _ none => by cases none),.inl le_rfl⟩
  | ignored k text => exact ⟨ranged,.inl le_rfl⟩
  | low k => exact ⟨ranged.handled rfl rfl rfl rfl rfl (fun _ _ none => by cases none),.inl le_rfl⟩
  | loaded k above =>
    refine ⟨ranged.handled rfl rfl rfl rfl rfl ?_,.inl le_rfl⟩
    intro old newVal same
    cases same
    exact ⟨halve_low _,halve_lt above⟩
  | swap k old newVal waits same =>
    obtain ⟨low,less⟩ := ranged.swaps k old newVal waits
    have below : newVal < q.rs.filterCap := by omega
    refine ⟨⟨low,below.le.trans ranged.high,below.trans ranged.word,fun v given => noted_kept below ranged.kept given,
      update_swaps ranged.swaps (fun _ _ none => by cases none),?_⟩,.inl below.le⟩
    exact sits.lower below.le rfl fun chunk _ flight v given => noted_below below flight given
  | retry k => exact ⟨ranged.handled rfl rfl rfl rfl rfl (fun _ _ none => by cases none),.inl le_rfl⟩
  | reset k => exact ⟨ranged.handled rfl rfl rfl rfl rfl (fun _ _ none => by cases none),.inl le_rfl⟩
  | unmark k => exact ⟨ranged.handled rfl rfl rfl rfl rfl (fun _ _ none => by cases none),.inl le_rfl⟩

-- In good standing, a step keeps its promise exactly if it meets the condition.
theorem learned_iff {action : Action} (good : Good c q) (ranged : Ranged c q) (moved : step c q action = some next) :
    Learned c q next ↔ Meets q action := by
  have sits := ranged.sits
  have here := good.mark
  constructor
  · intro learned
    unfold Meets
    split
    · rename_i chunk pc
      unfold step loopStep at moved
      rw [pc] at moved sits
      cases moved
      obtain ⟨above,double,_⟩ := sits.1.probe sits.2
      have below := sits.1.cap
      have word := sits.1.word
      have low := ranged.low
      have small : chunk.batchCap < 2^31 := by
        by_contra wide
        have negative := int32_wrapped (not_lt.mp wide) (by omega)
        have stays : 10 ≤ int32 chunk.batchCap := learned.low
        omega
      have stored := raise_cap ranged pc small
      refine ⟨?_,(learned.raised ?_).2,small⟩
      rotate_left
      · change q.rs.filterCap < int32 chunk.batchCap
        omega
      cases given : q.noticed with
      | none => rfl
      | some v =>
        have less := sits.1.noticed v given
        have kept : int32 chunk.batchCap ≤ v := learned.kept v given
        omega
    · rename_i chunk old newVal pc
      unfold step loopStep at moved
      rw [pc] at moved here
      cases moved
      by_contra above
      obtain ⟨⟨a,last,_,drained⟩,_⟩ := learned.raised (not_le.mp above)
      obtain ⟨done,b,shape,_,undrained⟩ := here.last
      rw [shape,List.getLast?_concat] at last
      cases last
      rw [undrained] at drained
      cases drained
    · trivial
  · intro meets
    obtain ⟨after,cap⟩ := ranged.moved (step_moved moved) meets
    refine ⟨after.low,after.high,?_,after.kept⟩
    intro raised
    rcases cap with lower | ⟨chunk,acted,pc,stored⟩
    · exact absurd raised (not_lt.mpr lower)
    · cases acted
      have met : q.noticed = none ∧ q.refused = false ∧ chunk.batchCap < 2^31 := by
        unfold Meets at meets
        rw [pc] at meets
        exact meets
      rw [pc] at sits here
      obtain ⟨a,last,probe⟩ := sits.1.sent
      rw [if_pos sits.2] at probe
      exact ⟨⟨a,last,by rw [probe,stored],here.drained a (List.mem_of_getLast? last)⟩,met.2.1⟩

end Cap
-- The steps of a run: each state, what happened there, and the state after.
def history (c : Crawler) : Query → List Action → Option (List (Query × Action × Query))
  | _,[] => some []
  | q,action :: rest => (step c q action).bind fun next => (history c next rest).map ((q,action,next) :: ·)

theorem history_learned {c : Crawler} {q : Query} {actions : List Action} {trace : List (Query × Action × Query)} (good : Good c q)
    (ranged : Ranged c q) (run : history c q actions = some trace) :
    (∀ t ∈ trace, Learned c t.1 t.2.2) ↔ ∀ t ∈ trace, Meets t.1 t.2.1 := by
  induction actions generalizing q trace with
  | nil =>
    cases run
    exact ⟨fun _ t member => absurd member List.not_mem_nil,fun _ t member => absurd member List.not_mem_nil⟩
  | cons action actions ih =>
    rw [history,Option.bind_eq_some_iff] at run
    obtain ⟨next,moved,later⟩ := run
    obtain ⟨rest,ran,same⟩ := Option.map_eq_some_iff.mp later
    cases same
    have goodNext := good.moved (step_moved moved)
    have here := learned_iff good ranged moved
    rw [List.forall_mem_cons,List.forall_mem_cons]
    constructor
    · intro learned
      have meets := here.mp learned.1
      exact ⟨meets,(ih goodNext (ranged.moved (step_moved moved) meets).1 ran).mp learned.2⟩
    · intro meets
      exact ⟨here.mpr meets.1,(ih goodNext (ranged.moved (step_moved moved) meets.1).1 ran).mpr meets.2⟩

-- Along every run from a cap in range, the cap is learned soundly exactly as far as no notice falls into a probe that is then stored, no
-- stale store follows a rejection, and a stored probe fits the word.
theorem cap_learned (c : Crawler) (url : Str) (cap : Int32) (streak : Int) (probing : Bool) (low : 10 ≤ cap.toInt)
    (high : cap.toInt ≤ c.filterBatchSize) (actions : List Action) (trace : List (Query × Action × Query))
    (run : history c (resting ⟨url,cap.toInt,streak,probing⟩ fun _ => .idle) actions = some trace) :
    (∀ t ∈ trace, Learned c t.1 t.2.2) ↔ ∀ t ∈ trace, Meets t.1 t.2.1 := by
  have good : Good c (resting ⟨url,cap.toInt,streak,probing⟩ fun _ => .idle) := ⟨fun a member => absurd member List.not_mem_nil,trivial⟩
  have ranged : Ranged c (resting ⟨url,cap.toInt,streak,probing⟩ fun _ => .idle) := by
    refine ⟨low,high,Int32.toInt_lt cap,?_,?_,trivial⟩
    · intro v none
      cases none
    · intro k old newVal none
      cases none
  exact history_learned good ranged run

def tooLarge (k : Nat) : List Action := [.notice k (Bytes.text "Error: filter item too large"),.handle k,.handle k,.handle k,.handle k]

def probing (during : List Action) : List Action :=
  [.call (numbered 3) true,.loop,.loop,.loop,.subscribed] ++ during ++ [.eose,.loop,.loop]

theorem cap_learned_probe : ∃ trace, history hundred (resting ⟨[],50,10,false⟩ fun _ => .idle) (probing []) = some trace ∧
    ((∀ t ∈ trace, Learned hundred t.1 t.2.2) ↔ ∀ t ∈ trace, Meets t.1 t.2.1) := by
  have runs : (history hundred (resting ⟨[],50,10,false⟩ fun _ => .idle) (probing [])).isSome = true := by decide +kernel
  obtain ⟨trace,run⟩ := Option.isSome_iff_exists.mp runs
  exact ⟨trace,run,cap_learned hundred [] 50 10 false (by decide) (by decide) (probing []) trace run⟩

def staleStore : List Action :=
  [.call (numbered 3) true,.loop,.loop,.subscribeFailed (Bytes.text "failed to write: connection closed") true,.loop] ++ tooLarge 0 ++ tooLarge 1 ++
    [.loop]

-- A cap of 25 noticed during a probe becomes 100 when the probe ends, a cap of 25 noticed during a rejection becomes 50, and at the floor a
-- probe that was rejected by a notice is stored all the same.
theorem cap_learned_fails : (∃ trace, history hundred (resting ⟨[],50,10,false⟩ fun _ => .idle) (probing (tooLarge 0)) = some trace ∧
      ¬ ∀ t ∈ trace, Learned hundred t.1 t.2.2) ∧
    (∃ trace, history hundred (resting ⟨[],100,0,false⟩ fun _ => .idle) staleStore = some trace ∧ ¬ ∀ t ∈ trace, Learned hundred t.1 t.2.2) ∧
    ∃ trace, history hundred (resting ⟨[],10,10,false⟩ fun _ => .idle) (probing (tooLarge 0 |>.take 2)) = some trace ∧
      ¬ ∀ t ∈ trace, Learned hundred t.1 t.2.2 := by
  have undone : (history hundred (resting ⟨[],50,10,false⟩ fun _ => .idle) (probing (tooLarge 0))).any (fun trace => trace.any fun t =>
      decide (t.2.2.noticed = some 25 ∧ t.2.2.rs.filterCap = 100)) = true := by decide +kernel
  have stale : (history hundred (resting ⟨[],100,0,false⟩ fun _ => .idle) staleStore).any (fun trace => trace.any fun t =>
      decide (t.1.rs.filterCap = 25 ∧ t.2.2.rs.filterCap = 50 ∧ t.1.asked.all fun a => !a.drained)) = true := by decide +kernel
  have floor : (history hundred (resting ⟨[],10,10,false⟩ fun _ => .idle) (probing (tooLarge 0 |>.take 2))).any (fun trace => trace.any fun t =>
      decide (t.1.refused = true ∧ t.1.rs.filterCap = 10 ∧ t.2.2.rs.filterCap = 20)) = true := by decide +kernel
  obtain ⟨trace,run,found⟩ := (Option.any_eq_true _ _).mp undone
  obtain ⟨other,ran,seen⟩ := (Option.any_eq_true _ _).mp stale
  obtain ⟨third,went,met⟩ := (Option.any_eq_true _ _).mp floor
  refine ⟨⟨trace,run,?_⟩,⟨other,ran,?_⟩,third,went,?_⟩
  · intro learned
    obtain ⟨t,member,shape⟩ := List.any_eq_true.mp found
    obtain ⟨noticed,cap⟩ := of_decide_eq_true shape
    have kept := (learned t member).kept 25 noticed
    omega
  · intro learned
    obtain ⟨t,member,shape⟩ := List.any_eq_true.mp seen
    obtain ⟨before,after,missing⟩ := of_decide_eq_true shape
    obtain ⟨⟨a,last,_,drained⟩,_⟩ := (learned t member).raised (by omega)
    have undrained := List.all_eq_true.mp missing a (List.mem_of_getLast? last)
    rw [drained] at undrained
    cases undrained
  · intro learned
    obtain ⟨t,member,shape⟩ := List.any_eq_true.mp met
    obtain ⟨rejected,before,after⟩ := of_decide_eq_true shape
    have unrejected := ((learned t member).raised (by omega)).2
    rw [rejected] at unrejected
    cases unrejected

end DeepFry.WebOfTrust.QueryRelay
