import DeepFry.Lib.Machine
import DeepFry.WebOfTrust.QueryRelay

namespace DeepFry.WebOfTrust.QueryRelay

-- At least one author, and at most the cap in force when the chunk was sent or the size that the probe tried.
structure Within (c : Crawler) (a : Asked) : Prop where
  some : 1 ≤ a.authors.length
  plain : a.probe = none → (a.authors.length : Int) ≤ a.sentAt
  probe : ∀ size, a.probe = Option.some size → (a.authors.length : Int) ≤ size ∧ size ≤ c.filterBatchSize

-- No notice had lowered the cap between its load and the REQ, unless to a cap that all the authors left still fitted in.
def Steady (a : Asked) : Prop := a.probe = none → a.cap ≤ a.sentAt ∨ (a.left : Int) ≤ a.sentAt

-- How a chunk is cut, whatever becomes of the cap.
structure Cut (c : Crawler) (a : Asked) : Prop where
  some : 1 ≤ a.authors.length
  plain : a.probe = none → (a.authors.length : Int) = min (a.left : Int) a.cap
  probe : ∀ size, a.probe = Option.some size → (a.authors.length : Int) ≤ size ∧ a.cap < size ∧ size ≤ a.cap * 2 ∧ size ≤ c.filterBatchSize

theorem Cut.within {c : Crawler} {a : Asked} (cut : Cut c a) : Within c a ↔ Steady a := by
  constructor
  · intro within plain
    have fits := within.plain plain
    rw [cut.plain plain,min_le_iff] at fits
    exact fits.symm
  · intro steady
    refine ⟨cut.some,?_,?_⟩
    · intro plain
      rw [cut.plain plain,min_le_iff]
      exact (steady plain).symm
    · intro size tried
      exact ⟨(cut.probe size tried).1,(cut.probe size tried).2.2.2⟩

def asks (asked : List Asked) : List Str := asked.flatMap (·.authors)

def Drained (asked : List Asked) : Prop := ∀ a ∈ asked, a.drained = true

-- The chunks follow each other, make up the call's authors, and were each answered to the end.
def Covers (q : Query) : Prop := asks q.asked = q.call ∧ Drained q.asked

section Chunks
variable {authors : List Str} {cap : Int}

theorem nextAuthorChunk_split (authors : List Str) (cap : Int) :
    nextAuthorChunk authors cap ++ authors.drop (nextAuthorChunk authors cap).length = authors := by
  unfold nextAuthorChunk
  generalize inForce cap = size
  split
  · rename_i long
    rw [List.length_take,Nat.min_eq_left (by omega)]
    exact List.take_append_drop _ _
  · rw [List.drop_length,List.append_nil]

-- The authors that a chunk is cut from.
theorem nextAuthorChunk_left (authors : List Str) (cap : Int) :
    (nextAuthorChunk authors cap).length + (authors.drop (nextAuthorChunk authors cap).length).length = authors.length := by
  rw [← List.length_append,nextAuthorChunk_split]

theorem nextAuthorChunk_cut (positive : 0 < cap) : ((nextAuthorChunk authors cap).length : Int) = min (authors.length : Int) cap := by
  have size : inForce cap = cap := if_neg (by omega)
  unfold nextAuthorChunk
  rw [size]
  split
  · rw [List.length_take]
    omega
  · rename_i short
    omega

theorem nextAuthorChunk_some (some : 0 < authors.length) (positive : 0 < cap) : 1 ≤ (nextAuthorChunk authors cap).length := by
  have cut := @nextAuthorChunk_cut authors cap positive
  omega

theorem nextAuthorChunk_most (positive : 0 < cap) : ((nextAuthorChunk authors cap).length : Int) ≤ cap := by
  rw [nextAuthorChunk_cut positive]
  exact min_le_right _ _

theorem asks_concat (asked : List Asked) (a : Asked) : asks (asked ++ [a]) = asks asked ++ a.authors := by simp [asks]

theorem drainLast_concat (asked : List Asked) (a : Asked) : drainLast (asked ++ [a]) = asked ++ [{ a with drained := true }] := by
  simp [drainLast]
end Chunks

-- Where the call stands: what was asked for, what is left, and whether the last chunk is open.
structure Settled (q : Query) (rest : List Str) : Prop where
  whole : asks q.asked ++ rest = q.call
  drained : Drained q.asked
  kept : q.rejectedProbe = false

structure Open (q : Query) (rest : List Str) : Prop where
  whole : asks q.asked ++ rest = q.call
  last : ∃ done a, q.asked = done ++ [a] ∧ Drained done ∧ a.drained = false
  kept : q.rejectedProbe = false

def Ended (q : Query) (err : Option QueryError) : Prop :=
  err = none → Settled q [] ∨ q.rejectedProbe = true ∧ ∃ a ∈ q.asked, a.drained = false

-- What holds at each mark of the loop.
def At (c : Crawler) (q : Query) : Pc → Prop
  | .ready => True
  | .top authors => Settled q authors
  | .sized authors batchCap => Settled q authors ∧ 0 < authors.length ∧ 0 < batchCap
  | .marking authors batchCap probe =>
    Settled q authors ∧ 0 < authors.length ∧ 0 < batchCap ∧ batchCap < probe ∧ probe ≤ batchCap * 2 ∧ probe ≤ c.filterBatchSize
  | .subscribing chunk | .draining chunk | .rejected chunk | .halving chunk _ _ | .halved chunk _ _ | .clearing chunk _ _ => Open q chunk.rest
  | .drained chunk | .raising chunk | .raised chunk => Settled q chunk.rest
  | .returning err | .returned err => Ended q err

structure Good (c : Crawler) (q : Query) : Prop where
  cut : ∀ a ∈ q.asked, Cut c a
  mark : At c q q.pc

section Steps
variable {c : Crawler} {q next : Query}

-- Steps that leave the call's record alone.
theorem Settled.same {rest : List Str} (settled : Settled q rest) (call : next.call = q.call) (asked : next.asked = q.asked)
    (rejected : next.rejectedProbe = q.rejectedProbe) : Settled next rest :=
  ⟨by rw [call,asked]; exact settled.whole,by rw [asked]; exact settled.drained,rejected.trans settled.kept⟩

theorem Open.same {rest : List Str} (opened : Open q rest) (call : next.call = q.call) (asked : next.asked = q.asked)
    (rejected : next.rejectedProbe = q.rejectedProbe) : Open next rest :=
  ⟨by rw [call,asked]; exact opened.whole,by rw [asked]; exact opened.last,rejected.trans opened.kept⟩

theorem Ended.same {err : Option QueryError} (ended : Ended q err) (call : next.call = q.call) (asked : next.asked = q.asked)
    (rejected : next.rejectedProbe = q.rejectedProbe) : Ended next err := by
  intro none
  rw [asked,rejected]
  exact (ended none).imp_left fun settled => settled.same call asked rejected

theorem Good.same (good : Good c q) (pc : next.pc = q.pc) (call : next.call = q.call) (asked : next.asked = q.asked)
    (rejected : next.rejectedProbe = q.rejectedProbe) : Good c next := by
  have here := good.mark
  refine ⟨by rw [asked]; exact good.cut,?_⟩
  rw [pc]
  revert here
  cases q.pc with
  | ready => exact id
  | top authors => exact fun settled => settled.same call asked rejected
  | sized authors batchCap => exact fun both => ⟨both.1.same call asked rejected,both.2⟩
  | marking authors batchCap probe => exact fun both => ⟨both.1.same call asked rejected,both.2⟩
  | subscribing chunk => exact fun opened => opened.same call asked rejected
  | draining chunk => exact fun opened => opened.same call asked rejected
  | drained chunk => exact fun settled => settled.same call asked rejected
  | raising chunk => exact fun settled => settled.same call asked rejected
  | raised chunk => exact fun settled => settled.same call asked rejected
  | rejected chunk => exact fun opened => opened.same call asked rejected
  | halving chunk old newVal => exact fun opened => opened.same call asked rejected
  | halved chunk old newVal => exact fun opened => opened.same call asked rejected
  | clearing chunk old newVal => exact fun opened => opened.same call asked rejected
  | returning err => exact fun ended => ended.same call asked rejected
  | returned err => exact fun ended => ended.same call asked rejected

theorem Open.fails {rest : List Str} (opened : Open q rest) : ∃ a ∈ q.asked, a.drained = false := by
  obtain ⟨done,a,shape,_,undrained⟩ := opened.last
  exact ⟨a,by rw [shape]; simp,undrained⟩

theorem Good.send {authors : List Str} {cap batchCap : Int} {isProbing : Bool} {rs : RelayState} (good : Good c q) (settled : Settled q authors)
    (some : 0 < authors.length) (size : 0 < batchCap)
    (plain : isProbing = false → batchCap = cap) (probe : isProbing = true → cap < batchCap ∧ batchCap ≤ cap * 2 ∧ batchCap ≤ c.filterBatchSize) :
    Good c (QueryRelay.send { q with rs } (chunkOf authors cap batchCap isProbing)) := by
  constructor
  · intro a member
    rcases List.mem_append.mp member with old | new
    · exact good.cut a old
    · rw [List.mem_singleton.mp new]
      refine ⟨nextAuthorChunk_some some size,?_,?_⟩
      · intro none
        cases isProbing with
        | false =>
          have same := plain rfl
          subst same
          simp only [chunkOf]
          rw [nextAuthorChunk_left]
          exact nextAuthorChunk_cut size
        | true => cases none
      · intro tried given
        cases isProbing with
        | false => cases given
        | true =>
          cases given
          obtain ⟨above,double,most⟩ := probe rfl
          exact ⟨nextAuthorChunk_most size,above,double,most⟩
  · refine ⟨?_,⟨q.asked,_,rfl,settled.drained,rfl⟩,settled.kept⟩
    rw [QueryRelay.send,asks_concat,List.append_assoc]
    simp only [chunkOf]
    rw [nextAuthorChunk_split]
    exact settled.whole

theorem inForce_pos (filterCap : Int) : 0 < inForce filterCap := by
  unfold inForce
  split <;> omega

theorem Good.moved {action : Action} (good : Good c q) (moved : Moved c q action next) : Good c next := by
  have here := good.mark
  cases moved with
  | call authors => exact ⟨fun a member => absurd member List.not_mem_nil,rfl,fun a member => absurd member List.not_mem_nil,rfl⟩
  | closed authors e => exact ⟨fun a member => absurd member List.not_mem_nil,fun none => absurd none (Option.some_ne_none _)⟩
  | load authors pc some =>
    rw [pc] at here
    exact ⟨good.cut,⟨here.whole,here.drained,here.kept⟩,some,inForce_pos _⟩
  | finish pc =>
    rw [pc] at here
    exact ⟨good.cut,fun _ => .inl ⟨here.whole,here.drained,here.kept⟩⟩
  | tries authors batchCap probe pc above double most =>
    rw [pc] at here
    obtain ⟨settled,some,positive⟩ := here
    exact ⟨good.cut,⟨settled.whole,settled.drained,settled.kept⟩,some,positive,above,double,most⟩
  | plain authors batchCap pc =>
    rw [pc] at here
    obtain ⟨settled,some,positive⟩ := here
    exact good.send settled some positive (fun _ => rfl) (fun probing => by cases probing)
  | probe authors batchCap probe pc =>
    rw [pc] at here
    obtain ⟨settled,some,positive,above,double,most⟩ := here
    exact good.send settled some (positive.trans above) (fun plain => by cases plain) fun _ => ⟨above,double,most⟩
  | compare chunk pc probing above =>
    rw [pc] at here
    exact ⟨good.cut,here.whole,here.drained,here.kept⟩
  | pass chunk pc =>
    rw [pc] at here
    exact ⟨good.cut,here.whole,here.drained,here.kept⟩
  | raise chunk pc =>
    rw [pc] at here
    exact ⟨good.cut,here.whole,here.drained,here.kept⟩
  | restart chunk pc =>
    rw [pc] at here
    exact ⟨good.cut,here.whole,here.drained,here.kept⟩
  | reject chunk pc above =>
    rw [pc] at here
    exact ⟨good.cut,here.whole,here.last,here.kept⟩
  | floor chunk e pc => exact ⟨good.cut,fun none => absurd none (Option.some_ne_none _)⟩
  | halve chunk old newVal pc =>
    rw [pc] at here
    exact ⟨good.cut,here.whole,here.last,here.kept⟩
  | unstreak chunk old newVal pc =>
    rw [pc] at here
    exact ⟨good.cut,here.whole,here.last,here.kept⟩
  | excuse chunk old newVal pc probing =>
    rw [pc] at here
    exact ⟨good.cut,fun _ => .inr ⟨rfl,here.fails⟩⟩
  | blame chunk old newVal e pc plain => exact ⟨good.cut,fun none => absurd none (Option.some_ne_none _)⟩
  | leave err pc =>
    rw [pc] at here
    exact ⟨good.cut,fun none => (here none).imp (fun settled => ⟨settled.whole,settled.drained,settled.kept⟩) id⟩
  | subscribed chunk pc =>
    rw [pc] at here
    exact ⟨good.cut,here.whole,here.last,here.kept⟩
  | refused chunk msg pc =>
    rw [pc] at here
    exact ⟨good.cut,here.whole,here.last,here.kept⟩
  | failed msg quick e => exact ⟨good.cut,fun none => absurd none (Option.some_ne_none _)⟩
  | expired deadline => exact ⟨good.cut,fun none => absurd none (Option.some_ne_none _)⟩
  | eose chunk pc =>
    rw [pc] at here
    obtain ⟨done,a,shape,drained,_⟩ := here.last
    have whole := here.whole
    rw [shape,asks_concat] at whole
    refine ⟨?_,?_,?_,here.kept⟩
    · rw [shape,drainLast_concat]
      intro b member
      rcases List.mem_append.mp member with old | new
      · exact good.cut b (by rw [shape]; exact List.mem_append_left _ old)
      · have cut := good.cut a (by rw [shape]; simp)
        rw [List.mem_singleton.mp new]
        exact ⟨cut.some,cut.plain,cut.probe⟩
    · dsimp only
      rw [shape,drainLast_concat,asks_concat]
      exact whole
    · dsimp only
      rw [shape,drainLast_concat]
      intro b member
      rcases List.mem_append.mp member with old | new
      · exact drained b old
      · rw [List.mem_singleton.mp new]
  | dropped cause e => exact ⟨good.cut,fun none => absurd none (Option.some_ne_none _)⟩
  | counted => exact ⟨good.cut,trivial⟩
  | notice k text => exact good.same rfl rfl rfl rfl
  | ignored k text => exact good
  | low k => exact good.same rfl rfl rfl rfl
  | loaded k above => exact good.same rfl rfl rfl rfl
  | swap k old newVal waits same => exact good.same rfl rfl rfl rfl
  | retry k => exact good.same rfl rfl rfl rfl
  | reset k => exact good.same rfl rfl rfl rfl
  | unmark k => exact good.same rfl rfl rfl rfl
end Steps

-- A relay that is not being queried.
def resting (rs : RelayState) (handler : Nat → Handler) : Query := ⟨rs,.ready,handler,[],[],false,none,false⟩

-- Whatever the relay answers and notices: the chunks are of the size they should be exactly if no notice falls between the load of the
-- cap and the REQ, and a call that returns nil has had every chunk drained exactly if no probe of it was rejected above the floor.
theorem chunks_cover (c : Crawler) (rs : RelayState) (handler : Nat → Handler) (q : Query)
    (path : Machine.Reached (step c) (fun _ _ => True) (resting rs handler) q) :
    ((∀ a ∈ q.asked, Within c a) ↔ ∀ a ∈ q.asked, Steady a) ∧
      (q.pc = .returned none → (Covers q ↔ q.rejectedProbe = false)) := by
  have good : Good c q := by
    apply path.invariant (Good c)
    · exact ⟨fun a member => absurd member List.not_mem_nil,trivial⟩
    · intro s action next good _ moved
      exact good.moved (step_moved moved)
  refine ⟨forall₂_congr fun a member => (good.cut a member).within,?_⟩
  intro done
  have here := good.mark
  rw [done] at here
  rcases here rfl with settled | ⟨rejected,a,member,undrained⟩
  · have whole := settled.whole
    rw [List.append_nil] at whole
    exact ⟨fun _ => settled.kept,fun _ => ⟨whole,settled.drained⟩⟩
  · rw [rejected]
    constructor
    · intro covers
      rw [covers.2 a member] at undrained
      cases undrained
    · intro kept
      cases kept

def plainLetters : Whitelist.Unicode := ⟨id,fun _ high low => absurd low (Nat.not_lt.mpr high)⟩

def hundred : Crawler := ⟨100,plainLetters⟩

def numbered (n : Nat) : List Str := (List.range n).map fun i => [UInt8.ofNat i]

def twoChunks : List Action :=
  [.call (numbered 15) true,.loop,.loop,.subscribed,.eose,.loop,.loop,.loop,.subscribed,.eose,.loop,.loop,.loop]

theorem chunks_cover_two : ∃ q, q.pc = .returned none ∧ (∀ a ∈ q.asked, Within hundred a) ∧ Covers q := by
  have run := Machine.replay_final (step hundred) (fun _ _ => True) (resting ⟨[],10,0,false⟩ fun _ => .idle) twoChunks
    (fun q => decide (q.pc = .returned none) && decide (∀ a ∈ q.asked, a.cap ≤ a.sentAt) && decide (q.rejectedProbe = false))
    (by decide +kernel) (by decide +kernel)
  obtain ⟨q,path,checked⟩ := run
  rw [Bool.and_eq_true,Bool.and_eq_true,decide_eq_true_eq,decide_eq_true_eq,decide_eq_true_eq] at checked
  obtain ⟨⟨done,steady⟩,kept⟩ := checked
  obtain ⟨within,covers⟩ := chunks_cover hundred ⟨[],10,0,false⟩ (fun _ => .idle) q path
  exact ⟨q,done,within.mpr fun a member _ => .inl (steady a member),(covers done).mpr kept⟩

-- A probe of twice the cap that the relay drops at once.
def droppedProbe : List Action :=
  [.call (numbered 30) true,.loop,.loop,.loop,.subscribeFailed (Bytes.text "failed to write: connection closed") true,.loop,.loop,.loop,.loop,.loop]

-- A notice between the load of the cap and the REQ.
def lateNotice : List Action :=
  [.call (numbered 20) true,.loop,.notice 0 (Bytes.text "Error: filter item too large"),.handle 0,.handle 0,.loop]

theorem chunks_cover_fails : (∃ q, Machine.Reached (step hundred) (fun _ _ => True) (resting ⟨[],11,10,false⟩ fun _ => .idle) q ∧
      q.pc = .returned none ∧ ¬ Covers q) ∧
    ∃ q, Machine.Reached (step hundred) (fun _ _ => True) (resting ⟨[],20,0,false⟩ fun _ => .idle) q ∧ ¬ ∀ a ∈ q.asked, Within hundred a := by
  obtain ⟨q,path,done⟩ := Machine.replay_final (step hundred) (fun _ _ => True) (resting ⟨[],11,10,false⟩ fun _ => .idle) droppedProbe
    (fun q => decide (q.pc = .returned none) && decide (asks q.asked ≠ q.call)) (by decide +kernel) (by decide +kernel)
  rw [Bool.and_eq_true,decide_eq_true_eq,decide_eq_true_eq] at done
  obtain ⟨late,reached,wide⟩ := Machine.replay_final (step hundred) (fun _ _ => True) (resting ⟨[],20,0,false⟩ fun _ => .idle) lateNotice
    (fun q => q.asked.any fun a => decide (a.probe = none ∧ a.sentAt < a.authors.length)) (by decide +kernel) (by decide +kernel)
  refine ⟨⟨q,path,done.1,fun covers => done.2 covers.1⟩,late,reached,?_⟩
  intro within
  obtain ⟨a,member,shape⟩ := List.any_eq_true.mp wide
  obtain ⟨plain,above⟩ := of_decide_eq_true shape
  have fits := (within a member).plain plain
  omega

end DeepFry.WebOfTrust.QueryRelay
