import DeepFry.Lib.Bytes

namespace DeepFry.Buffered

-- Library layer: a writer that collects what it is given and passes it on in blocks, and never writes again after a failure.
variable {δ : Type}

-- The answer to each write, by its position: a failure takes only the first bytes.
abbrev Sink (δ : Type) := Nat → Bytes → Option (Nat × δ)

structure Writer (δ : Type) where
  content : Bytes
  calls : Nat
  buf : Bytes
  err : Option δ

def Writer.empty : Writer δ := ⟨[],0,[],none⟩

def Writer.send (sink : Sink δ) (w : Writer δ) (p : Bytes) : Nat × Writer δ :=
  match sink w.calls p with
  | none => (p.length,{ w with content := w.content ++ p,calls := w.calls + 1 })
  | some (n,e) => (n,{ w with content := w.content ++ p.take n,calls := w.calls + 1,err := some e })

def Writer.flush (sink : Sink δ) (w : Writer δ) : Writer δ :=
  if w.err.isSome then w
  else if w.buf = [] then w
  else
    let sent := w.send sink w.buf
    { sent.2 with buf := w.buf.drop sent.1 }

-- A full buffer is flushed, and what is longer than an empty one goes past it.
def round (sink : Sink δ) (size : Nat) (w : Writer δ) (p : Bytes) : Writer δ × Bytes :=
  if w.buf = [] then
    let sent := w.send sink p
    (sent.2,p.drop sent.1)
  else
    let n := size - w.buf.length
    (Writer.flush sink { w with buf := w.buf ++ p.take n },p.drop n)

-- The loop of a write, and what it leaves to be copied.
def fill (sink : Sink δ) (size : Nat) : Nat → Writer δ → Bytes → Writer δ × Bytes
  | 0,w,p => (w,p)
  | fuel+1,w,p =>
    if size - w.buf.length < p.length ∧ w.err.isNone then fill sink size fuel (round sink size w p).1 (round sink size w p).2
    else (w,p)

def copy (filled : Writer δ × Bytes) : Writer δ :=
  if filled.1.err.isSome then filled.1 else { filled.1 with buf := filled.1.buf ++ filled.2 }

-- Two rounds end the loop.
def Writer.write (sink : Sink δ) (size : Nat) (w : Writer δ) (p : Bytes) : Writer δ := copy (fill sink size 2 w p)

-- What the sink takes of blocks that are written up to the first failure.
def deliver (sink : Sink δ) : Nat → List Bytes → Bytes × Option δ
  | _,[] => ([],none)
  | k,block :: blocks =>
    match sink k block with
    | some (n,e) => (block.take n,some e)
    | none => (block ++ (deliver sink (k + 1) blocks).1,(deliver sink (k + 1) blocks).2)

-- The blocks that one write fills, and what it leaves in the buffer.
def cut (size : Nat) (buf p : Bytes) : List Bytes × Bytes :=
  if p.length ≤ size - buf.length then ([],buf ++ p)
  else if buf = [] then ([p],[])
  else
    let rest := p.drop (size - buf.length)
    if rest.length ≤ size then ([buf ++ p.take (size - buf.length)],rest) else ([buf ++ p.take (size - buf.length),rest],[])

def cutAll (size : Nat) : Bytes → List Bytes → List Bytes × Bytes
  | buf,[] => ([],buf)
  | buf,p :: ps => ((cut size buf p).1 ++ (cutAll size (cut size buf p).2 ps).1,(cutAll size (cut size buf p).2 ps).2)

def tail (buf : Bytes) : List Bytes := if buf = [] then [] else [buf]

variable {sink : Sink δ} {size : Nat}

theorem deliver_some {k n : Nat} {block : Bytes} {e : δ} (failed : sink k block = some (n,e)) (blocks : List Bytes) :
    deliver sink k (block :: blocks) = (block.take n,some e) := by
  rw [deliver,failed]

theorem deliver_none {k : Nat} {block : Bytes} (taken : sink k block = none) (blocks : List Bytes) :
    deliver sink k (block :: blocks) = (block ++ (deliver sink (k + 1) blocks).1,(deliver sink (k + 1) blocks).2) := by
  rw [deliver,taken]

theorem deliver_append (k : Nat) (first second : List Bytes) (clean : (deliver sink k first).2 = none) :
    deliver sink k (first ++ second) =
      ((deliver sink k first).1 ++ (deliver sink (k + first.length) second).1,(deliver sink (k + first.length) second).2) := by
  induction first generalizing k with
  | nil => rfl
  | cons block first ih =>
    cases answer : sink k block with
    | some failed =>
      rw [deliver_some answer] at clean
      cases clean
    | none =>
      rw [deliver_none answer] at clean ⊢
      rw [List.cons_append,deliver_none answer,ih (k + 1) clean,List.append_assoc,List.length_cons,Nat.add_right_comm k 1,Nat.add_assoc k]

theorem deliver_failed (k : Nat) (first second : List Bytes) (failed : (deliver sink k first).2 ≠ none) :
    deliver sink k (first ++ second) = deliver sink k first := by
  induction first generalizing k with
  | nil => exact absurd rfl failed
  | cons block first ih =>
    cases answer : sink k block with
    | some _ => rw [List.cons_append,deliver_some answer,deliver_some answer]
    | none =>
      rw [deliver_none answer] at failed ⊢
      rw [List.cons_append,deliver_none answer,ih (k + 1) failed]

theorem deliver_clean {k : Nat} {blocks : List Bytes} (clean : (deliver sink k blocks).2 = none) : (deliver sink k blocks).1 = blocks.flatten := by
  induction blocks generalizing k with
  | nil => rfl
  | cons block blocks ih =>
    cases answer : sink k block with
    | some failed =>
      rw [deliver_some answer] at clean
      cases clean
    | none =>
      rw [deliver_none answer] at clean ⊢
      exact congrArg (block ++ ·) (ih clean)

theorem deliver_prefix (k : Nat) (blocks : List Bytes) : (deliver sink k blocks).1 <+: blocks.flatten := by
  induction blocks generalizing k with
  | nil => exact List.prefix_rfl
  | cons block blocks ih =>
    rw [List.flatten_cons]
    cases answer : sink k block with
    | some failed =>
      rw [deliver_some answer]
      exact (List.take_prefix failed.1 block).trans (List.prefix_append block _)
    | none =>
      rw [deliver_none answer]
      exact (List.prefix_append_right_inj block).mpr (ih (k + 1))

theorem deliver_failure (k : Nat) (blocks : List Bytes) :
    (deliver sink k blocks).2 ≠ none ↔ ∃ i block n e, blocks[i]? = some block ∧ sink (k + i) block = some (n,e) := by
  induction blocks generalizing k with
  | nil => simp [deliver]
  | cons block blocks ih =>
    cases first : sink k block with
    | some failed =>
      rw [deliver_some first]
      simp only [ne_eq,reduceCtorEq,not_false_eq_true,true_iff]
      exact ⟨0,block,failed.1,failed.2,rfl,first⟩
    | none =>
      rw [deliver_none first,ih (k + 1)]
      constructor
      · intro found
        obtain ⟨i,other,n,e,listed,failed⟩ := found
        exact ⟨i + 1,other,n,e,listed,by rw [← failed,Nat.add_assoc,Nat.add_comm 1]⟩
      · intro found
        obtain ⟨i,other,n,e,listed,failed⟩ := found
        cases i with
        | zero =>
          obtain rfl : block = other := Option.some.inj listed
          rw [Nat.add_zero,first] at failed
          cases failed
        | succ i => exact ⟨i,other,n,e,listed,by rw [← failed,Nat.add_assoc,Nat.add_comm 1]⟩

theorem cut_flatten (size : Nat) (buf p : Bytes) : (cut size buf p).1.flatten ++ (cut size buf p).2 = buf ++ p := by
  unfold cut
  split
  · rfl
  · split
    · next none => simp [none]
    · dsimp only
      split <;> simp [List.append_assoc,List.take_append_drop]

theorem cutAll_flatten (size : Nat) (buf : Bytes) (ps : List Bytes) : (cutAll size buf ps).1.flatten ++ (cutAll size buf ps).2 = buf ++ ps.flatten := by
  induction ps generalizing buf with
  | nil => simp [cutAll]
  | cons p ps ih => rw [cutAll,List.flatten_append,List.append_assoc,ih,← List.append_assoc,cut_flatten,List.append_assoc,List.flatten_cons]

@[simp] theorem tail_flatten (buf : Bytes) : (tail buf).flatten = buf := by
  unfold tail
  split
  · next none => rw [none]; rfl
  · simp

-- What is left over reaches the sink whole unless its write fails short of the end.
theorem deliver_tail (k : Nat) (buf : Bytes) : (deliver sink k (tail buf)).1 = buf ↔ ∀ n e, sink k buf = some (n,e) → buf.length ≤ n := by
  unfold tail
  by_cases empty : buf = []
  · subst empty
    simp [deliver]
  · rw [if_neg empty]
    cases answer : sink k buf with
    | none =>
      rw [deliver_none answer]
      simp [deliver]
    | some failed =>
      rw [deliver_some answer,List.take_eq_self_iff]
      constructor
      · intro reached n e same
        obtain ⟨rfl,_⟩ := Prod.mk.inj (Option.some.inj same)
        exact reached
      · exact fun short => short failed.1 failed.2 rfl

section Passing
variable {w next : Writer δ}

-- A writer that has passed the blocks on: all of them, or those up to a failure that it keeps.
structure Writer.Passed (sink : Sink δ) (w next : Writer δ) (blocks : List Bytes) (rest : Bytes) : Prop where
  content : next.content = w.content ++ (deliver sink w.calls blocks).1
  err : next.err = (deliver sink w.calls blocks).2
  held : (deliver sink w.calls blocks).2 = none → next.calls = w.calls + blocks.length ∧ next.buf = rest

theorem Writer.Passed.refl (sink : Sink δ) (clean : w.err = none) : Writer.Passed sink w w [] w.buf where
  content := (List.append_nil _).symm
  err := clean
  held _ := ⟨rfl,rfl⟩

theorem Writer.Passed.trans {mid : Writer δ} {first second : List Bytes} {kept rest : Bytes} (one : Writer.Passed sink w mid first kept)
    (clean : mid.err = none) (two : Writer.Passed sink mid next second rest) : Writer.Passed sink w next (first ++ second) rest := by
  have taken := one.err.symm.trans clean
  obtain ⟨calls,_⟩ := one.held taken
  have joined := deliver_append w.calls first second taken
  rw [← calls] at joined
  constructor
  · rw [two.content,one.content,joined,List.append_assoc]
  · rw [two.err,joined]
  · intro all
    rw [joined] at all
    obtain ⟨more,buffer⟩ := two.held all
    exact ⟨by rw [more,calls,List.length_append,Nat.add_assoc],buffer⟩

theorem Writer.Passed.stop {first : List Bytes} {kept : Bytes} (one : Writer.Passed sink w next first kept) (failed : next.err ≠ none)
    (second : List Bytes) (rest : Bytes) : Writer.Passed sink w next (first ++ second) rest := by
  have same : deliver sink w.calls (first ++ second) = deliver sink w.calls first := deliver_failed _ _ _ (one.err ▸ failed)
  constructor
  · rw [same]
    exact one.content
  · rw [same]
    exact one.err
  · intro all
    rw [same] at all
    exact absurd (one.err.trans all) failed

theorem copy_clean {p : Bytes} (clean : next.err = none) : copy (next,p) = { next with buf := next.buf ++ p } := by
  unfold copy
  rw [if_neg (by simp [clean])]

theorem copy_failed {p : Bytes} (failed : next.err ≠ none) : copy (next,p) = next := by
  unfold copy
  rw [if_pos (Option.isSome_iff_ne_none.mpr failed)]

theorem Writer.Passed.copy {blocks : List Bytes} {rest : Bytes} (passed : Writer.Passed sink w next blocks rest) (p : Bytes) :
    Writer.Passed sink w (copy (next,p)) blocks (rest ++ p) := by
  by_cases clean : next.err = none
  · rw [copy_clean clean]
    exact ⟨passed.content,passed.err,fun all => ⟨(passed.held all).1,congrArg (· ++ p) (passed.held all).2⟩⟩
  · rw [copy_failed clean]
    exact ⟨passed.content,passed.err,fun all => absurd (passed.err.trans all) clean⟩

theorem Writer.send_passed (sink : Sink δ) (w : Writer δ) (p : Bytes) (clean : w.err = none) :
    Writer.Passed sink w (w.send sink p).2 [p] w.buf ∧ ((w.send sink p).2.err = none → (w.send sink p).1 = p.length) := by
  unfold Writer.send
  cases answer : sink w.calls p with
  | none =>
    refine ⟨⟨?_,?_,fun _ => ⟨rfl,rfl⟩⟩,fun _ => rfl⟩
    · rw [deliver_none answer]
      exact congrArg (w.content ++ ·) (List.append_nil p).symm
    · rw [deliver_none answer]
      exact clean
  | some failed =>
    refine ⟨⟨?_,?_,?_⟩,fun none => by cases none⟩
    · rw [deliver_some answer]
    · rw [deliver_some answer]
    · intro all
      rw [deliver_some answer] at all
      cases all

theorem Writer.flush_passed (sink : Sink δ) (w : Writer δ) (clean : w.err = none) : Writer.Passed sink w (w.flush sink) (tail w.buf) [] := by
  unfold Writer.flush tail
  rw [clean]
  by_cases empty : w.buf = []
  · have still := Writer.Passed.refl sink clean
    rw [empty] at still
    simpa [empty] using still
  · obtain ⟨passed,whole⟩ := Writer.send_passed sink w w.buf clean
    simp only [Option.isSome_none,Bool.false_eq_true,if_false,if_neg empty]
    refine ⟨passed.content,passed.err,?_⟩
    intro all
    refine ⟨(passed.held all).1,?_⟩
    rw [whole (passed.err.trans all),List.drop_length]

theorem round_direct (sink : Sink δ) (size : Nat) (p : Bytes) (clean : w.err = none) (empty : w.buf = []) :
    Writer.Passed sink w (round sink size w p).1 [p] [] ∧ ((round sink size w p).1.err = none → (round sink size w p).2 = []) := by
  obtain ⟨passed,whole⟩ := Writer.send_passed sink w p clean
  rw [empty] at passed
  unfold round
  rw [if_pos empty]
  refine ⟨passed,?_⟩
  intro taken
  dsimp only
  rw [whole taken,List.drop_length]

theorem round_flush (sink : Sink δ) (size : Nat) (p : Bytes) (clean : w.err = none) (some_bytes : w.buf ≠ []) :
    Writer.Passed sink w (round sink size w p).1 [w.buf ++ p.take (size - w.buf.length)] [] ∧
      (round sink size w p).2 = p.drop (size - w.buf.length) := by
  have full : w.buf ++ p.take (size - w.buf.length) ≠ [] := fun none => some_bytes (List.append_eq_nil_iff.mp none).1
  have passed := Writer.flush_passed sink { w with buf := w.buf ++ p.take (size - w.buf.length) } clean
  rw [tail,if_neg full] at passed
  unfold round
  rw [if_neg some_bytes]
  exact ⟨⟨passed.content,passed.err,passed.held⟩,rfl⟩

theorem fill_stop {fuel : Nat} {p : Bytes} (done : ¬ (size - w.buf.length < p.length ∧ w.err.isNone)) : fill sink size fuel w p = (w,p) := by
  cases fuel with
  | zero => rfl
  | succ fuel => rw [fill,if_neg done]

-- Nothing is left of what went past the buffer.
theorem direct_ended (p : Bytes) (clean : w.err = none) (empty : w.buf = []) :
    ¬ (size - (round sink size w p).1.buf.length < (round sink size w p).2.length ∧ (round sink size w p).1.err.isNone) := by
  intro again
  rw [(round_direct sink size p clean empty).2 (Option.isNone_iff_eq_none.mp again.2)] at again
  exact absurd again.1 (Nat.not_lt_zero _)

theorem direct_passed (p : Bytes) (clean : w.err = none) (empty : w.buf = []) :
    Writer.Passed sink w (copy (round sink size w p)) [p] [] := by
  obtain ⟨passed,drained⟩ := round_direct sink size p clean empty
  generalize round sink size w p = left at passed drained ⊢
  obtain ⟨next,rest⟩ := left
  by_cases taken : next.err = none
  · obtain rfl : rest = [] := drained taken
    exact passed.copy []
  · rw [copy_failed taken]
    exact passed

-- A write passes on the blocks it fills, and keeps the rest.
theorem Writer.write_passed (sink : Sink δ) (size : Nat) (w : Writer δ) (p : Bytes) (clean : w.err = none) :
    Writer.Passed sink w (w.write sink size p) (cut size w.buf p).1 (cut size w.buf p).2 := by
  have open_ : w.err.isNone := Option.isNone_iff_eq_none.mpr clean
  unfold Writer.write cut
  by_cases fits : p.length ≤ size - w.buf.length
  · rw [if_pos fits,fill_stop fun both => absurd fits (not_le.mpr both.1)]
    exact (Writer.Passed.refl sink clean).copy p
  · rw [if_neg fits,fill,if_pos ⟨not_le.mp fits,open_⟩]
    by_cases empty : w.buf = []
    · rw [if_pos empty,fill_stop (direct_ended p clean empty)]
      exact direct_passed p clean empty
    · obtain ⟨passed,left⟩ := round_flush sink size p clean empty
      rw [if_neg empty,left]
      dsimp only
      generalize p.drop (size - w.buf.length) = rest
      generalize (round sink size w p).1 = next at passed ⊢
      by_cases taken : next.err = none
      · have drained := (passed.held (passed.err.symm.trans taken)).2
        by_cases short : rest.length ≤ size
        · rw [if_pos short,fill_stop (by rw [drained]; exact fun both => absurd short (not_le.mpr both.1))]
          exact passed.copy rest
        · have long : size - next.buf.length < rest.length ∧ next.err.isNone := by
            rw [drained]
            exact ⟨not_le.mp short,Option.isNone_iff_eq_none.mpr taken⟩
          rw [if_neg short,fill,if_pos long]
          exact passed.trans taken (direct_passed rest taken drained)
      · rw [fill_stop fun both => taken (Option.isNone_iff_eq_none.mp both.2),copy_failed taken]
        split
        · exact passed.stop taken [] rest
        · exact passed.stop taken [rest] []

end Passing

end DeepFry.Buffered
