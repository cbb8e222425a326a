import DeepFry.Lib.Bytes

namespace DeepFry.GraphQLExplorer
abbrev Str := Bytes

inductive ApiErrorKind where
  | INVALID_CURSOR
  | TOO_MANY_AUTHORS
  | VALIDATION
  | INTERNAL
  | NOT_READY
  | PAYLOAD_TOO_LARGE
  | NETWORK
deriving DecidableEq

-- Only a validation message is carried along.
structure ApiError where
  kind : ApiErrorKind
  message : Option Str
deriving DecidableEq

structure AuthorGroup (Event : Type) where
  author : Str
  events : List Event
deriving DecidableEq

structure GraphQLError where
  code : Option Str
  message : Str

structure CombinedError where
  status : Option Int
  graphQLErrors : List GraphQLError
  networkError : Bool

-- The data of a result is what latestPerAuthor holds, where it holds anything.
structure OperationResult (Event : Type) where
  error : Option CombinedError
  data : Option (List (AuthorGroup Event))

-- What the awaited query comes to.
inductive Result (Event : Type) where
  | THREW
  | result (result : OperationResult Event)

def asciiLower (b : UInt8) : UInt8 := if 65 ≤ b ∧ b ≤ 90 then b + 32 else b

-- /internal error/i, in which only the ASCII letters fold.
def internalError (message : Str) : Bool := (message.map asciiLower).tails.any (Bytes.text "internal error").isPrefixOf

def classify {Event : Type} (result : OperationResult Event) : Option ApiError :=
  match result.error with
  | none => none
  | some error =>
    if error.status = some 503 then some ⟨.NOT_READY,none⟩
    else if error.status = some 413 then some ⟨.PAYLOAD_TOO_LARGE,none⟩
    else match error.graphQLErrors with
      | gqlErr :: _ =>
        if gqlErr.code = some (Bytes.text "INVALID_CURSOR") then some ⟨.INVALID_CURSOR,none⟩
        else if gqlErr.code = some (Bytes.text "TOO_MANY_AUTHORS") then some ⟨.TOO_MANY_AUTHORS,none⟩
        else if internalError gqlErr.message then some ⟨.INTERNAL,none⟩
        else some ⟨.VALIDATION,some gqlErr.message⟩
      | [] => some ⟨.NETWORK,none⟩

inductive ChunkDegrade where
  | shrink
  | retryable
  | terminal
deriving DecidableEq

def chunkDegradeDecision (kind : ApiErrorKind) (chunkLength : Nat) : ChunkDegrade :=
  if kind = .PAYLOAD_TOO_LARGE ∨ kind = .TOO_MANY_AUTHORS then
    if chunkLength > 1 then .shrink else .terminal
  else .retryable

structure ChunkOutcome (Event : Type) where
  groups : List (AuthorGroup Event)
  covered : List Str
  error : Option ApiError
  retryable : Option Bool
deriving DecidableEq

-- Where the halves of a chunk meet.
def mid (chunk : List Str) : Nat := (chunk.length + 1) / 2

section Outcomes
variable {Event : Type}

def failed (error : ApiError) (retryable : Option Bool) : ChunkOutcome Event := ⟨[],[],some error,retryable⟩

def resolved (chunk : List Str) (result : OperationResult Event) : ChunkOutcome Event := ⟨result.data.getD [],chunk,none,none⟩

def merged (left right : ChunkOutcome Event) : ChunkOutcome Event where
  groups := left.groups ++ right.groups
  covered := left.covered ++ right.covered
  error := left.error <|> right.error
  retryable :=
    if (left.error <|> right.error).isSome then
      some ((if left.error.isSome then left.retryable else right.retryable).getD true)
    else none

end Outcomes

-- What a request is told: whether its run is still the latest one, and its result.
structure Reply (Event : Type) where
  current : Bool
  result : Result Event

theorem shrink_long {kind : ApiErrorKind} {n : Nat} (shrunk : chunkDegradeDecision kind n = .shrink) : 2 ≤ n := by
  unfold chunkDegradeDecision at shrunk
  split at shrunk
  · split at shrunk
    · omega
    · cases shrunk
  · cases shrunk

theorem mid_bounds {chunk : List Str} (long : 2 ≤ chunk.length) : 0 < mid chunk ∧ mid chunk < chunk.length := by
  unfold mid
  omega

-- What a reply makes of its chunk by itself; nothing where the chunk is to be halved.
def settled {Event : Type} (reply : Reply Event) (chunk : List Str) : Option (ChunkOutcome Event) :=
  if reply.current = false then some (failed ⟨.NETWORK,none⟩ (some true))
  else match reply.result with
    | .THREW => some (failed ⟨.NETWORK,none⟩ (some true))
    | .result result => match classify result with
      | none => some (resolved chunk result)
      | some apiError => match chunkDegradeDecision apiError.kind chunk.length with
        | .shrink => none
        | .retryable => some (failed apiError (some true))
        | .terminal => some (failed apiError (some false))

theorem settled_long {Event : Type} {reply : Reply Event} {chunk : List Str} (halved : settled reply chunk = none) :
    2 ≤ chunk.length := by
  unfold settled at halved
  split at halved
  · cases halved
  · split at halved
    · cases halved
    · split at halved
      · cases halved
      · split at halved
        · rename_i shrunk
          exact shrink_long shrunk
        · cases halved
        · cases halved

-- The recursion as it is written, over the replies that its requests get one after the other.
def fetchChunk {Event : Type} (chunk : List Str) : List (Reply Event) → Option (ChunkOutcome Event × List (Reply Event))
  | [] => none
  | reply :: rest =>
    match _halved : settled reply chunk with
    | some outcome => some (outcome,rest)
    | none => match fetchChunk (chunk.take (mid chunk)) rest with
      | none => none
      | some (left,rest) => match left.error with
        | some error => some (merged left (failed error left.retryable),rest)
        | none => match fetchChunk (chunk.drop (mid chunk)) rest with
          | none => none
          | some (right,rest) => some (merged left right,rest)
termination_by chunk.length
decreasing_by
  · have parts := mid_bounds (settled_long _halved)
    simp only [List.length_take]
    omega
  · have parts := mid_bounds (settled_long _halved)
    simp only [List.length_drop]
    omega

section FetchChunk
variable {Event : Type} {chunk : List Str} {reply : Reply Event} {rest : List (Reply Event)}

theorem fetchChunk_settled {outcome : ChunkOutcome Event} (direct : settled reply chunk = some outcome) :
    fetchChunk chunk (reply :: rest) = some (outcome,rest) := by
  rw [fetchChunk]
  split
  · rename_i same
    cases direct.symm.trans same
    rfl
  · rename_i halved
    cases direct.symm.trans halved

-- The outcome of the first half decides whether the second is asked for.
def fetchHalves (chunk : List Str) (first : Option (ChunkOutcome Event × List (Reply Event))) :
    Option (ChunkOutcome Event × List (Reply Event)) :=
  first.bind fun (left,rest) => match left.error with
    | some error => some (merged left (failed error left.retryable),rest)
    | none => (fetchChunk (chunk.drop (mid chunk)) rest).map fun (right,rest) => (merged left right,rest)

theorem fetchChunk_halved (halved : settled reply chunk = none) :
    fetchChunk chunk (reply :: rest) = fetchHalves chunk (fetchChunk (chunk.take (mid chunk)) rest) := by
  rw [fetchChunk]
  unfold fetchHalves
  split
  · rename_i outcome direct
    cases halved.symm.trans direct
  · cases fetchChunk (chunk.take (mid chunk)) rest with
    | none => rfl
    | some done =>
      dsimp only [Option.bind_some]
      cases done.1.error with
      | some error => rfl
      | none =>
        dsimp only
        cases fetchChunk (chunk.drop (mid chunk)) done.2 <;> rfl

end FetchChunk

-- A call that waits for one of its halves.
inductive Frame (Event : Type) where
  | left (chunk : List Str)
  | right (left : ChunkOutcome Event)

-- A call of fetchChunk comes to its next request or to its outcome.
inductive Progress (Event : Type) where
  | asks (chunk : List Str) (stack : List (Frame Event))
  | returns (outcome : ChunkOutcome Event)

section Progress
variable {Event : Type}

def resume : ChunkOutcome Event → List (Frame Event) → Progress Event
  | outcome,[] => .returns outcome
  | left,.left chunk :: stack => match left.error with
    | some error => resume (merged left (failed error left.retryable)) stack
    | none => .asks (chunk.drop (mid chunk)) (.right left :: stack)
  | right,.right left :: stack => resume (merged left right) stack

-- From a reply to the next await.
def answer (reply : Reply Event) (chunk : List Str) (stack : List (Frame Event)) : Progress Event :=
  match settled reply chunk with
  | some outcome => resume outcome stack
  | none => .asks (chunk.take (mid chunk)) (.left chunk :: stack)

def drive : Progress Event → List (Reply Event) → Option (ChunkOutcome Event × List (Reply Event))
  | .returns outcome,replies => some (outcome,replies)
  | .asks _ _,[] => none
  | .asks chunk stack,reply :: rest => drive (answer reply chunk stack) rest

-- Request by request, with any calls around it, is the recursion.
theorem drive_asks (chunk : List Str) (replies : List (Reply Event)) (stack : List (Frame Event)) :
    drive (.asks chunk stack) replies = (fetchChunk chunk replies).bind fun done => drive (resume done.1 stack) done.2 := by
  induction size : chunk.length using Nat.strongRecOn generalizing chunk replies stack with
  | ind n ih =>
    cases replies with
    | nil => simp [drive,fetchChunk]
    | cons reply rest =>
      cases verdict : settled reply chunk with
      | some outcome => simp [drive,answer,verdict,fetchChunk_settled verdict]
      | none =>
        have parts := mid_bounds (settled_long verdict)
        have left := ih (chunk.take (mid chunk)).length (by simp; omega) (chunk.take (mid chunk))
        have right := ih (chunk.drop (mid chunk)).length (by simp; omega) (chunk.drop (mid chunk))
        simp only [drive,answer,verdict]
        rw [fetchChunk_halved verdict,left rest (.left chunk :: stack) rfl]
        cases fetchChunk (chunk.take (mid chunk)) rest with
        | none => rfl
        | some done =>
          simp only [Option.bind_some,fetchHalves,resume]
          cases bad : done.1.error with
          | some error => simp only [Option.bind_some]
          | none =>
            dsimp only
            rw [right done.2 (.right done.1 :: stack) rfl]
            cases fetchChunk (chunk.drop (mid chunk)) done.2 <;> rfl

theorem drive_fetchChunk (chunk : List Str) (replies : List (Reply Event)) :
    drive (.asks chunk []) replies = fetchChunk chunk replies := by
  rw [drive_asks]
  cases fetchChunk chunk replies <;> simp [resume,drive]

-- The groups of a request that succeeds.
def Result.success : Result Event → Option (List (AuthorGroup Event))
  | .THREW => none
  | .result got => match classify got with
    | none => some (got.data.getD [])
    | some _ => none

-- What a success counts for: the authors that were asked for.
def Result.gained (result : Result Event) (chunk : List Str) : List Str := if result.success.isSome then chunk else []

-- What the calls that wait have in hand.
def held : List (Frame Event) → List Str
  | [] => []
  | .left _ :: stack => held stack
  | .right left :: stack => held stack ++ left.covered

def heldGroups : List (Frame Event) → List (AuthorGroup Event)
  | [] => []
  | .left _ :: stack => heldGroups stack
  | .right left :: stack => heldGroups stack ++ left.groups

-- What they have still to ask for.
def remaining : List (Frame Event) → List Str
  | [] => []
  | .left chunk :: stack => chunk.drop (mid chunk) ++ remaining stack
  | .right _ :: stack => remaining stack

def scope (chunk : List Str) (stack : List (Frame Event)) : List Str := held stack ++ (chunk ++ remaining stack)

def Frame.budget : Frame Event → Nat
  | .left chunk => 2 * (chunk.drop (mid chunk)).length - 1
  | .right _ => 0

-- The requests that a call can still make, with the calls around it.
def budget (chunk : List Str) (stack : List (Frame Event)) : Nat := 2 * chunk.length - 1 + (stack.map Frame.budget).sum

structure Sound (chunk : List Str) (stack : List (Frame Event)) : Prop where
  some : chunk ≠ []
  halves : ∀ {whole : List Str}, Frame.left whole ∈ stack → 2 ≤ whole.length

theorem Sound.budget_some {chunk : List Str} {stack : List (Frame Event)} (sound : Sound chunk stack) : 0 < budget chunk stack := by
  have long : 0 < chunk.length := List.length_pos_iff.mpr sound.some
  unfold budget
  omega

theorem merged_none {left right : ChunkOutcome Event} (clean : (merged left right).error = none) :
    left.error = none ∧ right.error = none := by
  unfold merged at clean
  dsimp only at clean
  cases bad : left.error with
  | none => simpa [bad] using clean
  | some error => simp [bad] at clean

theorem resume_returns {outcome final : ChunkOutcome Event} {stack : List (Frame Event)}
    (returned : resume outcome stack = .returns final) :
    final.covered = held stack ++ outcome.covered ∧ final.groups = heldGroups stack ++ outcome.groups ∧
      (final.error = none → outcome.error = none ∧ remaining stack = []) := by
  induction stack generalizing outcome with
  | nil =>
    cases returned
    exact ⟨rfl,rfl,fun clean => ⟨clean,rfl⟩⟩
  | cons frame stack ih =>
    cases frame with
    | left chunk =>
      unfold resume at returned
      split at returned
      · rename_i error bad
        obtain ⟨covered,groups,clean⟩ := ih returned
        refine ⟨?_,?_,?_⟩
        · simpa [merged,failed,held] using covered
        · simpa [merged,failed,heldGroups] using groups
        · intro none
          have both := merged_none (clean none).1
          rw [bad] at both
          cases both.1
      · cases returned
    | right left =>
      obtain ⟨covered,groups,clean⟩ := ih returned
      refine ⟨?_,?_,?_⟩
      · simpa [merged,held] using covered
      · simpa [merged,heldGroups] using groups
      · intro none
        exact ⟨(merged_none (clean none).1).2,(clean none).2⟩

theorem resume_asks {outcome : ChunkOutcome Event} {stack next : List (Frame Event)} {chunk : List Str}
    (asked : resume outcome stack = .asks chunk next) :
    held next = held stack ++ outcome.covered ∧ heldGroups next = heldGroups stack ++ outcome.groups ∧
      chunk ++ remaining next = remaining stack ∧ budget chunk next = (stack.map Frame.budget).sum ∧
      outcome.error = none ∧
      ((∀ {whole : List Str}, Frame.left whole ∈ stack → 2 ≤ whole.length) → Sound chunk next) := by
  induction stack generalizing outcome with
  | nil => cases asked
  | cons frame stack ih =>
    cases frame with
    | left whole =>
      unfold resume at asked
      split at asked
      · rename_i error bad
        obtain ⟨-,-,-,-,clean,-⟩ := ih asked
        have both := merged_none clean
        rw [bad] at both
        cases both.1
      · rename_i clean
        cases asked
        refine ⟨rfl,rfl,rfl,?_,clean,?_⟩
        · simp [budget,Frame.budget]
        · intro halves
          have parts := mid_bounds (halves (List.mem_cons_self ..))
          refine ⟨?_,?_⟩
          · intro empty
            rw [List.drop_eq_nil_iff] at empty
            omega
          · intro other member
            rcases List.mem_cons.mp member with same | member
            · cases same
            · exact halves (List.mem_cons_of_mem _ member)
    | right left =>
      obtain ⟨covered,groups,rest,cost,clean,sound⟩ := ih asked
      refine ⟨?_,?_,rest,?_,(merged_none clean).2,?_⟩
      · simpa [merged,held] using covered
      · simpa [merged,heldGroups] using groups
      · simpa [Frame.budget] using cost
      · intro halves
        exact sound fun member => halves (List.mem_cons_of_mem _ member)

theorem settled_spec {chunk : List Str} {result : Result Event} {outcome : ChunkOutcome Event}
    (direct : settled ⟨true,result⟩ chunk = some outcome) :
    outcome.covered = result.gained chunk ∧ outcome.groups = result.success.getD [] ∧
      (outcome.error = none → result.success.isSome = true) := by
  unfold settled at direct
  rw [if_neg (by simp)] at direct
  cases result with
  | THREW =>
    cases direct
    exact ⟨rfl,rfl,fun clean => by cases clean⟩
  | result result =>
    dsimp only at direct
    cases verdict : classify result with
    | none =>
      rw [verdict] at direct
      cases direct
      simp [resolved,Result.gained,Result.success,verdict]
    | some apiError =>
      rw [verdict] at direct
      dsimp only at direct
      split at direct
      · cases direct
      · cases direct
        simp [failed,Result.gained,Result.success,verdict]
      · cases direct
        simp [failed,Result.gained,Result.success,verdict]

theorem settled_failed {chunk : List Str} {result : Result Event} (halved : settled ⟨true,result⟩ chunk = none) :
    result.success = none := by
  unfold settled at halved
  rw [if_neg (by simp)] at halved
  cases result with
  | THREW => cases halved
  | result result =>
    dsimp only at halved
    cases verdict : classify result with
    | none =>
      rw [verdict] at halved
      cases halved
    | some apiError => simp [Result.success,verdict]

-- All that a reply to a call of the latest run can do.
inductive Answered (result : Result Event) (chunk : List Str) (stack : List (Frame Event)) : Progress Event → Prop where
  | asks {part : List Str} {next : List (Frame Event)} : held next = held stack ++ result.gained chunk →
      heldGroups next = heldGroups stack ++ result.success.getD [] → (∀ a, a ∈ scope part next ↔ a ∈ scope chunk stack) →
      budget part next < budget chunk stack → Sound part next → Answered result chunk stack (.asks part next)
  | returns {outcome : ChunkOutcome Event} : outcome.covered = held stack ++ result.gained chunk →
      outcome.groups = heldGroups stack ++ result.success.getD [] →
      (outcome.error = none → ∀ a ∈ scope chunk stack, a ∈ outcome.covered) → Answered result chunk stack (.returns outcome)

theorem gained_success {result : Result Event} {chunk : List Str} (good : result.success.isSome = true) :
    result.gained chunk = chunk := by
  unfold Result.gained
  rw [if_pos good]

theorem answer_answered {result : Result Event} {chunk : List Str} {stack : List (Frame Event)} (sound : Sound chunk stack) :
    Answered result chunk stack (answer ⟨true,result⟩ chunk stack) := by
  have long : 0 < chunk.length := List.length_pos_iff.mpr sound.some
  unfold answer
  cases verdict : settled ⟨true,result⟩ chunk with
  | none =>
    have failure := settled_failed verdict
    have parts := mid_bounds (settled_long verdict)
    have whole : chunk.take (mid chunk) ++ chunk.drop (mid chunk) = chunk := List.take_append_drop ..
    refine .asks ?_ ?_ ?_ ?_ ⟨?_,?_⟩
    · simp [held,Result.gained,failure]
    · simp [heldGroups,failure]
    · intro a
      simp only [scope,held,remaining]
      rw [← List.append_assoc (chunk.take (mid chunk)),whole]
    · simp only [budget,List.map_cons,List.sum_cons,Frame.budget,List.length_take,List.length_drop]
      omega
    · intro empty
      rw [List.take_eq_nil_iff] at empty
      rcases empty with zero | empty
      · omega
      · exact sound.some empty
    · intro other member
      rcases List.mem_cons.mp member with same | member
      · cases same
        exact settled_long verdict
      · exact sound.halves member
  | some outcome =>
    obtain ⟨covered,groups,clean⟩ := settled_spec verdict
    dsimp only
    cases progress : resume outcome stack with
    | asks part next =>
      obtain ⟨kept,keptGroups,rest,cost,none,halves⟩ := resume_asks progress
      have good := clean none
      refine .asks ?_ ?_ ?_ ?_ (halves sound.halves)
      · rw [kept,covered]
      · rw [keptGroups,groups]
      · intro a
        rw [gained_success good] at covered
        simp only [scope,kept,rest,covered,List.append_assoc]
      · rw [cost]
        unfold budget
        omega
    | returns final =>
      obtain ⟨kept,keptGroups,done⟩ := resume_returns progress
      refine .returns ?_ ?_ ?_
      · rw [kept,covered]
      · rw [keptGroups,groups]
      · intro none a member
        obtain ⟨first,empty⟩ := done none
        rw [kept,covered,gained_success (clean first)]
        simpa [scope,empty] using member

theorem resume_failed {outcome : ChunkOutcome Event} {error : ApiError} (bad : outcome.error = some error)
    (stack : List (Frame Event)) : ∃ final, resume outcome stack = .returns final := by
  cases progress : resume outcome stack with
  | asks part next =>
    obtain ⟨-,-,-,-,clean,-⟩ := resume_asks progress
    rw [bad] at clean
    cases clean
  | returns final => exact ⟨final,rfl⟩

-- A call whose run is no longer the latest one makes no further request.
theorem answer_stale (result : Result Event) (chunk : List Str) (stack : List (Frame Event)) :
    ∃ final, answer ⟨false,result⟩ chunk stack = .returns final := resume_failed rfl stack

theorem answer_budget {reply : Reply Event} {chunk part : List Str} {stack next : List (Frame Event)} (sound : Sound chunk stack)
    (asked : answer reply chunk stack = .asks part next) : budget part next < budget chunk stack ∧ Sound part next := by
  obtain ⟨current,result⟩ := reply
  cases current with
  | false =>
    obtain ⟨final,returned⟩ := answer_stale result chunk stack
    rw [returned] at asked
    cases asked
  | true =>
    have all : Answered result chunk stack (answer ⟨true,result⟩ chunk stack) := answer_answered sound
    rw [asked] at all
    cases all with
    | asks _ _ _ less next => exact ⟨less,next⟩

theorem drive_budget {chunk : List Str} {stack : List (Frame Event)} (sound : Sound chunk stack) (replies : List (Reply Event))
    (enough : budget chunk stack ≤ replies.length) :
    ∃ outcome rest, drive (.asks chunk stack) replies = some (outcome,rest) ∧ replies.length ≤ rest.length + budget chunk stack := by
  induction replies generalizing chunk stack with
  | nil =>
    have some := sound.budget_some
    simp only [List.length_nil] at enough
    omega
  | cons reply replies ih =>
    have some := sound.budget_some
    simp only [List.length_cons] at enough ⊢
    cases progress : answer reply chunk stack with
    | asks part next =>
      obtain ⟨less,again⟩ := answer_budget sound progress
      obtain ⟨outcome,rest,driven,within⟩ := ih again (by omega)
      refine ⟨outcome,rest,?_,by omega⟩
      simpa [drive,progress] using driven
    | returns outcome => exact ⟨outcome,replies,by simp [drive,progress],by omega⟩

-- The splitting ends: a chunk of n authors takes at most 2n - 1 requests, whatever they are told.
theorem fetchChunk_requests {chunk : List Str} (some_ : chunk ≠ []) (replies : List (Reply Event))
    (enough : 2 * chunk.length - 1 ≤ replies.length) :
    ∃ outcome rest, fetchChunk chunk replies = some (outcome,rest) ∧ replies.length ≤ rest.length + (2 * chunk.length - 1) := by
  have sound : Sound chunk ([] : List (Frame Event)) := ⟨some_,fun member => by cases member⟩
  have driven := drive_budget sound replies (by simpa [budget] using enough)
  rw [drive_fetchChunk] at driven
  simpa [budget] using driven

end Progress

end DeepFry.GraphQLExplorer
