import DeepFry.Lib.Machine
import DeepFry.Spamhunter.Enumerate

namespace DeepFry.Spamhunter

structure Event where
  id : Str
  pubkey : Str
  kind : Int
  createdAt : Int
  content : Str
  tags : List (List Str)
deriving DecidableEq

structure AuthorGroup where
  author : Str
  events : List Event
deriving DecidableEq

structure ScoredInput where
  group : AuthorGroup
  whitelisted : Bool
deriving DecidableEq

-- The groups collected into a map: of two groups of one author the later one stays.
def byAuthor (groups : List AuthorGroup) : Table Str (List Event) :=
  groups.foldl (fun map g => map.insert g.author g.events) ∅

-- One entry for each requested pubkey; an entry is taken out of the map when it is used.
def matchGroups : List Str → Table Str (List Event) → List (Str × List Event)
  | [],_ => []
  | pk :: requested,map => (pk,(map.lookup pk).getD []) :: matchGroups requested (map.erase pk)

def productionInputs (batch : List Str) (groups : List AuthorGroup) (whitelist : Table Str Bool) : List ScoredInput :=
  (matchGroups batch (byAuthor groups)).map fun (pk,events) => ⟨⟨pk,events⟩,(whitelist.lookup pk).getD true⟩

theorem matchGroups_length (requested : List Str) (map : Table Str (List Event)) :
    (matchGroups requested map).length = requested.length := by
  induction requested generalizing map with
  | nil => rfl
  | cons pk rest ih => simp [matchGroups,ih]

-- The production fetch yields exactly one input for each author of its batch.
theorem productionInputs_length (batch : List Str) (groups : List AuthorGroup) (whitelist : Table Str Bool) :
    (productionInputs batch groups whitelist).length = batch.length := by
  rw [productionInputs,List.length_map,matchGroups_length]

namespace Pipeline
open Machine

-- Vec::chunks
def chunks (size : Nat) (pubkeys : List Str) : List (List Str) :=
  (List.range ((pubkeys.length + size - 1) / size)).map fun i => (pubkeys.drop (i * size)).take size

inductive Producer where
  | polling
  | sending
  | dropped (result : Except ClientError Unit)
  | returned (result : Except ClientError Unit)
  | panicked

inductive Consumer where
  | receiving
  | scoring (input : ScoredInput)
  | exited
  | panicked (input : ScoredInput)

-- pending: the batches no fetch was made for yet; unsent: what the loop over a fetched batch has left.
structure State where
  pending : List (List Str)
  inFlight : List (List Str)
  unsent : List ScoredInput
  producer : Producer
  channel : List ScoredInput
  consumer : Consumer

inductive Action where
  | launch
  | complete (idx : Nat) (reply : Except ClientError (List ScoredInput))
  | exhaust
  | send
  | handOver
  | hangUp
  | nextBatch
  | receive
  | consume
  | panic
  | exit
  | join

def start (pubkeys : List Str) (authorsPerCall : Nat) : State :=
  ⟨chunks authorsPerCall pubkeys,[],[],.polling,[],.receiving⟩

-- buffer_unordered fills up to its limit before it looks at the fetches in flight.
def filled (fetchConcurrency : Nat) (s : State) : Bool := s.pending.isEmpty || s.inFlight.length = fetchConcurrency

def step (channelCap fetchConcurrency : Nat) (s : State) : Action → Option State
  | .launch =>
    match s.producer,s.pending with
    | .polling,batch :: rest =>
      if s.inFlight.length < fetchConcurrency then some { s with pending := rest, inFlight := s.inFlight ++ [batch] }
      else none
    | _,_ => none
  | .complete idx reply =>
    match s.producer,s.inFlight[idx]? with
    | .polling,some _ =>
      if filled fetchConcurrency s then
        match reply with
        | .ok inputs => some { s with inFlight := s.inFlight.eraseIdx idx, unsent := inputs, producer := .sending }
        | .error e => some { s with inFlight := [], pending := [], producer := .dropped (.error e) }
      else none
    | _,_ => none
  | .exhaust =>
    match s.producer,s.pending,s.inFlight with
    | .polling,[],[] => some { s with producer := .dropped (.ok ()) }
    | _,_,_ => none
  | .send =>
    match s.producer,s.unsent,s.consumer with
    | .sending,_,.panicked _ => none
    | .sending,input :: rest,_ =>
      if s.channel.length < channelCap then some { s with unsent := rest, channel := s.channel ++ [input] } else none
    | _,_,_ => none
  -- an empty channel passes an input straight to a waiting receiver, with or without capacity
  | .handOver =>
    match s.producer,s.unsent,s.channel,s.consumer with
    | .sending,input :: rest,[],.receiving => some { s with unsent := rest, consumer := .scoring input }
    | _,_,_,_ => none
  | .hangUp =>
    match s.producer,s.unsent,s.consumer with
    | .sending,_ :: _,.panicked _ => some { s with inFlight := [], pending := [], producer := .dropped (.ok ()) }
    | _,_,_ => none
  | .nextBatch =>
    match s.producer,s.unsent with
    | .sending,[] => some { s with producer := .polling }
    | _,_ => none
  | .receive =>
    match s.consumer,s.channel with
    | .receiving,input :: rest => some { s with channel := rest, consumer := .scoring input }
    | _,_ => none
  | .consume =>
    match s.consumer with
    | .scoring _ => some { s with consumer := .receiving }
    | _ => none
  | .panic =>
    match s.consumer with
    | .scoring input => some { s with consumer := .panicked input }
    | _ => none
  | .exit =>
    match s.consumer,s.channel,s.producer with
    | .receiving,[],.dropped _ => some { s with consumer := .exited }
    | _,_,_ => none
  | .join =>
    match s.producer,s.consumer with
    | .dropped result,.exited => some { s with producer := .returned result }
    | .dropped _,.panicked _ => some { s with producer := .panicked }
    | _,_ => none

-- What an observer of both ends has seen: the fetches that succeeded, the inputs sent, the inputs scored.
structure History where
  fetched : List (List Str × List ScoredInput)
  sent : List ScoredInput
  consumed : List ScoredInput

def History.empty : History := ⟨[],[],[]⟩

def note (s : State) (action : Action) (h : History) : History :=
  match action with
  | .complete idx (.ok inputs) => { h with fetched := h.fetched ++ [((s.inFlight[idx]?).getD [],inputs)] }
  | .send | .handOver => { h with sent := h.sent ++ s.unsent.take 1 }
  | .consume =>
    match s.consumer with
    | .scoring input => { h with consumed := h.consumed ++ [input] }
    | _ => h
  | _ => h

def fetchedInputs (h : History) : List ScoredInput := h.fetched.flatMap Prod.snd

def atConsumer : Consumer → List ScoredInput
  | .scoring input | .panicked input => [input]
  | _ => []

def finished : Producer → Bool
  | .dropped _ | .returned _ | .panicked => true
  | _ => false

structure Conserved (channelCap fetchConcurrency authorsPerCall : Nat) (s : State) (h : History) : Prop where
  order : h.sent = h.consumed ++ (atConsumer s.consumer ++ s.channel)
  fetched : fetchedInputs h = h.sent ++ s.unsent
  room : s.channel.length ≤ channelCap
  batches : ∀ batch ∈ s.pending ++ s.inFlight, batch.length ≤ authorsPerCall
  flights : s.inFlight.length ≤ fetchConcurrency
  spare : s.producer = .sending ∨ s.unsent ≠ [] → s.inFlight.length < fetchConcurrency
  short : (∀ call ∈ h.fetched, call.2.length ≤ call.1.length) → s.unsent.length ≤ authorsPerCall
  exited : s.consumer = .exited → s.channel = [] ∧ finished s.producer = true
  joined : ∀ result, s.producer = .returned result → s.consumer = .exited
  sentAll : s.producer ≠ .sending → s.unsent = [] ∨ finished s.producer = true ∧ ∃ input, s.consumer = .panicked input

variable {channelCap fetchConcurrency authorsPerCall : Nat} {s next : State} {h : History} {action : Action}

theorem chunk_length {size : Nat} {pubkeys batch : List Str} (member : batch ∈ chunks size pubkeys) :
    batch.length ≤ size := by
  obtain ⟨i,_,rfl⟩ := List.mem_map.mp member
  exact List.length_take_le _ _

theorem conserved_start (pubkeys : List Str) :
    Conserved channelCap fetchConcurrency authorsPerCall (start pubkeys authorsPerCall) History.empty where
  order := rfl
  fetched := rfl
  room := Nat.zero_le _
  batches := by
    intro batch member
    exact chunk_length (by simpa [start] using member)
  flights := Nat.zero_le _
  spare := by simp [start]
  short _ := Nat.zero_le _
  exited := nofun
  joined := nofun
  sentAll _ := .inl rfl

theorem idle_unsent (sentAll : s.producer ≠ .sending →
      s.unsent = [] ∨ finished s.producer = true ∧ ∃ input, s.consumer = .panicked input)
    (polling : s.producer = .polling) : s.unsent = [] := by
  rcases sentAll (by rw [polling]; nofun) with nothing | ⟨ended,_⟩
  · exact nothing
  · rw [polling] at ended; cases ended

theorem conserved_launch (conserved : Conserved channelCap fetchConcurrency authorsPerCall s h)
    (moved : step channelCap fetchConcurrency s .launch = some next) :
    Conserved channelCap fetchConcurrency authorsPerCall next h := by
  obtain ⟨order,fetched,room,batches,flights,spare,short,exited,joined,sentAll⟩ := conserved
  simp only [step] at moved
  split at moved
  · rename_i batch rest polling waiting
    split at moved
    · rename_i free
      cases moved
      refine ⟨order,fetched,room,fun other member => ?_,?_,?_,short,exited,joined,sentAll⟩
      · apply batches
        rw [waiting]
        simp only [List.mem_append,List.mem_cons,List.not_mem_nil,or_false] at member ⊢
        tauto
      · rw [List.length_append]; exact free
      · rintro (sending | unsent)
        · rw [polling] at sending; cases sending
        · exact absurd (idle_unsent sentAll polling) unsent
    · cases moved
  · cases moved

theorem conserved_complete {idx : Nat} {reply : Except ClientError (List ScoredInput)}
    (conserved : Conserved channelCap fetchConcurrency authorsPerCall s h)
    (moved : step channelCap fetchConcurrency s (.complete idx reply) = some next) :
    Conserved channelCap fetchConcurrency authorsPerCall next (note s (.complete idx reply) h) := by
  obtain ⟨order,fetched,room,batches,flights,spare,short,exited,joined,sentAll⟩ := conserved
  simp only [step] at moved
  split at moved
  · rename_i batch polling here
    split at moved
    · obtain ⟨inside,same⟩ := List.getElem?_eq_some_iff.mp here
      have known : batch.length ≤ authorsPerCall :=
        batches batch (List.mem_append_right _ (List.mem_of_getElem? here))
      have nothing := idle_unsent sentAll polling
      cases reply with
      | ok inputs =>
        cases moved
        refine ⟨order,?_,room,fun other member => ?_,?_,fun _ => ?_,fun frugal => ?_,?_,nofun,?_⟩
        · simp only [note,fetchedInputs,List.flatMap_append,List.flatMap_cons,List.flatMap_nil,List.append_nil]
          rw [← fetchedInputs,fetched,nothing,List.append_nil]
        · apply batches
          rcases List.mem_append.mp member with waiting | flying
          · exact List.mem_append_left _ waiting
          · exact List.mem_append_right _ (List.mem_of_mem_eraseIdx flying)
        · exact (List.length_eraseIdx_le _ _).trans flights
        · rw [List.length_eraseIdx_of_lt inside]; omega
        · have own := frugal _ (List.mem_append_right _ List.mem_cons_self)
          simp only [here,Option.getD_some] at own
          exact own.trans known
        · intro gone
          have ended := (exited gone).2
          rw [polling] at ended
          cases ended
        · exact fun idle => absurd rfl idle
      | error e =>
        cases moved
        refine ⟨order,fetched,room,nofun,Nat.zero_le _,by simp [nothing],short,fun gone => ?_,nofun,fun _ => .inl nothing⟩
        exact ⟨(exited gone).1,rfl⟩
    · cases moved
  · cases moved

theorem conserved_send (conserved : Conserved channelCap fetchConcurrency authorsPerCall s h)
    (moved : step channelCap fetchConcurrency s .send = some next) :
    Conserved channelCap fetchConcurrency authorsPerCall next (note s .send h) := by
  obtain ⟨order,fetched,room,batches,flights,spare,short,exited,joined,sentAll⟩ := conserved
  simp only [step] at moved
  split at moved
  · cases moved
  · rename_i input rest sending waiting alive
    split at moved
    · rename_i free
      cases moved
      refine ⟨?_,?_,?_,batches,flights,fun _ => spare (.inl sending),fun frugal => ?_,fun gone => ?_,?_,?_⟩
      · simp only [note,waiting,List.take_succ_cons,List.take_zero]
        rw [order]
        simp only [List.append_assoc]
      · simp only [note,waiting,List.take_succ_cons,List.take_zero]
        change fetchedInputs h = _
        rw [fetched,waiting,List.append_assoc]
        rfl
      · rw [List.length_append]; exact free
      · have bound := short frugal
        rw [waiting,List.length_cons] at bound
        exact (Nat.le_succ _).trans bound
      · have ended := (exited gone).2
        rw [sending] at ended
        cases ended
      · intro result returned; rw [sending] at returned; cases returned
      · exact fun idle => absurd sending idle
    · cases moved
  · cases moved

theorem conserved_handOver (conserved : Conserved channelCap fetchConcurrency authorsPerCall s h)
    (moved : step channelCap fetchConcurrency s .handOver = some next) :
    Conserved channelCap fetchConcurrency authorsPerCall next (note s .handOver h) := by
  obtain ⟨order,fetched,room,batches,flights,spare,short,exited,joined,sentAll⟩ := conserved
  simp only [step] at moved
  split at moved
  · rename_i input rest sending waiting empty idle
    cases moved
    refine ⟨?_,?_,room,batches,flights,fun _ => spare (.inl sending),fun frugal => ?_,nofun,?_,?_⟩
    · simp only [note,waiting,List.take_succ_cons,List.take_zero]
      rw [order,idle,empty]
      simp [atConsumer]
    · simp only [note,waiting,List.take_succ_cons,List.take_zero]
      change fetchedInputs h = _
      rw [fetched,waiting,List.append_assoc]
      rfl
    · have bound := short frugal
      rw [waiting,List.length_cons] at bound
      exact (Nat.le_succ _).trans bound
    · intro result returned; rw [sending] at returned; cases returned
    · exact fun idle => absurd sending idle
  · cases moved

theorem conserved_producer (conserved : Conserved channelCap fetchConcurrency authorsPerCall s h)
    (turn : action = .exhaust ∨ action = .hangUp ∨ action = .nextBatch ∨ action = .join)
    (moved : step channelCap fetchConcurrency s action = some next) :
    Conserved channelCap fetchConcurrency authorsPerCall next (note s action h) := by
  obtain ⟨order,fetched,room,batches,flights,spare,short,exited,joined,sentAll⟩ := conserved
  rcases turn with rfl | rfl | rfl | rfl
  · simp only [step] at moved
    split at moved
    · rename_i polling _ _
      have nothing := idle_unsent sentAll polling
      cases moved
      exact ⟨order,fetched,room,batches,flights,by simp [nothing],short,fun gone => ⟨(exited gone).1,rfl⟩,nofun,
        fun _ => .inl nothing⟩
    · cases moved
  · simp only [step] at moved
    split at moved
    · rename_i sending _ dead
      have free := spare (.inl sending)
      cases moved
      exact ⟨order,fetched,room,nofun,Nat.zero_le _,fun _ => (Nat.zero_le _).trans_lt free,short,
        fun gone => ⟨(exited gone).1,rfl⟩,nofun,fun _ => .inr ⟨rfl,_,dead⟩⟩
    · cases moved
  · simp only [step] at moved
    split at moved
    · rename_i sending nothing
      cases moved
      refine ⟨order,fetched,room,batches,flights,by simp [nothing],short,fun gone => ?_,nofun,fun _ => .inl nothing⟩
      have ended := (exited gone).2
      rw [sending] at ended
      cases ended
    · cases moved
  · simp only [step] at moved
    split at moved
    · rename_i result dropped gone
      cases moved
      refine ⟨order,fetched,room,batches,flights,?_,short,fun gone => ⟨(exited gone).1,rfl⟩,fun _ _ => gone,fun _ => ?_⟩
      · rintro (sending | unsent)
        · cases sending
        · exact spare (.inr unsent)
      · exact (sentAll (by rw [dropped]; nofun)).imp_right fun dead => ⟨rfl,dead.2⟩
    · rename_i result dropped dead
      cases moved
      refine ⟨order,fetched,room,batches,flights,?_,short,fun gone => ⟨(exited gone).1,rfl⟩,nofun,fun _ => .inr ⟨rfl,_,dead⟩⟩
      rintro (sending | unsent)
      · cases sending
      · exact spare (.inr unsent)
    · cases moved

theorem conserved_consumer (conserved : Conserved channelCap fetchConcurrency authorsPerCall s h)
    (turn : action = .receive ∨ action = .consume ∨ action = .panic ∨ action = .exit)
    (moved : step channelCap fetchConcurrency s action = some next) :
    Conserved channelCap fetchConcurrency authorsPerCall next (note s action h) := by
  obtain ⟨order,fetched,room,batches,flights,spare,short,exited,joined,sentAll⟩ := conserved
  rcases turn with rfl | rfl | rfl | rfl
  · simp only [step] at moved
    split at moved
    · rename_i input rest idle waiting
      cases moved
      refine ⟨?_,fetched,?_,batches,flights,spare,short,nofun,fun result returned => ?_,fun idle' => ?_⟩
      · change h.sent = _
        rw [order,idle,waiting]
        rfl
      · rw [waiting,List.length_cons] at room; exact (Nat.le_succ _).trans room
      · have gone := joined result returned
        rw [idle] at gone
        cases gone
      · refine (sentAll idle').imp_right fun dead => ?_
        obtain ⟨_,input,dead⟩ := dead
        rw [idle] at dead
        cases dead
    · cases moved
  · simp only [step] at moved
    split at moved
    · rename_i input scoring
      cases moved
      refine ⟨?_,?_,room,batches,flights,spare,?_,nofun,fun result returned => ?_,fun idle' => ?_⟩
      · simp only [note,scoring]
        rw [order,scoring]
        simp [atConsumer]
      · simp only [note,scoring]; exact fetched
      · simp only [note,scoring]; exact short
      · have gone := joined result returned
        rw [scoring] at gone
        cases gone
      · refine (sentAll idle').imp_right fun dead => ?_
        obtain ⟨_,input,dead⟩ := dead
        rw [scoring] at dead
        cases dead
    · cases moved
  · simp only [step] at moved
    split at moved
    · rename_i input scoring
      cases moved
      refine ⟨?_,fetched,room,batches,flights,spare,short,nofun,fun result returned => ?_,fun idle' => ?_⟩
      · change h.sent = _
        rw [order,scoring]
        rfl
      · have gone := joined result returned
        rw [scoring] at gone
        cases gone
      · exact (sentAll idle').imp_right fun dead => ⟨dead.1,_,rfl⟩
    · cases moved
  · simp only [step] at moved
    split at moved
    · rename_i result idle empty dropped
      cases moved
      refine ⟨?_,fetched,room,batches,flights,spare,short,fun _ => ⟨empty,by rw [dropped]; rfl⟩,fun _ _ => rfl,fun idle' => ?_⟩
      · change h.sent = _
        rw [order,idle]
        rfl
      · refine (sentAll idle').imp_right fun dead => ?_
        obtain ⟨_,input,dead⟩ := dead
        rw [idle] at dead
        cases dead
    · cases moved

theorem conserved_step (conserved : Conserved channelCap fetchConcurrency authorsPerCall s h)
    (moved : step channelCap fetchConcurrency s action = some next) :
    Conserved channelCap fetchConcurrency authorsPerCall next (note s action h) := by
  cases action with
  | launch => exact conserved_launch conserved moved
  | complete idx reply => exact conserved_complete conserved moved
  | send => exact conserved_send conserved moved
  | handOver => exact conserved_handOver conserved moved
  | exhaust => exact conserved_producer conserved (.inl rfl) moved
  | hangUp => exact conserved_producer conserved (.inr (.inl rfl)) moved
  | nextBatch => exact conserved_producer conserved (.inr (.inr (.inl rfl))) moved
  | join => exact conserved_producer conserved (.inr (.inr (.inr rfl))) moved
  | receive => exact conserved_consumer conserved (.inl rfl) moved
  | consume => exact conserved_consumer conserved (.inr (.inl rfl)) moved
  | panic => exact conserved_consumer conserved (.inr (.inr (.inl rfl))) moved
  | exit => exact conserved_consumer conserved (.inr (.inr (.inr rfl))) moved

theorem flights_bound {flights : List (List Str)} (batches : ∀ batch ∈ flights, batch.length ≤ authorsPerCall) :
    flights.flatten.length ≤ flights.length * authorsPerCall := by
  induction flights with
  | nil => simp
  | cons batch rest ih =>
    have first := batches batch List.mem_cons_self
    have later := ih fun other member => batches other (List.mem_cons_of_mem _ member)
    rw [List.flatten_cons,List.length_append,List.length_cons,Nat.succ_mul]
    omega

-- Inputs are consumed in the order they were sent, each once; all of them before run_pipeline returns; and what is
-- fetched or being fetched but not consumed stays within the bound.
theorem pipeline_conservation {pubkeys : List Str} (positive : 0 < authorsPerCall) {s : State × History}
    (path : Reached (traced note (step channelCap fetchConcurrency)) (fun _ _ => True)
      (start pubkeys authorsPerCall,History.empty) s) :
    (∃ under, s.2.sent = s.2.consumed ++ under) ∧
    (∀ result, s.1.producer = .returned result → s.2.consumed = s.2.sent ∧ s.2.sent = fetchedInputs s.2) ∧
    ((∀ call ∈ s.2.fetched, call.2.length ≤ call.1.length) →
      (fetchedInputs s.2).length + s.1.inFlight.flatten.length ≤
        s.2.consumed.length + (channelCap + (fetchConcurrency + 1) * authorsPerCall)) := by
  have conserved : Conserved channelCap fetchConcurrency authorsPerCall s.1 s.2 := by
    refine path.invariant (fun s => Conserved channelCap fetchConcurrency authorsPerCall s.1 s.2) ?_
      fun {_ _ _} conserved _ moved => ?_
    · exact conserved_start pubkeys
    · obtain ⟨stepped,noted⟩ := traced_parts moved
      rw [noted]
      exact conserved_step conserved stepped
  refine ⟨⟨_,conserved.order⟩,fun result returned => ?_,fun frugal => ?_⟩
  · have gone := conserved.joined result returned
    have order := conserved.order
    rw [gone,(conserved.exited gone).1] at order
    have none_left : s.1.unsent = [] := by
      rcases conserved.sentAll (by rw [returned]; nofun) with nothing | ⟨_,input,dead⟩
      · exact nothing
      · rw [gone] at dead; cases dead
    have fetched := conserved.fetched
    rw [none_left,List.append_nil] at fetched
    exact ⟨by simpa [atConsumer] using order.symm,fetched.symm⟩
  · have sent := congrArg List.length conserved.order
    have fetched := congrArg List.length conserved.fetched
    have flying := flights_bound fun batch member => conserved.batches batch (List.mem_append_right _ member)
    have one : (atConsumer s.1.consumer).length ≤ 1 := by cases s.1.consumer <;> simp [atConsumer]
    have unsent := conserved.short frugal
    have room := conserved.room
    have flights := conserved.flights
    simp only [List.length_append] at sent fetched
    by_cases idle : s.1.unsent = []
    · have most : s.1.inFlight.length * authorsPerCall ≤ fetchConcurrency * authorsPerCall := Nat.mul_le_mul_right _ flights
      rw [idle,List.length_nil] at fetched
      rw [Nat.succ_mul]
      omega
    · have free := conserved.spare (.inr idle)
      have most : (s.1.inFlight.length + 1) * authorsPerCall ≤ fetchConcurrency * authorsPerCall := Nat.mul_le_mul_right _ free
      rw [Nat.succ_mul] at most
      rw [Nat.succ_mul]
      omega

def alice : Str := [97]

def bob : Str := [98]

-- The production fetch answers alice's batch; bob's fails while alice's input is still in the channel.
def failingRun : List Action :=
  [.launch,.launch,.complete 0 (.ok (productionInputs [alice] [] ∅)),.send,.nextBatch,.complete 0 (.error .Unavailable),
    .receive,.consume,.exit,.join]

def returnedError : Producer → Bool
  | .returned (.error _) => true
  | _ => false

theorem pipeline_conservation_sample : ∃ s : State × History,
    returnedError s.1.producer = true ∧ fetchedInputs s.2 = [⟨⟨alice,[]⟩,true⟩] ∧ s.2.consumed = fetchedInputs s.2 := by
  obtain ⟨s,path,found⟩ := replay_final (traced note (step 1 2)) (fun _ _ => True)
    (start [alice,bob] 1,History.empty) failingRun
    (fun s => returnedError s.1.producer && decide (fetchedInputs s.2 = [⟨⟨alice,[]⟩,true⟩]))
    (by decide +kernel) (by decide +kernel)
  simp only [Bool.and_eq_true,decide_eq_true_eq] at found
  refine ⟨s,found.1,found.2,?_⟩
  have conservation := pipeline_conservation (by decide) path
  cases ended : s.1.producer with
  | returned result =>
    obtain ⟨consumed,sent⟩ := conservation.2.1 result ended
    rw [consumed,sent]
  | polling | sending | dropped _ | panicked =>
    rw [ended] at found
    cases found.1

end Pipeline
end DeepFry.Spamhunter
