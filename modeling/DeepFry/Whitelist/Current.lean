import DeepFry.Whitelist.Membership

namespace DeepFry.Whitelist
variable {B : Type} {lib : Library B} {sha256 : Bytes → Bytes32} {retryCount : Nat} {w next : World B} {f g : Filter B}
  {body rest : Bytes} {stage : Stage} {wire : Wire} {sent : Response} {start : Option Bytes}

-- Both are there, with one payload.
def Alike (held served : Option (Filter B)) : Prop := ∃ f g, held = some f ∧ served = some g ∧ f.payload = g.payload

instance (held served : Option (Filter B)) : Decidable (Alike held served) :=
  decidable_of_iff (held.any (fun f => served.any fun g => decide (f.payload = g.payload)) = true) <| by
    constructor
    · intro both
      obtain ⟨f,held,inner⟩ := (Option.any_eq_true _ _).mp both
      obtain ⟨g,served,same⟩ := (Option.any_eq_true _ _).mp inner
      exact ⟨f,g,held,served,of_decide_eq_true same⟩
    · intro ⟨f,g,held,served,same⟩
      exact (Option.any_eq_true _ _).mpr ⟨f,held,(Option.any_eq_true _ _).mpr ⟨g,served,decide_eq_true same⟩⟩

theorem alike_payload {held served other : Option (Filter B)} (same : other.map Filter.payload = served.map Filter.payload) :
    Alike held other ↔ Alike held served := by
  have direct : ∀ {one two : Option (Filter B)}, one.map Filter.payload = two.map Filter.payload → Alike held one → Alike held two := by
    intro one two same alike
    obtain ⟨f,g,holds,there,payload⟩ := alike
    rw [there,Option.map_some,eq_comm,Option.map_eq_some_iff] at same
    obtain ⟨k,here,equal⟩ := same
    exact ⟨f,k,holds,here,payload.trans equal.symm⟩
  exact ⟨direct same,direct same.symm⟩

-- The filter held has the payload of the filter being served.
def Current (w : World B) : Prop := Alike w.filter w.server.built

instance (w : World B) : Decidable (Current w) := inferInstanceAs (Decidable (Alike w.filter w.server.built))

-- The attempt ends the cycle with a 304 or with a body that is accepted.
def settles (lib : Library B) (sent : Response) (wire : Wire) : Bool :=
  match wire.carry sent with
  | .notModified => true
  | .ok body => (readFilter lib body).1.isOk
  | _ => false

-- At a 304 the marker held is the hash of the payload held. A body altered on the way still has, after the 45 bytes of magic,
-- version, rate and marker, the length and the payload that were sent.
def unaltered (sha256 : Bytes → Bytes32) (held : Option (Filter B)) : Response → Wire → Bool
  | .notModified _,_ => held.any fun f => decide (f.gen = sha256 f.payload)
  | .ok _ content,.altered body => (content.drop 45).isPrefixOf (body.drop 45)
  | _,_ => true

-- The snapshot is the written form of the filter swapped in, whose marker is the hash of its payload.
structure Serving (sha256 : Bytes → Bytes32) (server : Server B) : Prop where
  snapshot : server.snapshot = server.built.map fun g => ⟨g.etag,g.writeTo⟩
  marked : ∀ g, server.built = some g → g.gen = sha256 g.payload ∧ g.payload.length < 2^63

-- The answer on its way was made from the filter that was then being served.
def Answered (sha256 : Bytes → Bytes32) (w : World B) : Prop :=
  ∀ attempt sent, w.process = .waiting attempt sent →
    ∃ server : Server B, Serving sha256 server ∧ server.built = w.served ∧ handleBloom server (w.filter.map Filter.etag) = sent

-- The file is the one found, or the whole body of an accepted 200, and so is what is renamed to it.
structure Persisted (start : Option Bytes) (w : World B) : Prop where
  file : w.file = start ∨ ∃ body ∈ w.accepted, w.file = some body
  process : ∀ body stage, w.process = .persisting body stage → body ∈ w.accepted ∧ (stage = .close ∨ stage = .rename → w.tmp = some body)

theorem refresh_serving (serving : Serving sha256 w.server) (fp : UInt64) (keys : List Bytes32) :
    Serving sha256 (refresh lib sha256 fp keys w.server) := by
  unfold refresh
  split
  · exact ⟨serving.snapshot,serving.marked⟩
  · rename_i f built
    obtain ⟨marshalled,gen⟩ := rebuild_marshalled built
    refine ⟨rfl,?_⟩
    intro g same
    cases same
    exact ⟨gen,lib.sliced _ _ marshalled⟩

theorem fetch_persisted {received : Received} (persisted : Persisted start w) (fetched : Fetched lib received w next) :
    Persisted start next := by
  cases fetched with
  | kept process calm _ => exact ⟨persisted.file,fun body stage same => absurd same (calm body stage)⟩
  | stored body f received read =>
    constructor
    · rcases persisted.file with same | ⟨other,member,whole⟩
      · exact .inl same
      · exact .inr ⟨other,List.mem_cons_of_mem _ member,whole⟩
    · intro other stage same
      cases same
      exact ⟨List.mem_cons_self,fun late => absurd late (by decide)⟩

theorem persist_persisted (persisted : Persisted start w) (process : w.process = .persisting body stage) (failed removed : Bool) :
    Persisted start (persist failed removed body stage w) := by
  obtain ⟨member,complete⟩ := persisted.process body stage process
  unfold persist
  split
  · exact ⟨persisted.file,fun _ _ same => nomatch same⟩
  · cases stage with
    | create =>
      refine ⟨persisted.file,?_⟩
      intro other later same
      cases same
      exact ⟨member,fun late => absurd late (by decide)⟩
    | write =>
      refine ⟨persisted.file,?_⟩
      intro other later same
      cases same
      exact ⟨member,fun _ => rfl⟩
    | close =>
      refine ⟨persisted.file,?_⟩
      intro other later same
      cases same
      exact ⟨member,fun _ => complete (.inl rfl)⟩
    | rename => exact ⟨.inr ⟨body,member,complete (.inr rfl)⟩,fun _ _ same => nomatch same⟩

theorem step_persisted (persisted : Persisted start w) {action : Action} (moved : step lib sha256 retryCount w action = some next) :
    Persisted start next := by
  cases step_cases moved with
  | refresh | restart => exact ⟨persisted.file,persisted.process⟩
  | start | tick | answer | crash => exact ⟨persisted.file,fun _ _ same => nomatch same⟩
  | fetch wire waiting fetched => exact fetch_persisted persisted fetched
  | written n process =>
    refine ⟨persisted.file,?_⟩
    intro other later same
    cases process.symm.trans same
    exact ⟨(persisted.process _ .write process).1,fun late => absurd late (by decide)⟩
  | persist failed removed process => exact persist_persisted persisted process failed removed

theorem fetched_server {received : Received} (fetched : Fetched lib received w next) : next.server = w.server := by
  cases fetched with
  | kept process calm quiet => rfl
  | stored body f received read => rfl

theorem persist_server (failed removed : Bool) : (persist failed removed body stage w).server = w.server := by
  unfold persist
  split
  · rfl
  · cases stage with
    | _ => rfl

theorem step_serving (serving : Serving sha256 w.server) {action : Action} (moved : step lib sha256 retryCount w action = some next) :
    Serving sha256 next.server := by
  cases step_cases moved with
  | refresh fp keys => exact refresh_serving serving fp keys
  | restart => exact ⟨rfl,fun g built => nomatch built⟩
  | start | tick | answer | written | crash => exact serving
  | fetch wire waiting fetched =>
    rw [fetched_server fetched]
    exact serving
  | persist failed removed process =>
    rw [persist_server]
    exact serving

theorem persist_settled (failed removed : Bool) : (∀ attempt sent, (persist failed removed body stage w).process ≠ .waiting attempt sent) ∧
    (persist failed removed body stage w).filter = w.filter := by
  unfold persist
  split
  · exact ⟨fun _ _ => nofun,rfl⟩
  · cases stage with
    | _ => exact ⟨fun _ _ => nofun,rfl⟩

theorem step_answered (serving : Serving sha256 w.server) (answered : Answered sha256 w) {action : Action}
    (moved : step lib sha256 retryCount w action = some next) : Answered sha256 next := by
  cases step_cases moved with
  | refresh | restart | written => exact answered
  | start | tick | crash => exact fun _ _ same => nomatch same
  | answer =>
    intro attempt sent same
    cases same
    exact ⟨w.server,serving,rfl,rfl⟩
  | fetch wire waiting fetched =>
    cases fetched with
    | kept process calm quiet => exact fun attempt sent same => absurd same (quiet attempt sent)
    | stored body f received read => exact fun _ _ same => nomatch same
  | persist failed removed process => exact fun attempt sent same => absurd same ((persist_settled failed removed).1 attempt sent)

-- What goes on until the cycle is over, and on the server meanwhile.
def Action.inCycle : Action → Bool
  | .refresh _ _ | .restart | .written _ | .persist _ _ => true
  | .start | .tick | .answer | .fetch _ | .crash => false

theorem step_filter {action : Action} (within : action.inCycle = true) (moved : step lib sha256 retryCount w action = some next) :
    next.filter = w.filter := by
  cases step_cases moved with
  | refresh | restart | written => rfl
  | start | tick | answer | fetch | crash => cases within
  | persist failed removed process => exact (persist_settled failed removed).2

-- A 304 means that the markers agree.
theorem notModified_markers (serving : Serving sha256 w.server) {etag : Str} (answered : response w = .notModified etag) :
    ∃ f g, w.filter = some f ∧ w.server.built = some g ∧ f.gen = g.gen := by
  obtain ⟨snap,held,same⟩ := response_notModified answered
  rw [serving.snapshot] at held
  obtain ⟨g,built,rfl⟩ := Option.map_eq_some_iff.mp held
  cases filter : w.filter with
  | none =>
    rw [filter] at same
    cases same
  | some f =>
    rw [filter] at same
    refine ⟨f,g,rfl,built,?_⟩
    have bytes := etag_injective same
    cases left : f.gen with
    | mk first size =>
      cases right : g.gen with
      | mk second size' =>
        rw [left,right] at bytes
        dsimp only at bytes
        subst bytes
        rfl

-- With the markers equal, the payloads are equal exactly if the marker held is that of its payload.
theorem notModified_current (serving : Serving sha256 w.server) {etag : Str} (answered : response w = .notModified etag)
    (distinct : ∀ f g, w.filter = some f → w.server.built = some g → sha256 f.payload = sha256 g.payload → f.payload = g.payload) :
    Current w ↔ w.filter.any (fun f => decide (f.gen = sha256 f.payload)) = true := by
  obtain ⟨f,g,held,built,same⟩ := notModified_markers serving answered
  have marked := (serving.marked g built).1
  unfold Current
  rw [held,built,Option.any_some,decide_eq_true_eq]
  constructor
  · intro ⟨f',g',first,second,payload⟩
    cases first
    cases second
    rw [same,marked,payload]
  · intro own
    exact ⟨f,g,rfl,rfl,distinct f g held built (own.symm.trans (same.trans marked))⟩

theorem writeTo_payload (f : Filter B) (rest : Bytes) :
    (f.writeTo ++ rest).drop 45 = Stream.toBe 8 f.payload.length ++ (f.payload ++ rest) := by
  have front : (magic ++ [formatVersion] ++ Stream.toBe 8 f.fp.toNat ++ f.gen.bytes).length = 45 := by
    rw [List.length_append,List.length_append,List.length_append,Stream.toBe_length,f.gen.size]
    rfl
  have split : f.writeTo ++ rest =
      (magic ++ [formatVersion] ++ Stream.toBe 8 f.fp.toNat ++ f.gen.bytes) ++ (Stream.toBe 8 f.payload.length ++ (f.payload ++ rest)) := by
    simp only [Filter.writeTo,List.append_assoc]
  rw [split,← front,List.drop_left]

-- The payloads read are equal exactly if the bytes they were read from are.
theorem payload_bytes (left : f.payload.length < 2^63) (right : g.payload.length < 2^63) :
    f.payload = g.payload ↔ g.writeTo.drop 45 <+: (f.writeTo ++ rest).drop 45 := by
  have plain := writeTo_payload g []
  rw [List.append_nil,List.append_nil] at plain
  rw [writeTo_payload,plain]
  constructor
  · intro same
    rw [same]
    exact ⟨rest,List.append_assoc ..⟩
  · intro ⟨tail,whole⟩
    rw [List.append_assoc] at whole
    obtain ⟨length,payloads⟩ := List.append_inj whole (by rw [Stream.toBe_length,Stream.toBe_length])
    have read := congrArg Stream.fromBe length
    rw [Stream.fromBe_exact (by omega),Stream.fromBe_exact (by omega)] at read
    exact ((List.append_inj payloads read).1).symm

-- A body that is accepted carries the payload sent exactly if the bytes of it do.
theorem received_current (serving : Serving sha256 w.server) {etag : Str} {content : Bytes} (answered : response w = .ok etag content)
    (read : (readFilter lib body).1 = .ok f) :
    Alike (some f) w.server.built ↔ content.drop 45 <+: body.drop 45 := by
  obtain ⟨snap,held,same,_⟩ := response_ok answered
  rw [serving.snapshot] at held
  obtain ⟨g,built,rfl⟩ := Option.map_eq_some_iff.mp held
  cases whole : readFilter lib body with
  | mk result rest =>
    rw [whole] at read
    dsimp only at read
    rw [read] at whole
    obtain ⟨written,_,short,_⟩ := readFilter_ok whole
    have short : f.payload.length < 2^63 := by
      unfold maxPayloadBytes at short
      omega
    rw [← same,written,← payload_bytes short (serving.marked g built).2]
    constructor
    · intro ⟨f',g',first,second,payload⟩
      cases first
      cases second.symm.trans built
      exact payload
    · exact fun payload => ⟨f,g,rfl,built,payload⟩

theorem fetch_current (retryCount attempt : Nat) (serving : Serving sha256 w.server) (ends : settles lib (response w) wire = true)
    (distinct : ∀ f g, w.filter = some f → w.server.built = some g → sha256 f.payload = sha256 g.payload → f.payload = g.payload) :
    Alike (fetchOnce lib retryCount attempt (response w) wire w).filter w.server.built ↔
      unaltered sha256 w.filter (response w) wire = true := by
  unfold settles at ends
  unfold fetchOnce doFetch
  cases received : wire.carry (response w) with
  | notModified =>
    obtain ⟨etag,answered⟩ := carry_notModified received
    rw [answered]
    exact notModified_current serving answered distinct
  | ok body =>
    rw [received] at ends
    dsimp only at ends ⊢
    obtain ⟨etag,content,sent,either⟩ := carry_ok received
    cases read : (readFilter lib body).1 with
    | error e =>
      rw [read] at ends
      cases ends
    | ok f =>
      refine (received_current serving sent read).trans ?_
      rw [sent]
      rcases either with rfl | ⟨rfl,rfl⟩
      · exact List.isPrefixOf_iff_prefix.symm
      · exact ⟨fun _ => rfl,fun _ => List.prefix_rfl⟩
  | _ =>
    rw [received] at ends
    cases ends

-- In every run the file is the one found or the whole body of an accepted 200. A cycle that ends with a 304 or an accepted 200 leaves
-- the payload that was served when the server answered exactly if the marker held was that of its payload, or the body came with the
-- payload sent; and that is the payload being served unless the server has another since it answered.
theorem bloom_current {B : Type} (lib : Library B) (sha256 : Bytes → Bytes32) (retryCount : Nat) {file tmp : Option Bytes}
    {refreshed : List (List Bytes32 × UInt64)} {w : World B}
    (path : Machine.Reached (step lib sha256 retryCount) (fun _ _ => True) (world file tmp refreshed) w) :
    (w.file = file ∨ ∃ body ∈ w.accepted, w.file = some body) ∧
    ∀ attempt sent wire next, w.process = .waiting attempt sent → step lib sha256 retryCount w (.fetch wire) = some next →
      settles lib sent wire = true →
      (∀ f g, w.filter = some f → w.served = some g → sha256 f.payload = sha256 g.payload → f.payload = g.payload) →
      ∀ last, Machine.Reached (step lib sha256 retryCount) (fun _ action => action.inCycle = true) next last →
        (Alike last.filter w.served ↔ unaltered sha256 w.filter sent wire = true) ∧
        (last.server.built.map Filter.payload = w.served.map Filter.payload →
          (Current last ↔ unaltered sha256 w.filter sent wire = true)) := by
  have started : Serving sha256 (Server.fresh : Server B) := ⟨rfl,fun g built => nomatch built⟩
  have unasked : Answered sha256 (world file tmp refreshed : World B) := by
    intro attempt sent same
    cases same
  obtain ⟨serving,answered⟩ := path.invariant (fun w => Serving sha256 w.server ∧ Answered sha256 w) ⟨started,unasked⟩
    fun kept _ moved => ⟨step_serving kept.1 moved,step_answered kept.1 kept.2 moved⟩
  have found : Persisted file (world file tmp refreshed : World B) := ⟨.inl rfl,fun _ _ same => nomatch same⟩
  have persisted : Persisted file w := path.invariant (Persisted file) found fun kept _ moved => step_persisted kept moved
  refine ⟨persisted.file,?_⟩
  intro attempt sent wire next waiting moved ends distinct last rest
  have kept : last.filter = next.filter :=
    rest.invariant (fun s => s.filter = next.filter) rfl fun same within moved => (step_filter within moved).trans same
  obtain ⟨server,then_serving,built,rfl⟩ := answered attempt sent waiting
  have alike : Alike last.filter w.served ↔ unaltered sha256 w.filter (handleBloom server (w.filter.map Filter.etag)) wire = true := by
    rw [kept]
    unfold step at moved
    simp only [waiting] at moved
    split at moved
    · cases moved
    · cases moved
      rw [← built] at distinct ⊢
      have one := (@fetch_current _ lib sha256 { w with server } wire) retryCount attempt then_serving ends distinct
      have filters : (fetchOnce lib retryCount attempt (response { w with server }) wire { w with server }).filter =
          (fetchOnce lib retryCount attempt (response { w with server }) wire w).filter := by
        unfold fetchOnce doFetch
        cases wire.carry (response { w with server }) with
        | ok body =>
          dsimp only
          cases (readFilter lib body).1 with
          | _ => rfl
        | _ => rfl
      rw [filters] at one
      exact one
  exact ⟨alike,fun same => (alike_payload same).trans alike⟩

section Samples

def otherKey : Bytes32 := ⟨List.replicate 32 0xCD,by decide⟩

-- The written filter of one key with the payload of the other.
def damaged : Bytes :=
  Filter.writeTo ⟨[oneKey.bytes],millionth,firstBytes (setMarshal [oneKey.bytes]),setMarshal [otherKey.bytes]⟩

def found : List Action := [.refresh millionth [oneKey],.start,.answer]

-- A file whose payload was altered but not its marker is loaded, and the 304 that its marker earns keeps it, while the server
-- goes on serving what it has.
theorem bloom_current_fails : ∃ (w next : World (List Bytes)) (etag : Str),
    Machine.replay (step setLibrary firstBytes 1) (world (some damaged) none []) found = some w ∧
    step setLibrary firstBytes 1 w (.fetch .delivered) = some next ∧
    w.process = .waiting 0 (.notModified etag) ∧ next.process = .idle ∧
    next.server.built.map Filter.payload = w.served.map Filter.payload ∧
    (∀ f g, w.filter = some f → w.served = some g → firstBytes f.payload = firstBytes g.payload → f.payload = g.payload) ∧
    ¬ Current next := by
  have ran : (Machine.replay (step setLibrary firstBytes 1) (world (some damaged) none [] : World (List Bytes)) found).any (fun w =>
      (w.filter.any fun f => w.served.any fun g => decide (firstBytes f.payload ≠ firstBytes g.payload) &&
        decide (w.process = .waiting 0 (.notModified g.etag))) &&
      (step setLibrary firstBytes 1 w (.fetch .delivered)).any fun (next : World (List Bytes)) =>
        decide (next.process = .idle) && decide (next.server.built.map Filter.payload = w.served.map Filter.payload) &&
          decide (¬ Current next)) = true := by
    decide +kernel
  obtain ⟨w,replayed,checked⟩ := (Option.any_eq_true _ _).mp ran
  rw [Bool.and_eq_true] at checked
  obtain ⟨both,moves⟩ := checked
  obtain ⟨f,held,both⟩ := (Option.any_eq_true _ _).mp both
  obtain ⟨g,served,both⟩ := (Option.any_eq_true _ _).mp both
  rw [Bool.and_eq_true,decide_eq_true_eq,decide_eq_true_eq] at both
  obtain ⟨apart,waiting⟩ := both
  obtain ⟨next,moved,last⟩ := (Option.any_eq_true _ _).mp moves
  rw [Bool.and_eq_true,Bool.and_eq_true,decide_eq_true_eq,decide_eq_true_eq,decide_eq_true_eq] at last
  obtain ⟨⟨idle,serves⟩,stale⟩ := last
  refine ⟨w,next,g.etag,replayed,moved,waiting,idle,serves,?_,stale⟩
  intro f' g' one two same
  cases one.symm.trans held
  cases two.symm.trans served
  exact absurd same apart

-- The file that a run wrote itself is confirmed after the restart.
theorem bloom_current_sample : ∃ (w next : World (List Bytes)) (attempt : Nat) (sent : Response),
    Machine.replay (step setLibrary firstBytes 1) (world none none []) (reloaded ++ [.answer]) = some w ∧
    w.process = .waiting attempt sent ∧ Wire.delivered.carry sent = .notModified ∧
    step setLibrary firstBytes 1 w (.fetch .delivered) = some next ∧ Current next := by
  obtain ⟨w,replayed,checked⟩ := (Option.any_eq_true _ _).mp
    (show (Machine.replay (step setLibrary firstBytes 1) (world none none [] : World (List Bytes)) (reloaded ++ [.answer])).any (fun w =>
      decide (Alike w.filter w.served) && decide (w.process = .waiting 0 (response w)) &&
      decide (Wire.delivered.carry (response w) = .notModified) && settles setLibrary (response w) .delivered &&
      unaltered firstBytes w.filter (response w) .delivered &&
      (step setLibrary firstBytes 1 w (.fetch .delivered)).any fun (next : World (List Bytes)) =>
        decide (next.server.built.map Filter.payload = w.served.map Filter.payload)) = true by decide +kernel)
  rw [Bool.and_eq_true,Bool.and_eq_true,Bool.and_eq_true,Bool.and_eq_true,Bool.and_eq_true,decide_eq_true_eq,decide_eq_true_eq,
    decide_eq_true_eq] at checked
  obtain ⟨⟨⟨⟨⟨alike,waiting⟩,answered⟩,ends⟩,whole⟩,moves⟩ := checked
  obtain ⟨next,moved,serves⟩ := (Option.any_eq_true _ _).mp moves
  have path : Machine.Reached (step setLibrary firstBytes 1) (fun _ _ => True) (world none none []) w :=
    Machine.replay_reached .refl (by decide +kernel) replayed
  refine ⟨w,next,0,response w,replayed,waiting,answered,moved,?_⟩
  have distinct : ∀ f g, w.filter = some f → w.served = some g → firstBytes f.payload = firstBytes g.payload → f.payload = g.payload := by
    intro f g held served _
    obtain ⟨f',g',first,second,payload⟩ := alike
    cases first.symm.trans held
    cases second.symm.trans served
    exact payload
  exact (((bloom_current setLibrary firstBytes 1 path).2 0 _ .delivered next waiting moved ends distinct next .refl).2
    (of_decide_eq_true serves)).mpr whole
end Samples

end DeepFry.Whitelist
