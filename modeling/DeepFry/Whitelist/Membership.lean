import DeepFry.Whitelist.Gate

namespace DeepFry.Whitelist
variable {B : Type} {lib : Library B} {sha256 : Bytes → Bytes32} {retryCount : Nat} {w next : World B} {f : Filter B}
  {refreshed more : List (List Bytes32 × UInt64)} {bytes body : Bytes} {stage : Stage} {wire : Wire}

-- The filter of one of these refreshes.
def Refreshed (lib : Library B) (sha256 : Bytes → Bytes32) (refreshed : List (List Bytes32 × UInt64)) (f : Filter B) : Prop :=
  ∃ r ∈ refreshed, rebuild lib sha256 r.2 r.1 = .ok f

def Served (lib : Library B) (sha256 : Bytes → Bytes32) (refreshed : List (List Bytes32 × UInt64)) (bytes : Bytes) : Prop :=
  ∃ f, Refreshed lib sha256 refreshed f ∧ bytes = f.writeTo

-- What is on its way to the plugin was served, and so was what is on its way to the file: it is complete where it is closed or renamed.
structure Process.ServedBy (lib : Library B) (sha256 : Bytes → Bytes32) (w : World B) : Prop where
  sent : ∀ attempt etag body, w.process = .waiting attempt (.ok etag body) → Served lib sha256 w.refreshed body
  persisting : ∀ body stage, w.process = .persisting body stage →
    Served lib sha256 w.refreshed body ∧ (stage = .close ∨ stage = .rename → w.tmp = some body)

theorem Process.ServedBy.free (calm : ∀ body stage, w.process ≠ .persisting body stage)
    (quiet : ∀ attempt sent, w.process ≠ .waiting attempt sent) : Process.ServedBy lib sha256 w :=
  ⟨fun attempt _ _ same => absurd same (quiet attempt _),fun body stage same => absurd same (calm body stage)⟩

-- Every filter and every file comes from a refresh as a whole.
structure Genuine (lib : Library B) (sha256 : Bytes → Bytes32) (w : World B) : Prop where
  snapshot : ∀ entry, w.server.snapshot = some entry → Served lib sha256 w.refreshed entry.bytes
  filter : ∀ f, w.filter = some f → Refreshed lib sha256 w.refreshed f
  file : ∀ bytes, w.file = some bytes → Served lib sha256 w.refreshed bytes
  process : Process.ServedBy lib sha256 w

theorem Refreshed.later (here : Refreshed lib sha256 refreshed f) (kept : ∀ r ∈ refreshed, r ∈ more) : Refreshed lib sha256 more f := by
  obtain ⟨r,member,built⟩ := here
  exact ⟨r,kept r member,built⟩

theorem Served.later (served : Served lib sha256 refreshed bytes) (kept : ∀ r ∈ refreshed, r ∈ more) : Served lib sha256 more bytes := by
  obtain ⟨f,here,same⟩ := served
  exact ⟨f,here.later kept,same⟩

-- Reading what a refresh served gives its filter.
theorem read_refreshed (lawful : lib.Lawful) (served : Served lib sha256 refreshed bytes) (read : (readFilter lib bytes).1 = .ok f) :
    Refreshed lib sha256 refreshed f := by
  obtain ⟨g,here,rfl⟩ := served
  obtain ⟨r,member,built⟩ := here
  cases whole : readFilter lib g.writeTo with
  | mk result rest =>
    rw [whole] at read
    dsimp only at read
    rw [read] at whole
    rw [reread lawful (rebuild_marshalled built).1 whole]
    exact ⟨r,member,built⟩

theorem refresh_genuine (genuine : Genuine lib sha256 w) (fp : UInt64) (keys : List Bytes32) :
    Genuine lib sha256 { w with server := refresh lib sha256 fp keys w.server, refreshed := (keys,fp) :: w.refreshed } := by
  have kept : ∀ r ∈ w.refreshed, r ∈ (keys,fp) :: w.refreshed := fun r member => List.mem_cons_of_mem _ member
  refine ⟨?_,fun f held => (genuine.filter f held).later kept,fun bytes held => (genuine.file bytes held).later kept,?_⟩
  · intro entry snapshot
    dsimp only at snapshot ⊢
    unfold refresh at snapshot
    split at snapshot
    · exact (genuine.snapshot entry snapshot).later kept
    · rename_i f built
      cases snapshot
      exact ⟨f,⟨(keys,fp),List.mem_cons_self,built⟩,rfl⟩
  · refine ⟨fun attempt etag body process => (genuine.process.sent attempt etag body process).later kept,?_⟩
    intro body stage process
    obtain ⟨served,complete⟩ := genuine.process.persisting body stage process
    exact ⟨served.later kept,complete⟩

theorem start_genuine (lawful : lib.Lawful) (genuine : Genuine lib sha256 w) :
    Genuine lib sha256 { w with filter := loadDisk lib w, process := .fetching 0 } := by
  refine ⟨genuine.snapshot,?_,genuine.file,.free (fun _ _ => nofun) fun _ _ => nofun⟩
  intro f held
  dsimp only at held
  unfold loadDisk at held
  split at held
  · exact genuine.filter f held
  · rename_i bytes file
    split at held
    · rename_i g read
      cases held
      exact read_refreshed lawful (genuine.file bytes file) read
    · exact genuine.filter f held

theorem answer_genuine (genuine : Genuine lib sha256 w) (attempt : Nat) :
    Genuine lib sha256 { w with process := .waiting attempt (response w), served := w.server.built } := by
  refine ⟨genuine.snapshot,genuine.filter,genuine.file,?_,fun _ _ same => nomatch same⟩
  intro other etag body same
  injection same with _ answered
  obtain ⟨snap,held,bytes,_⟩ := response_ok answered
  rw [← bytes]
  exact genuine.snapshot snap held

theorem fetch_genuine (lawful : lib.Lawful) (genuine : Genuine lib sha256 w) (intact : ∀ body, wire ≠ .altered body) {attempt : Nat}
    {sent : Response} (waiting : w.process = .waiting attempt sent) (fetched : Fetched lib (wire.carry sent) w next) :
    Genuine lib sha256 next := by
  cases fetched with
  | kept process calm quiet => exact ⟨genuine.snapshot,genuine.filter,genuine.file,.free calm quiet⟩
  | stored body f received read =>
    have served : Served lib sha256 w.refreshed body := by
      obtain ⟨etag,content,rfl,either⟩ := carry_ok received
      rcases either with altered | ⟨_,rfl⟩
      · exact absurd altered (intact body)
      · exact genuine.process.sent attempt etag body waiting
    refine ⟨genuine.snapshot,?_,genuine.file,⟨fun _ _ _ => nofun,?_⟩⟩
    · intro g held
      cases held
      exact read_refreshed lawful served read
    · intro other stage same
      cases same
      exact ⟨served,fun late => absurd late (by decide)⟩

theorem written_genuine (genuine : Genuine lib sha256 w) (process : w.process = .persisting body .write) (n : Nat) :
    Genuine lib sha256 { w with tmp := some (body.take n) } := by
  refine ⟨genuine.snapshot,genuine.filter,genuine.file,genuine.process.sent,?_⟩
  intro other stage same
  dsimp only at same
  rw [process] at same
  cases same
  exact ⟨(genuine.process.persisting body .write process).1,fun late => absurd late (by decide)⟩

theorem persist_genuine (genuine : Genuine lib sha256 w) (process : w.process = .persisting body stage) (failed removed : Bool) :
    Genuine lib sha256 (persist failed removed body stage w) := by
  obtain ⟨served,complete⟩ := genuine.process.persisting body stage process
  unfold persist
  split
  · exact ⟨genuine.snapshot,genuine.filter,genuine.file,.free (fun _ _ => nofun) fun _ _ => nofun⟩
  · cases stage with
    | create =>
      refine ⟨genuine.snapshot,genuine.filter,genuine.file,⟨fun _ _ _ => nofun,?_⟩⟩
      intro other later same
      cases same
      exact ⟨served,fun late => absurd late (by decide)⟩
    | write =>
      refine ⟨genuine.snapshot,genuine.filter,genuine.file,⟨fun _ _ _ => nofun,?_⟩⟩
      intro other later same
      cases same
      exact ⟨served,fun _ => rfl⟩
    | close =>
      refine ⟨genuine.snapshot,genuine.filter,genuine.file,⟨fun _ _ _ => nofun,?_⟩⟩
      intro other later same
      cases same
      exact ⟨served,fun _ => complete (.inl rfl)⟩
    | rename =>
      refine ⟨genuine.snapshot,genuine.filter,?_,.free (fun _ _ => nofun) fun _ _ => nofun⟩
      intro bytes held
      dsimp only at held
      rw [complete (.inr rfl)] at held
      cases held
      exact served

-- Bodies reach the plugin as the server sent them.
def intact (_ : World B) : Action → Bool
  | .fetch (.altered _) => false
  | _ => true

theorem step_genuine (lawful : lib.Lawful) (genuine : Genuine lib sha256 w) {action : Action} (whole : intact w action = true)
    (moved : step lib sha256 retryCount w action = some next) : Genuine lib sha256 next := by
  cases step_cases moved with
  | refresh fp keys => exact refresh_genuine genuine fp keys
  | restart => exact ⟨fun entry held => (nomatch held),genuine.filter,genuine.file,⟨genuine.process.sent,genuine.process.persisting⟩⟩
  | start => exact start_genuine lawful genuine
  | tick => exact ⟨genuine.snapshot,genuine.filter,genuine.file,.free (fun _ _ => nofun) fun _ _ => nofun⟩
  | answer => exact answer_genuine genuine _
  | fetch wire waiting fetched =>
    apply fetch_genuine lawful genuine ?_ waiting fetched
    intro body same
    rw [same] at whole
    cases whole
  | written n process => exact written_genuine genuine process n
  | persist failed removed process => exact persist_genuine genuine process failed removed
  | crash => exact ⟨genuine.snapshot,fun f held => (nomatch held),genuine.file,.free (fun _ _ => nofun) fun _ _ => nofun⟩

-- The two lookups decode alike, and the filter holds what the list holds.
theorem lookup_agrees (lawful : lib.Lawful) (unicode : Unicode) {fp : UInt64} {keys : List Bytes32}
    (built : rebuild lib sha256 fp keys = .ok f) (s : Str) (listed : isWhitelisted unicode (some keys) s = .ok (true,none)) :
    f.containsHex lib unicode s = .ok (true,none) := by
  unfold isWhitelisted lookup at listed
  unfold Filter.containsHex lookup
  cases key : decodeKey unicode s with
  | error panic =>
    rw [key] at listed
    cases listed
  | ok decoded =>
    rw [key] at listed
    cases decoded with
    | none => cases listed
    | some k =>
      have found : (keys.any fun entry => entry.bytes = k) = true := (Prod.mk.inj (Except.ok.inj listed)).1
      obtain ⟨entry,member,same⟩ := List.any_eq_true.mp found
      have held := rebuild_contains lawful built member
      rw [of_decide_eq_true same] at held
      exact congrArg (fun answer => Except.ok (answer,none)) held

theorem lookup_other (unicode : Unicode) (held : Bytes → Bool) {s : Str} (other : isHexKey s = false) :
    lookup unicode held s = .ok (false,none) := by
  unfold lookup
  rw [decodeKey_other other]
  rfl

-- Whatever the order of refreshes, fetches, loads from disk and crashes, the filter held is that of a key list some refresh had, answers
-- true where a whitelist of that list does, and false, as that whitelist, for what is no key of 64 hexadecimal digits.
theorem gate_agrees {B : Type} (lib : Library B) (lawful : lib.Lawful) (sha256 : Bytes → Bytes32) (unicode : Unicode) (retryCount : Nat)
    {file tmp : Option Bytes} {refreshed : List (List Bytes32 × UInt64)} {w : World B} {f : Filter B}
    (earlier : ∀ bytes, file = some bytes → Served lib sha256 refreshed bytes)
    (path : Machine.Reached (step lib sha256 retryCount) (fun w action => intact w action = true) (world file tmp refreshed) w)
    (held : w.filter = some f) :
    ∃ r ∈ w.refreshed, rebuild lib sha256 r.2 r.1 = .ok f ∧
      (∀ s, isWhitelisted unicode (some r.1) s = .ok (true,none) → checkerAnswers lib unicode w s = some (.ok (true,none))) ∧
      ∀ s, isHexKey s = false →
        isWhitelisted unicode (some r.1) s = .ok (false,none) ∧ checkerAnswers lib unicode w s = some (.ok (false,none)) := by
  have initial : Genuine lib sha256 (world file tmp refreshed : World B) :=
    ⟨fun entry snapshot => (nomatch snapshot),fun f filter => (nomatch filter),earlier,.free (fun _ _ => nofun) fun _ _ => nofun⟩
  have genuine : Genuine lib sha256 w :=
    path.invariant (Genuine lib sha256) initial fun kept whole moved => step_genuine lawful kept whole moved
  obtain ⟨r,member,built⟩ := genuine.filter f held
  have answers : ∀ s, checkerAnswers lib unicode w s = some (f.containsHex lib unicode s) := by
    intro s
    unfold checkerAnswers
    rw [held]
    rfl
  refine ⟨r,member,built,?_,?_⟩
  · intro s listed
    rw [answers,lookup_agrees lawful unicode built s listed]
  · intro s other
    constructor
    · unfold isWhitelisted
      exact lookup_other unicode _ other
    · rw [answers]
      unfold Filter.containsHex
      rw [lookup_other unicode _ other]

section Samples

-- An exact set of byte strings, written with a mark before each byte and another at the end of each string.
def setMarshal (keys : List Bytes) : Bytes := keys.flatMap fun k => k.flatMap (fun b => [1,b]) ++ [0]

def setUnmarshal : Bytes → Bytes → List Bytes
  | _,[] => []
  | k,0 :: rest => k :: setUnmarshal [] rest
  | k,_ :: b :: rest => setUnmarshal (k ++ [b]) rest
  | _,[_] => []

theorem setUnmarshal_key (k done rest : Bytes) :
    setUnmarshal done (k.flatMap (fun b => [1,b]) ++ [0] ++ rest) = (done ++ k) :: setUnmarshal [] rest := by
  induction k generalizing done with
  | nil =>
    rw [List.append_nil]
    rfl
  | cons b more ih =>
    change setUnmarshal (done ++ [b]) (more.flatMap (fun b => [1,b]) ++ [0] ++ rest) = _
    rw [ih,List.append_assoc]
    rfl

theorem setUnmarshal_marshal (keys : List Bytes) : setUnmarshal [] (setMarshal keys) = keys := by
  induction keys with
  | nil => rfl
  | cons k rest ih =>
    unfold setMarshal at ih ⊢
    rw [List.flatMap_cons,setUnmarshal_key,ih]
    rfl

def setLibrary : Library (List Bytes) where
  newWithEstimates _ _ := []
  add keys k := k :: keys
  test keys k := keys.contains k
  marshalBinary keys := if (setMarshal keys).length < 2^63 then .ok (setMarshal keys) else .error (Bytes.text "too long")
  unmarshalBinary bytes := .ok (setUnmarshal [] bytes)
  sliced keys payload marshalled := by
    split at marshalled
    · cases marshalled
      assumption
    · cases marshalled

theorem setLibrary_lawful : setLibrary.Lawful where
  added keys k := by simp [setLibrary]
  kept keys k other held := by
    simp only [setLibrary,List.contains_cons,Bool.or_eq_true] at held ⊢
    exact .inr held
  inverts keys payload marshalled := by
    simp only [setLibrary] at marshalled
    split at marshalled
    · cases marshalled
      exact congrArg Except.ok (setUnmarshal_marshal keys)
    · cases marshalled

def kelvin : Unicode where
  toLower r := if r = 0x212A then 0x6B else if r = 0x130 then 0x69 else r
  ascii r beyond small := by
    by_cases sign : r = 0x212A
    · exact .inl (if_pos sign)
    · by_cases dotted : r = 0x130
      · exact .inr ((if_neg sign).trans (if_pos dotted))
      · rw [if_neg sign,if_neg dotted] at small
        omega

-- The first 32 bytes, filled with zeros.
def firstBytes (bytes : Bytes) : Bytes32 where
  bytes := (bytes ++ List.replicate 32 0).take 32
  size := by
    rw [List.length_take,List.length_append,List.length_replicate]
    omega

def oneKey : Bytes32 := ⟨List.replicate 32 0xAB,by decide⟩

-- 1e-6 as a float64.
def millionth : UInt64 := 0x3EB0C6F7A0B5ED8D

-- A refresh, a fetch that is persisted, a crash, and a restart that finds the file.
def reloaded : List Action :=
  [.refresh millionth [oneKey],.start,.answer,.fetch .delivered,.persist false false,.persist false false,.persist false false,.persist false false,
    .crash,.start]

def upperKey : Str := (List.replicate 32 [0x41,0x62]).flatten

theorem gate_agrees_sample : ∃ w : World (List Bytes), w.process = .fetching 0 ∧ w.file.isSome = true ∧
    checkerAnswers setLibrary kelvin w upperKey = some (.ok (true,none)) := by
  obtain ⟨w,reached,checked⟩ := Machine.replay_final (step setLibrary firstBytes 1) (fun w action => intact w action = true)
    (world none none []) reloaded
    (fun w => decide (w.process = .fetching 0) && w.file.isSome && w.filter.isSome && decide (w.refreshed = [([oneKey],millionth)]))
    (by decide +kernel) (by decide +kernel)
  rw [Bool.and_eq_true,Bool.and_eq_true,Bool.and_eq_true,decide_eq_true_eq,decide_eq_true_eq] at checked
  obtain ⟨⟨⟨process,file⟩,held⟩,refreshed⟩ := checked
  obtain ⟨f,held⟩ := Option.isSome_iff_exists.mp held
  have earlier : ∀ bytes, (none : Option Bytes) = some bytes → Served setLibrary firstBytes [] bytes := fun _ absent => nomatch absent
  obtain ⟨r,member,_,agrees,_⟩ := gate_agrees setLibrary setLibrary_lawful firstBytes kelvin 1 earlier reached held
  rw [refreshed] at member
  have same : r = ([oneKey],millionth) := List.mem_singleton.mp member
  refine ⟨w,process,file,agrees upperKey ?_⟩
  rw [same]
  decide +kernel
end Samples

end DeepFry.Whitelist
