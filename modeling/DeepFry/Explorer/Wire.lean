import DeepFry.Lib.Stream

namespace DeepFry.Explorer

-- The graph frame: what the bridge writes and what the browser decodes.
structure GraphData where
  edges : List UInt32
  inDeg : List UInt32
  outDeg : List UInt32
  community : List UInt32
  kind3CreatedAt : List Int32
  lastDbUpdate : List Int32
  pubkeys : Bytes
  nodeCount : UInt32
  edgeCount : UInt32

namespace Wire

def magicWOTB : UInt32 := 0x42544F57

def version : UInt32 := 1

def headerBytes : Nat := 16

structure Section where
  name : String
  bytes : Bytes
deriving Repr,DecidableEq

def putUint32 (value : UInt32) : Bytes := Bytes.toLe 4 value.toNat

def packU32 (values : List UInt32) : Bytes := values.flatMap putUint32

def packI32 (values : List Int32) : Bytes := values.flatMap fun value => putUint32 value.toUInt32

-- make and copy: a fresh slice of zeros under the first n of the values.
def fit {α : Type} (zero : α) (values : List α) (n : Nat) : List α :=
  if values.length = n then values else values.take n ++ List.replicate (n - values.length) zero

def fitU32 : List UInt32 → Nat → List UInt32 := fit 0

def fitI32 : List Int32 → Nat → List Int32 := fit 0

def fitBytes : Bytes → Nat → Bytes := fit 0

def header (g : GraphData) : Bytes :=
  putUint32 magicWOTB ++ putUint32 version ++ putUint32 g.nodeCount ++ putUint32 g.edgeCount

def sections (g : GraphData) : List Section :=
  let n := g.nodeCount.toNat
  [⟨"header",header g⟩,
    ⟨"edges",packU32 g.edges⟩,
    ⟨"inDeg",packU32 (fitU32 g.inDeg n)⟩,
    ⟨"outDeg",packU32 (fitU32 g.outDeg n)⟩,
    ⟨"community",packU32 (fitU32 g.community n)⟩,
    ⟨"kind3CreatedAt",packI32 (fitI32 g.kind3CreatedAt n)⟩,
    ⟨"lastDbUpdate",packI32 (fitI32 g.lastDbUpdate n)⟩,
    ⟨"pubkeys",fitBytes g.pubkeys (n*32)⟩]

-- A writer takes all of the bytes or says why it did not.
def writeAll {ω : Type} (write : ω → Bytes → ω × Option String) : List Section → ω → ω × Option String
  | [],w => (w,none)
  | part :: rest,w =>
    match write w part.bytes with
    | (w,some err) => (w,some ("encode section " ++ part.name ++ ": " ++ err))
    | (w,none) => writeAll write rest w

def encode {ω : Type} (write : ω → Bytes → ω × Option String) (w : ω) (g : GraphData) : ω × Option String :=
  writeAll write (sections g) w

-- The writer that holds all it is given.
def buffered (held bytes : Bytes) : Bytes × Option String := (held ++ bytes,none)

def encoded (g : GraphData) : Bytes := (encode buffered [] g).1

theorem writeAll_buffered (parts : List Section) (held : Bytes) :
    writeAll buffered parts held = (held ++ parts.flatMap Section.bytes,none) := by
  induction parts generalizing held with
  | nil => simp [writeAll]
  | cons part rest ih => simp only [writeAll,buffered,ih,List.flatMap_cons,List.append_assoc]

theorem encode_buffered (g : GraphData) : encode buffered [] g = (encoded g,none) := by
  unfold encoded encode
  rw [writeAll_buffered]

theorem encoded_sections (g : GraphData) : encoded g = (sections g).flatMap Section.bytes := by
  unfold encoded encode
  rw [writeAll_buffered,List.nil_append]

-- A failed write is reported under the name of the section, with the sections before it written.
theorem encode_fails {ω : Type} {write : ω → Bytes → ω × Option String} {w last : ω} {g : GraphData} {err : String}
    (failed : encode write w g = (last,some err)) :
    ∃ part ∈ sections g, ∃ cause, err = "encode section " ++ part.name ++ ": " ++ cause := by
  unfold encode at failed
  revert failed
  generalize sections g = parts
  induction parts generalizing w with
  | nil =>
    intro failed
    cases failed
  | cons part rest ih =>
    intro failed
    cases wrote : write w part.bytes with
    | mk next outcome =>
      cases outcome with
      | none =>
        simp only [writeAll,wrote] at failed
        obtain ⟨later,member,named⟩ := ih failed
        exact ⟨later,List.mem_cons_of_mem part member,named⟩
      | some cause =>
        simp only [writeAll,wrote] at failed
        cases failed
        exact ⟨part,List.mem_cons_self,cause,rfl⟩

@[simp] theorem putUint32_length (value : UInt32) : (putUint32 value).length = 4 := Bytes.toLe_length 4 value.toNat

theorem putUint32_exact (value : UInt32) : Bytes.fromLe (putUint32 value) = value.toNat :=
  Bytes.fromLe_exact value.toNat_lt

@[simp] theorem packU32_length (values : List UInt32) : (packU32 values).length = values.length * 4 :=
  Stream.flatMap_size putUint32_length values

@[simp] theorem packI32_length (values : List Int32) : (packI32 values).length = values.length * 4 :=
  Stream.flatMap_size (fun value : Int32 => putUint32_length value.toUInt32) values

theorem take_replicate {α : Type} (zero : α) (values : List α) (n : Nat) :
    values.take n ++ List.replicate (n - values.length) zero = values.takeD n zero := by
  induction n generalizing values with
  | zero => simp
  | succ n ih =>
    cases values with
    | nil => simp [List.replicate_succ]
    | cons value rest =>
      rw [List.take_succ_cons,List.cons_append,List.length_cons,Nat.succ_sub_succ,ih]
      rfl

-- Truncated or padded, whatever length came.
theorem fit_takeD {α : Type} (zero : α) (values : List α) (n : Nat) : fit zero values n = values.takeD n zero := by
  unfold fit
  split
  · rename_i exactly
    rw [List.takeD_eq_take zero exactly.ge,← exactly,List.take_length]
  · exact take_replicate zero values n

@[simp] theorem fit_length {α : Type} (zero : α) (values : List α) (n : Nat) : (fit zero values n).length = n := by
  rw [fit_takeD,List.takeD_length]

@[simp] theorem fitU32_length (values : List UInt32) (n : Nat) : (fitU32 values n).length = n := fit_length 0 values n

@[simp] theorem fitI32_length (values : List Int32) (n : Nat) : (fitI32 values n).length = n := fit_length 0 values n

@[simp] theorem fitBytes_length (values : Bytes) (n : Nat) : (fitBytes values n).length = n := fit_length 0 values n

@[simp] theorem header_length (g : GraphData) : (header g).length = headerBytes := by
  simp [header,headerBytes]

def frameBytes (nodes edges : Nat) : Nat := headerBytes + 8 * edges + 20 * nodes + 32 * nodes

theorem encoded_length (g : GraphData) (paired : g.edges.length = 2 * g.edgeCount.toNat) :
    (encoded g).length = frameBytes g.nodeCount.toNat g.edgeCount.toNat := by
  rw [encoded_sections]
  simp only [sections,List.flatMap_cons,List.flatMap_nil,List.length_append,List.length_nil,header_length,packU32_length,
    packI32_length,fitU32_length,fitI32_length,fitBytes_length,paired,frameBytes]
  omega

-- Every section but the last is whole words.
theorem section_aligned {g : GraphData} {before after : List Section} {part : Section}
    (placed : sections g = before ++ part :: after) : (before.flatMap Section.bytes).length % 4 = 0 := by
  have words : ∀ earlier ∈ sections g, earlier.bytes.length % 4 = 0 := by
    intro earlier member
    simp only [sections,List.mem_cons,List.not_mem_nil,or_false] at member
    obtain rfl | rfl | rfl | rfl | rfl | rfl | rfl | rfl := member <;>
      simp [headerBytes]
    omega
  rw [placed] at words
  clear placed
  induction before with
  | nil => rfl
  | cons earlier before ih =>
    rw [List.flatMap_cons,List.length_append,Nat.add_mod,words earlier (by simp),
      ih fun later member => words later (List.mem_cons_of_mem earlier member)]

-- The browser: typed arrays are views into the buffer, made only where they fit.
inductive Element
  | u32
  | i32
  | u8
deriving Repr,DecidableEq

namespace Element

def size : Element → Nat
  | u32 => 4
  | i32 => 4
  | u8 => 1

abbrev type : Element → Type
  | u32 => UInt32
  | i32 => Int32
  | u8 => UInt8

-- Host order is little-endian on the machines the frame is made for.
def ofWord : (element : Element) → Nat → element.type
  | u32,word => UInt32.ofNat word
  | i32,word => (UInt32.ofNat word).toInt32
  | u8,word => UInt8.ofNat word

end Element

structure View (buffer : Bytes) (element : Element) where
  byteOffset : Nat
  length : Nat
  aligned : byteOffset % element.size = 0
  inside : byteOffset + length * element.size ≤ buffer.length

def View.values {buffer : Bytes} {element : Element} (view : View buffer element) : List element.type :=
  (Stream.readWords element.size view.length (buffer.drop view.byteOffset)).map element.ofWord

inductive RangeError
  | tooShort (byteLength : Nat)
  | badMagic (magic : Nat)
  | unsupportedVersion (version : Nat)
  | truncated (need nodeCount edgeCount byteLength : Nat)
  | startOffset
  | arrayLength
deriving Repr,DecidableEq

def hex (n : Nat) : String := String.ofList (Nat.toDigits 16 n)

-- The text of the errors the decoder itself throws; the last two are the engine's.
def RangeError.message : RangeError → Option String
  | tooShort byteLength =>
    some ("frame too short: " ++ toString byteLength ++ " bytes < " ++ toString headerBytes ++ "-byte header")
  | badMagic magic =>
    some ("bad frame MAGIC 0x" ++ hex magic ++ " (expected 0x" ++ hex magicWOTB.toNat ++ " \"WOTB\")")
  | unsupportedVersion found =>
    some ("unsupported frame VERSION " ++ toString found ++ " (expected " ++ toString version ++ ")")
  | truncated need nodeCount edgeCount byteLength =>
    some ("truncated frame: need " ++ toString need ++ " bytes for declared counts (nodeCount=" ++ toString nodeCount ++
      ", edgeCount=" ++ toString edgeCount ++ ") but buffer is " ++ toString byteLength)
  | startOffset => none
  | arrayLength => none

def typedArray (buffer : Bytes) (element : Element) (byteOffset length : Nat) :
    Except RangeError (View buffer element) :=
  if aligned : byteOffset % element.size = 0 then
    if inside : byteOffset + length * element.size ≤ buffer.length then .ok ⟨byteOffset,length,aligned,inside⟩
    else .error .arrayLength
  else .error .startOffset

theorem typedArray_ok {buffer : Bytes} {element : Element} {byteOffset length : Nat} {view : View buffer element}
    (made : typedArray buffer element byteOffset length = .ok view) :
    view.byteOffset = byteOffset ∧ view.length = length := by
  unfold typedArray at made
  split at made
  · split at made
    · cases made
      exact ⟨rfl,rfl⟩
    · cases made
  · cases made

theorem typedArray_inside {buffer : Bytes} {element : Element} {byteOffset length : Nat}
    (aligned : byteOffset % element.size = 0) (inside : byteOffset + length * element.size ≤ buffer.length) :
    typedArray buffer element byteOffset length = .ok ⟨byteOffset,length,aligned,inside⟩ := by
  unfold typedArray
  rw [dif_pos aligned,dif_pos inside]

def pubkeyBytes : Nat := 32

def u32Bytes : Nat := 4

structure DecodedFrame (buffer : Bytes) where
  nodeCount : Nat
  edgeCount : Nat
  links : View buffer .u32
  inDegree : View buffer .u32
  outDegree : View buffer .u32
  community : View buffer .u32
  kind3CreatedAt : View buffer .i32
  lastDbUpdate : View buffer .i32
  pubkeys : View buffer .u8

def getUint32 (buffer : Bytes) (byteOffset : Nat) : Nat := Bytes.fromLe ((buffer.drop byteOffset).take 4)

def decodeFrame (buffer : Bytes) : Except RangeError (DecodedFrame buffer) := do
  if buffer.length < headerBytes then .error (.tooShort buffer.length)
  else
    let magic := getUint32 buffer 0
    if magic ≠ magicWOTB.toNat then .error (.badMagic magic)
    else
      let found := getUint32 buffer 4
      if found ≠ version.toNat then .error (.unsupportedVersion found)
      else
        let nodeCount := getUint32 buffer 8
        let edgeCount := getUint32 buffer 12
        let offset := headerBytes
        let links ← typedArray buffer .u32 offset (edgeCount * 2)
        let offset := offset + edgeCount * 2 * u32Bytes
        let inDegree ← typedArray buffer .u32 offset nodeCount
        let offset := offset + nodeCount * u32Bytes
        let outDegree ← typedArray buffer .u32 offset nodeCount
        let offset := offset + nodeCount * u32Bytes
        let community ← typedArray buffer .u32 offset nodeCount
        let offset := offset + nodeCount * u32Bytes
        let kind3CreatedAt ← typedArray buffer .i32 offset nodeCount
        let offset := offset + nodeCount * u32Bytes
        let lastDbUpdate ← typedArray buffer .i32 offset nodeCount
        let offset := offset + nodeCount * u32Bytes
        let pubkeyBytes := nodeCount * pubkeyBytes
        if offset + pubkeyBytes > buffer.length then
          .error (.truncated (offset + pubkeyBytes) nodeCount edgeCount buffer.length)
        else
          let pubkeys ← typedArray buffer .u8 offset pubkeyBytes
          .ok ⟨nodeCount,edgeCount,links,inDegree,outDegree,community,kind3CreatedAt,lastDbUpdate,pubkeys⟩

-- What a decoded frame is: the counts of the header, and the sections in order without gaps.
structure Decoded {buffer : Bytes} (frame : DecodedFrame buffer) : Prop where
  headed : headerBytes ≤ buffer.length
  magic : getUint32 buffer 0 = magicWOTB.toNat
  version : getUint32 buffer 4 = version.toNat
  nodes : frame.nodeCount = getUint32 buffer 8
  edges : frame.edgeCount = getUint32 buffer 12
  links : frame.links.byteOffset = headerBytes ∧ frame.links.length = frame.edgeCount * 2
  inDegree : frame.inDegree.byteOffset = headerBytes + 8 * frame.edgeCount ∧ frame.inDegree.length = frame.nodeCount
  outDegree : frame.outDegree.byteOffset = headerBytes + 8 * frame.edgeCount + 4 * frame.nodeCount ∧
    frame.outDegree.length = frame.nodeCount
  community : frame.community.byteOffset = headerBytes + 8 * frame.edgeCount + 8 * frame.nodeCount ∧
    frame.community.length = frame.nodeCount
  kind3CreatedAt : frame.kind3CreatedAt.byteOffset = headerBytes + 8 * frame.edgeCount + 12 * frame.nodeCount ∧
    frame.kind3CreatedAt.length = frame.nodeCount
  lastDbUpdate : frame.lastDbUpdate.byteOffset = headerBytes + 8 * frame.edgeCount + 16 * frame.nodeCount ∧
    frame.lastDbUpdate.length = frame.nodeCount
  pubkeys : frame.pubkeys.byteOffset = headerBytes + 8 * frame.edgeCount + 20 * frame.nodeCount ∧
    frame.pubkeys.length = frame.nodeCount * 32

theorem ok_bind {α β : Type} {first : Except RangeError α} {next : α → Except RangeError β} {result : β}
    (done : (first >>= next) = .ok result) : ∃ value, first = .ok value ∧ next value = .ok result := by
  cases first with
  | error err => cases done
  | ok value => exact ⟨value,rfl,done⟩

theorem decodeFrame_ok {buffer : Bytes} {frame : DecodedFrame buffer} (decoded : decodeFrame buffer = .ok frame) :
    Decoded frame := by
  unfold decodeFrame at decoded
  by_cases short : buffer.length < headerBytes
  · rw [if_pos short] at decoded
    cases decoded
  rw [if_neg short] at decoded
  by_cases magic : getUint32 buffer 0 = magicWOTB.toNat
  swap
  · simp only [ne_eq,magic,not_false_eq_true,if_true] at decoded
    cases decoded
  by_cases found : getUint32 buffer 4 = version.toNat
  swap
  · simp only [ne_eq,magic,found,not_false_eq_true,not_true_eq_false,if_true,if_false] at decoded
    cases decoded
  simp only [ne_eq,magic,found,not_true_eq_false,if_false] at decoded
  obtain ⟨links,madeLinks,decoded⟩ := ok_bind decoded
  obtain ⟨inDegree,madeIn,decoded⟩ := ok_bind decoded
  obtain ⟨outDegree,madeOut,decoded⟩ := ok_bind decoded
  obtain ⟨community,madeCommunity,decoded⟩ := ok_bind decoded
  obtain ⟨kind3CreatedAt,madeKind3,decoded⟩ := ok_bind decoded
  obtain ⟨lastDbUpdate,madeLast,decoded⟩ := ok_bind decoded
  split at decoded
  · cases decoded
  obtain ⟨pubkeys,madePubkeys,decoded⟩ := ok_bind decoded
  cases decoded
  have linksAt := typedArray_ok madeLinks
  have inAt := typedArray_ok madeIn
  have outAt := typedArray_ok madeOut
  have communityAt := typedArray_ok madeCommunity
  have kind3At := typedArray_ok madeKind3
  have lastAt := typedArray_ok madeLast
  have pubkeysAt := typedArray_ok madePubkeys
  unfold u32Bytes at inAt outAt communityAt kind3At lastAt pubkeysAt
  unfold pubkeyBytes at pubkeysAt
  refine ⟨by omega,magic,found,rfl,rfl,linksAt,?_,?_,?_,?_,?_,?_⟩ <;> dsimp only <;> omega

-- A buffer with the right header and room for the declared counts is decoded.
theorem decodeFrame_room {buffer : Bytes} (headed : headerBytes ≤ buffer.length)
    (magic : getUint32 buffer 0 = magicWOTB.toNat) (found : getUint32 buffer 4 = version.toNat)
    (room : frameBytes (getUint32 buffer 8) (getUint32 buffer 12) ≤ buffer.length) :
    ∃ frame, decodeFrame buffer = .ok frame := by
  unfold decodeFrame
  rw [if_neg (by omega)]
  simp only [ne_eq,magic,found,not_true_eq_false,if_false]
  generalize getUint32 buffer 8 = nodeCount at room
  generalize getUint32 buffer 12 = edgeCount at room
  unfold frameBytes headerBytes at room
  unfold headerBytes u32Bytes pubkeyBytes
  rw [typedArray_inside (by simp [Element.size]) (by simp only [Element.size]; omega)]
  simp only [bind,Except.bind]
  rw [typedArray_inside (by simp only [Element.size]; omega) (by simp only [Element.size]; omega)]
  simp only
  rw [typedArray_inside (by simp only [Element.size]; omega) (by simp only [Element.size]; omega)]
  simp only
  rw [typedArray_inside (by simp only [Element.size]; omega) (by simp only [Element.size]; omega)]
  simp only
  rw [typedArray_inside (by simp only [Element.size]; omega) (by simp only [Element.size]; omega)]
  simp only
  rw [typedArray_inside (by simp only [Element.size]; omega) (by simp only [Element.size]; omega)]
  simp only
  rw [if_neg (by omega),typedArray_inside (Nat.mod_one _) (by simp only [Element.size]; omega)]
  exact ⟨_,rfl⟩

theorem Decoded.room {buffer : Bytes} {frame : DecodedFrame buffer} (decoded : Decoded frame) :
    frameBytes (getUint32 buffer 8) (getUint32 buffer 12) ≤ buffer.length := by
  have inside := frame.pubkeys.inside
  obtain ⟨starts,count⟩ := decoded.pubkeys
  have nodes := decoded.nodes
  have edges := decoded.edges
  simp only [Element.size] at inside
  unfold frameBytes
  omega

-- Exactly the buffers that are decoded.
theorem decodeFrame_accepts (buffer : Bytes) : (∃ frame, decodeFrame buffer = .ok frame) ↔
    headerBytes ≤ buffer.length ∧ getUint32 buffer 0 = magicWOTB.toNat ∧ getUint32 buffer 4 = version.toNat ∧
      frameBytes (getUint32 buffer 8) (getUint32 buffer 12) ≤ buffer.length := by
  constructor
  · intro ⟨frame,decoded⟩
    have described := decodeFrame_ok decoded
    exact ⟨described.headed,described.magic,described.version,described.room⟩
  · intro ⟨headed,magic,found,room⟩
    exact decodeFrame_room headed magic found room

theorem getUint32_append {before after : Bytes} {value : UInt32} {byteOffset : Nat} (starts : before.length = byteOffset) :
    getUint32 (before ++ putUint32 value ++ after) byteOffset = value.toNat := by
  unfold getUint32
  rw [List.append_assoc,List.drop_left' starts,List.take_left' (putUint32_length value),putUint32_exact]

-- The four words of the header, at the front of any buffer that starts with it.
theorem header_words (g : GraphData) (rest : Bytes) :
    getUint32 (header g ++ rest) 0 = magicWOTB.toNat ∧ getUint32 (header g ++ rest) 4 = version.toNat ∧
      getUint32 (header g ++ rest) 8 = g.nodeCount.toNat ∧ getUint32 (header g ++ rest) 12 = g.edgeCount.toNat := by
  unfold header
  refine ⟨?_,?_,?_,?_⟩
  · rw [List.append_assoc,List.append_assoc,List.append_assoc]
    exact @getUint32_append [] _ _ 0 rfl
  · rw [List.append_assoc,List.append_assoc]
    exact getUint32_append (by simp)
  · rw [List.append_assoc]
    exact getUint32_append (by simp)
  · exact getUint32_append (by simp)

theorem encoded_placed {g : GraphData} {before after : List Section} {part : Section}
    (placed : sections g = before ++ part :: after) :
    encoded g = before.flatMap Section.bytes ++ (part.bytes ++ after.flatMap Section.bytes) := by
  rw [encoded_sections,placed,List.flatMap_append,List.flatMap_cons]

theorem encoded_headed (g : GraphData) : ∃ rest, encoded g = header g ++ rest := by
  have placed : sections g = [] ++ ⟨"header",header g⟩ :: (sections g).tail := rfl
  have split := encoded_placed placed
  exact ⟨_,split⟩

section Content

variable {g : GraphData} {name : String} (before : List Section) {after : List Section}

theorem uint32_content {view : View (encoded g) .u32} {values : List UInt32}
    (placed : sections g = before ++ ⟨name,packU32 values⟩ :: after)
    (starts : view.byteOffset = (before.flatMap Section.bytes).length) (count : view.length = values.length) :
    view.values = values := by
  unfold View.values
  rw [starts,count,encoded_placed placed,List.drop_left]
  simp only [Element.size,packU32]
  rw [Stream.readWords_flatMap putUint32_length,List.map_map]
  calc values.map (Element.u32.ofWord ∘ fun value => Bytes.fromLe (putUint32 value)) = values.map id := by
        apply List.map_congr_left
        intro value _
        simp [Element.ofWord,putUint32_exact]
    _ = values := List.map_id values

theorem int32_content {view : View (encoded g) .i32} {values : List Int32}
    (placed : sections g = before ++ ⟨name,packI32 values⟩ :: after)
    (starts : view.byteOffset = (before.flatMap Section.bytes).length) (count : view.length = values.length) :
    view.values = values := by
  unfold View.values
  rw [starts,count,encoded_placed placed,List.drop_left]
  simp only [Element.size,packI32]
  rw [Stream.readWords_flatMap fun value : Int32 => putUint32_length value.toUInt32,List.map_map]
  calc values.map (Element.i32.ofWord ∘ fun value => Bytes.fromLe (putUint32 value.toUInt32)) = values.map id := by
        apply List.map_congr_left
        intro value _
        simp [Element.ofWord,putUint32_exact]
    _ = values := List.map_id values

theorem uint8_content {view : View (encoded g) .u8} {values : Bytes}
    (placed : sections g = before ++ ⟨name,values⟩ :: after)
    (starts : view.byteOffset = (before.flatMap Section.bytes).length) (count : view.length = values.length) :
    view.values = values := by
  unfold View.values
  rw [starts,count,encoded_placed placed,List.drop_left]
  simp only [Element.size]
  rw [Stream.readWords_bytes,List.map_map]
  calc values.map (Element.u8.ofWord ∘ UInt8.toNat) = values.map id := by
        apply List.map_congr_left
        intro value _
        simp [Element.ofWord]
    _ = values := List.map_id values

end Content

-- The counts, edges, attributes and pubkeys that a frame carries for the graph it was written from.
structure Carries (g : GraphData) (frame : DecodedFrame (encoded g)) : Prop where
  nodeCount : frame.nodeCount = g.nodeCount.toNat
  edgeCount : frame.edgeCount = g.edgeCount.toNat
  links : frame.links.values = g.edges
  inDegree : frame.inDegree.values = g.inDeg.takeD g.nodeCount.toNat 0
  outDegree : frame.outDegree.values = g.outDeg.takeD g.nodeCount.toNat 0
  community : frame.community.values = g.community.takeD g.nodeCount.toNat 0
  kind3CreatedAt : frame.kind3CreatedAt.values = g.kind3CreatedAt.takeD g.nodeCount.toNat 0
  lastDbUpdate : frame.lastDbUpdate.values = g.lastDbUpdate.takeD g.nodeCount.toNat 0
  pubkeys : frame.pubkeys.values = g.pubkeys.takeD (g.nodeCount.toNat * 32) 0

theorem carries {g : GraphData} (paired : g.edges.length = 2 * g.edgeCount.toNat) {frame : DecodedFrame (encoded g)}
    (decoded : Decoded frame) : Carries g frame := by
  obtain ⟨rest,headed⟩ := encoded_headed g
  obtain ⟨_,_,nodes,edges⟩ := header_words g rest
  rw [← headed] at nodes edges
  have nodeCount : frame.nodeCount = g.nodeCount.toNat := decoded.nodes.trans nodes
  have edgeCount : frame.edgeCount = g.edgeCount.toNat := decoded.edges.trans edges
  obtain ⟨linksAt,linksCount⟩ := decoded.links
  obtain ⟨inAt,inCount⟩ := decoded.inDegree
  obtain ⟨outAt,outCount⟩ := decoded.outDegree
  obtain ⟨communityAt,communityCount⟩ := decoded.community
  obtain ⟨kind3At,kind3Count⟩ := decoded.kind3CreatedAt
  obtain ⟨lastAt,lastCount⟩ := decoded.lastDbUpdate
  obtain ⟨pubkeysAt,pubkeysCount⟩ := decoded.pubkeys
  refine ⟨nodeCount,edgeCount,?_,?_,?_,?_,?_,?_,?_⟩
  · apply uint32_content [_] rfl
    · simp [linksAt]
    · omega
  · rw [← fit_takeD]
    apply uint32_content [_,_] rfl
    · simp [inAt,paired,edgeCount]
      omega
    · simp [inCount,nodeCount]
  · rw [← fit_takeD]
    apply uint32_content [_,_,_] rfl
    · simp [outAt,paired,edgeCount,nodeCount]
      omega
    · simp [outCount,nodeCount]
  · rw [← fit_takeD]
    apply uint32_content [_,_,_,_] rfl
    · simp [communityAt,paired,edgeCount,nodeCount]
      omega
    · simp [communityCount,nodeCount]
  · rw [← fit_takeD]
    apply int32_content [_,_,_,_,_] rfl
    · simp [kind3At,paired,edgeCount,nodeCount]
      omega
    · simp [kind3Count,nodeCount]
  · rw [← fit_takeD]
    apply int32_content [_,_,_,_,_,_] rfl
    · simp [lastAt,paired,edgeCount,nodeCount]
      omega
    · simp [lastCount,nodeCount]
  · rw [← fit_takeD]
    apply uint8_content [_,_,_,_,_,_,_] rfl
    · simp [pubkeysAt,paired,edgeCount,nodeCount]
      omega
    · simp [pubkeysCount,nodeCount]

def DecodedFrame.extents {buffer : Bytes} (frame : DecodedFrame buffer) : List (Nat × Nat) :=
  [(frame.links.byteOffset,frame.links.length * 4),(frame.inDegree.byteOffset,frame.inDegree.length * 4),
    (frame.outDegree.byteOffset,frame.outDegree.length * 4),(frame.community.byteOffset,frame.community.length * 4),
    (frame.kind3CreatedAt.byteOffset,frame.kind3CreatedAt.length * 4),
    (frame.lastDbUpdate.byteOffset,frame.lastDbUpdate.length * 4),(frame.pubkeys.byteOffset,frame.pubkeys.length)]

-- Every section the browser sees is whole words in, and inside the buffer.
theorem extents_inside {buffer : Bytes} {frame : DecodedFrame buffer} (decoded : Decoded frame) :
    ∀ extent ∈ frame.extents, extent.1 % 4 = 0 ∧ extent.1 + extent.2 ≤ buffer.length := by
  have last : frame.pubkeys.byteOffset % 4 = 0 := by
    rw [decoded.pubkeys.1]
    unfold headerBytes
    omega
  have inside := frame.pubkeys.inside
  simp only [Element.size,Nat.mul_one] at inside
  intro extent member
  simp only [DecodedFrame.extents,List.mem_cons,List.not_mem_nil,or_false] at member
  obtain rfl | rfl | rfl | rfl | rfl | rfl | rfl := member
  · exact ⟨frame.links.aligned,frame.links.inside⟩
  · exact ⟨frame.inDegree.aligned,frame.inDegree.inside⟩
  · exact ⟨frame.outDegree.aligned,frame.outDegree.inside⟩
  · exact ⟨frame.community.aligned,frame.community.inside⟩
  · exact ⟨frame.kind3CreatedAt.aligned,frame.kind3CreatedAt.inside⟩
  · exact ⟨frame.lastDbUpdate.aligned,frame.lastDbUpdate.inside⟩
  · exact ⟨last,inside⟩

theorem decodeFrame_encoded {g : GraphData} (paired : g.edges.length = 2 * g.edgeCount.toNat) :
    ∃ frame, decodeFrame (encoded g) = .ok frame ∧ Carries g frame := by
  obtain ⟨rest,headed⟩ := encoded_headed g
  obtain ⟨magic,found,nodes,edges⟩ := header_words g rest
  have size := encoded_length g paired
  rw [← headed] at magic found nodes edges
  have front : headerBytes ≤ (encoded g).length := by
    rw [size]
    unfold frameBytes
    omega
  obtain ⟨frame,decoded⟩ := decodeFrame_room front magic found (by rw [nodes,edges,size])
  exact ⟨frame,decoded,carries paired (decodeFrame_ok decoded)⟩

-- What is cut off at any byte is not decoded: its header still declares the whole of it.
theorem prefix_rejected {g : GraphData} (paired : g.edges.length = 2 * g.edgeCount.toNat) {short : Bytes}
    (starts : short <+: encoded g) (proper : short ≠ encoded g) : ∃ error, decodeFrame short = .error error := by
  cases decoded : decodeFrame short with
  | error error => exact ⟨error,rfl⟩
  | ok frame =>
    have described := decodeFrame_ok decoded
    obtain ⟨rest,headed⟩ := encoded_headed g
    have whole : header g <+: encoded g := ⟨rest,headed.symm⟩
    obtain ⟨tail,same⟩ := List.prefix_of_prefix_length_le whole starts (by rw [header_length]; exact described.headed)
    obtain ⟨_,_,nodes,edges⟩ := header_words g tail
    rw [same] at nodes edges
    have room := described.room
    rw [nodes,edges,← encoded_length g paired] at room
    exact absurd (starts.eq_of_length_le room) proper

theorem frame_agrees :
    (∀ g : GraphData, g.edges.length = 2 * g.edgeCount.toNat →
      ∃ frame, decodeFrame (encoded g) = .ok frame ∧ Carries g frame) ∧
    (∀ g : GraphData, encode buffered [] g = ((sections g).flatMap Section.bytes,none)) ∧
    (∀ (g : GraphData) (before : List Section) (part : Section) (after : List Section),
      sections g = before ++ part :: after → (before.flatMap Section.bytes).length % 4 = 0) ∧
    (∀ g : GraphData, g.edges.length = 2 * g.edgeCount.toNat → ∀ short, short <+: encoded g → short ≠ encoded g →
      ∃ error, decodeFrame short = .error error) ∧
    ∀ buffer, (∃ error, decodeFrame buffer = .error error) ∨ ∃ frame, decodeFrame buffer = .ok frame ∧
      ∀ extent ∈ frame.extents, extent.1 % 4 = 0 ∧ extent.1 + extent.2 ≤ buffer.length := by
  refine ⟨?_,?_,?_,?_,?_⟩
  · intro g paired
    exact decodeFrame_encoded paired
  · intro g
    rw [encode_buffered,encoded_sections]
  · intro g before part after placed
    exact section_aligned placed
  · intro g paired short starts proper
    exact prefix_rejected paired starts proper
  · intro buffer
    cases decoded : decodeFrame buffer with
    | error error => exact .inl ⟨error,rfl⟩
    | ok frame => exact .inr ⟨frame,rfl,extents_inside (decodeFrame_ok decoded)⟩

-- Two nodes and an edge, one attribute short, one long and one signed.
def pair : GraphData where
  edges := [0,1]
  inDeg := []
  outDeg := [1,0,9]
  community := [7]
  kind3CreatedAt := [-1,5]
  lastDbUpdate := [-2147483648]
  pubkeys := [255]
  nodeCount := 2
  edgeCount := 1

theorem frame_agrees_pair : (∃ frame, decodeFrame (encoded pair) = .ok frame ∧ Carries pair frame) ∧
    ([(⟨"header",header pair⟩ : Section)].flatMap Section.bytes).length % 4 = 0 ∧
    ∃ error, decodeFrame (encoded pair).dropLast = .error error := by
  have cut : (encoded pair).dropLast ≠ encoded pair := by
    intro same
    have size := congrArg List.length same
    rw [List.length_dropLast,encoded_length pair rfl] at size
    exact absurd size (by decide)
  exact ⟨frame_agrees.1 pair rfl,frame_agrees.2.2.1 pair [⟨"header",header pair⟩] _ _ rfl,
    frame_agrees.2.2.2.1 pair rfl _ (List.dropLast_prefix _) cut⟩

end Wire
end DeepFry.Explorer
