import DeepFry.Lib.FlatBuffer

namespace DeepFry.Lmdb.Meta
open FlatBuffer

structure MetaRecord where
  dbVersion : Nat
  endianness : Nat
  negentropyModCounter : Nat
deriving DecidableEq

inductive MetaError where
  | ValueTooShort (len need : Nat)
  | VtableError (message : String)
deriving DecidableEq

-- A slice holds fewer bytes than a signed word counts.
structure Slice where
  bytes : Bytes
  short : bytes.length < 2^63

-- A slice out of its range panics, and so does an addition past the word, where the build checks it.
inductive Outcome (α : Type) where
  | ok (value : α)
  | err (error : MetaError)
  | panicked
deriving DecidableEq

def Outcome.bind {α β : Type} : Outcome α → (α → Outcome β) → Outcome β
  | .ok value,next => next value
  | .err error,_ => .err error
  | .panicked,_ => .panicked

instance : Monad Outcome where
  pure := Outcome.ok
  bind := Outcome.bind

@[simp] theorem ok_bind {α β : Type} (value : α) (next : α → Outcome β) : (Outcome.ok value >>= next) = next value := rfl

@[simp] theorem err_bind {α β : Type} (error : MetaError) (next : α → Outcome β) : (Outcome.err error >>= next) = .err error := rfl

@[simp] theorem panicked_bind {α β : Type} (next : α → Outcome β) : (Outcome.panicked >>= next) = .panicked := rfl

def usize : Nat := 2^64

def add (checks : Bool) (a b : Nat) : Outcome Nat :=
  if a + b < usize then .ok (a + b) else if checks then .panicked else .ok ((a + b) % usize)

-- The little-endian number in raw[start..stop].
def fromSlice (raw : Slice) (start stop : Nat) : Outcome Nat :=
  if start ≤ stop ∧ stop ≤ raw.bytes.length then .ok (word raw.bytes start (stop - start)) else .panicked

-- A cast of a signed number extends its sign.
def asUsize (n : Int) : Nat := if n < 0 then (n + usize).toNat else n.toNat

def readAt (checks : Bool) (raw : Slice) (bits width tableStart fieldOffset : Nat) : Outcome Nat :=
  if fieldOffset = 0 then .ok 0
  else do
    let abs ← add checks tableStart fieldOffset
    let stop ← add checks abs width
    if stop > raw.bytes.length then
      .err (.VtableError s!"u{bits} field at abs {abs} exceeds buffer length {raw.bytes.length}")
    else fromSlice raw abs stop

def readU32At (checks : Bool) (raw : Slice) (tableStart fieldOffset : Nat) : Outcome Nat := readAt checks raw 32 4 tableStart fieldOffset

def readU64At (checks : Bool) (raw : Slice) (tableStart fieldOffset : Nat) : Outcome Nat := readAt checks raw 64 8 tableStart fieldOffset

-- The two bytes of a slot.
def fieldOffset (checks : Bool) (raw : Slice) (vtableAbs start stop : Nat) : Outcome Nat := do
  let start ← add checks vtableAbs start
  let stop ← add checks vtableAbs stop
  fromSlice raw start stop

-- Steps 4 and 5.
def readFields (checks : Bool) (raw : Slice) (rootOffset vtableAbs : Nat) : Outcome MetaRecord := do
  let fieldOffsetDbversion ← fieldOffset checks raw vtableAbs 4 6
  let fieldOffsetEndianness ← fieldOffset checks raw vtableAbs 6 8
  let fieldOffsetNegentropy ← fieldOffset checks raw vtableAbs 8 10
  let dbVersion ← readU32At checks raw rootOffset fieldOffsetDbversion
  let endianness ← readU32At checks raw rootOffset fieldOffsetEndianness
  let negentropyModCounter ← readU64At checks raw rootOffset fieldOffsetNegentropy
  .ok ⟨dbVersion,endianness,negentropyModCounter⟩

-- The vtable and what follows it, from the check of its place on.
def readVtable (checks : Bool) (raw : Slice) (rootOffset vtableAbs : Nat) : Outcome MetaRecord := do
  let header ← add checks vtableAbs 4
  if header > raw.bytes.length then
    .err (.VtableError s!"vtable at {vtableAbs} exceeds buffer length {raw.bytes.length}")
  else do
    let stop ← add checks vtableAbs 2
    let vtableSize ← fromSlice raw vtableAbs stop
    let invalid := MetaError.VtableError s!"vtable_size {vtableSize} invalid at position {vtableAbs}"
    if vtableSize < 4 then .err invalid
    else do
      let past ← add checks vtableAbs vtableSize
      if past > raw.bytes.length then .err invalid
      else if (vtableSize - 4) / 2 < 3 then
        .err (.VtableError s!"Meta vtable has {(vtableSize - 4) / 2} fields, expected at least 3 (dbVersion, endianness, negentropyModCounter)")
      else readFields checks raw rootOffset vtableAbs

-- The signed offset is taken for the position of the vtable.
def parseMetaFlatbuffer (checks : Bool) (raw : Slice) : Outcome MetaRecord :=
  if raw.bytes.length < 14 then .err (.ValueTooShort raw.bytes.length 14)
  else do
    let rootOffset ← fromSlice raw 0 4
    let stop ← add checks rootOffset 4
    if stop > raw.bytes.length then
      .err (.VtableError s!"root_offset {rootOffset} exceeds buffer length {raw.bytes.length}")
    else do
      let soffset ← fromSlice raw rootOffset stop
      readVtable checks raw rootOffset (asUsize (signed32 soffset))

section Parse
variable {checks : Bool} {raw : Slice}

theorem add_small {a b : Nat} (small : a + b < usize) : add checks a b = .ok (a + b) := if_pos small

theorem fromSlice_inside {start width : Nat} (inside : start + width ≤ raw.bytes.length) :
    fromSlice raw start (start + width) = .ok (word raw.bytes start width) := by
  unfold fromSlice
  rw [if_pos ⟨by omega,inside⟩,Nat.add_sub_cancel_left]

-- What lies inside a slice is reached without an overflow.
theorem inside_small {n : Nat} (inside : n ≤ raw.bytes.length) : n < usize := by
  have short := raw.short
  unfold usize
  omega

theorem field_small {width tableStart fieldOffset : Nat} (small : tableStart < 2^32) (near : fieldOffset < 2^16) (word : width ≤ 8) :
    tableStart + fieldOffset < usize ∧ tableStart + fieldOffset + width < usize := by
  unfold usize
  omega

theorem readAt_field {bits width tableStart fieldOffset : Nat} (root : tableStart = table raw.bytes) (small : tableStart < 2^32)
    (near : fieldOffset < 2^16) (word : width ≤ 8) {value : Nat} :
    readAt checks raw bits width tableStart fieldOffset = .ok value ↔ field raw.bytes fieldOffset width = some value := by
  obtain ⟨first,second⟩ := field_small small near word
  unfold readAt field
  rw [← root]
  split
  · simp
  · rw [add_small first,ok_bind,add_small second,ok_bind]
    split
    · rename_i past
      rw [if_neg (by omega)]
      simp
    · rename_i inside
      rw [fromSlice_inside (by omega),if_pos (by omega)]
      simp

theorem readAt_calm {bits width tableStart fieldOffset : Nat} (small : tableStart < 2^32) (near : fieldOffset < 2^16) (word : width ≤ 8) :
    readAt checks raw bits width tableStart fieldOffset ≠ .panicked := by
  obtain ⟨first,second⟩ := field_small small near word
  unfold readAt
  split
  · simp
  · rw [add_small first,ok_bind,add_small second,ok_bind]
    split
    · simp
    · rw [fromSlice_inside (by omega)]
      simp

theorem fieldOffset_slot {vtable i start : Nat} (here : start = 4 + 2 * i) (room : start + 2 ≤ vtableSize raw.bytes vtable)
    (slots : vtable + vtableSize raw.bytes vtable ≤ raw.bytes.length) :
    fieldOffset checks raw vtable start (start + 2) = .ok (slot raw.bytes vtable i) := by
  have first : vtable + start < usize := @inside_small raw _ (by omega)
  have second : vtable + (start + 2) < usize := @inside_small raw _ (by omega)
  unfold fieldOffset
  rw [add_small first,ok_bind,add_small second,ok_bind,← Nat.add_assoc,fromSlice_inside (by omega),slot_held (by omega),here,
    ← Nat.add_assoc]

theorem bind_ok {α β : Type} {first : Outcome α} {next : α → Outcome β} {result : β} :
    (first >>= next) = .ok result ↔ ∃ value, first = .ok value ∧ next value = .ok result := by
  cases first <;> simp

theorem bind_calm {α β : Type} {first : Outcome α} {next : α → Outcome β} (calm : first ≠ .panicked)
    (later : ∀ value, next value ≠ .panicked) : (first >>= next) ≠ .panicked := by
  cases first with
  | ok value => exact later value
  | err error => simp
  | panicked => exact absurd rfl calm

-- The record that a vtable of at least three slots leads to.
structure Reads (raw : Bytes) (vtable : Nat) (m : MetaRecord) : Prop where
  three : 10 ≤ vtableSize raw vtable
  slots : vtable + vtableSize raw vtable ≤ raw.length
  dbVersion : field raw (slot raw vtable 0) 4 = some m.dbVersion
  endianness : field raw (slot raw vtable 1) 4 = some m.endianness
  negentropyModCounter : field raw (slot raw vtable 2) 8 = some m.negentropyModCounter

section Fields
variable {vtable : Nat} (three : 10 ≤ vtableSize raw.bytes vtable) (slots : vtable + vtableSize raw.bytes vtable ≤ raw.bytes.length)
include three slots

theorem readFields_slots : readFields checks raw (table raw.bytes) vtable = (do
    let dbVersion ← readU32At checks raw (table raw.bytes) (slot raw.bytes vtable 0)
    let endianness ← readU32At checks raw (table raw.bytes) (slot raw.bytes vtable 1)
    let negentropyModCounter ← readU64At checks raw (table raw.bytes) (slot raw.bytes vtable 2)
    .ok ⟨dbVersion,endianness,negentropyModCounter⟩) := by
  have first : fieldOffset checks raw vtable 4 6 = .ok (slot raw.bytes vtable 0) := fieldOffset_slot rfl (by omega) slots
  have second : fieldOffset checks raw vtable 6 8 = .ok (slot raw.bytes vtable 1) := fieldOffset_slot rfl (by omega) slots
  have third : fieldOffset checks raw vtable 8 10 = .ok (slot raw.bytes vtable 2) := fieldOffset_slot rfl (by omega) slots
  unfold readFields
  rw [first,ok_bind,second,ok_bind,third,ok_bind]

theorem readFields_ok {m : MetaRecord} : readFields checks raw (table raw.bytes) vtable = .ok m ↔ Reads raw.bytes vtable m := by
  have read {bits width i value : Nat} (word : width ≤ 8) :
      readAt checks raw bits width (table raw.bytes) (slot raw.bytes vtable i) = .ok value ↔
        field raw.bytes (slot raw.bytes vtable i) width = some value :=
    readAt_field rfl table_bound slot_bound word
  rw [readFields_slots three slots]
  simp only [bind_ok,readU32At,readU64At,Outcome.ok.injEq]
  constructor
  · intro steps
    obtain ⟨dbVersion,first,endianness,second,counter,third,same⟩ := steps
    subst same
    exact ⟨three,slots,(read (by decide)).mp first,(read (by decide)).mp second,(read (by decide)).mp third⟩
  · intro reads
    exact ⟨_,(read (by decide)).mpr reads.dbVersion,_,(read (by decide)).mpr reads.endianness,_,
      (read (by decide)).mpr reads.negentropyModCounter,rfl⟩

theorem readFields_calm : readFields checks raw (table raw.bytes) vtable ≠ .panicked := by
  rw [readFields_slots three slots]
  apply bind_calm (readAt_calm table_bound slot_bound (by decide))
  intro dbVersion
  apply bind_calm (readAt_calm table_bound slot_bound (by decide))
  intro endianness
  apply bind_calm (readAt_calm table_bound slot_bound (by decide))
  intro counter
  simp

end Fields

theorem readVtable_fields {vtable : Nat} (three : 10 ≤ vtableSize raw.bytes vtable)
    (slots : vtable + vtableSize raw.bytes vtable ≤ raw.bytes.length) :
    readVtable checks raw (table raw.bytes) vtable = readFields checks raw (table raw.bytes) vtable := by
  have stop : vtable + 2 < usize := @inside_small raw _ (by omega)
  have past : vtable + vtableSize raw.bytes vtable < usize := inside_small slots
  have header : vtable + 4 < usize := @inside_small raw _ (by omega)
  have size : word raw.bytes vtable 2 = vtableSize raw.bytes vtable := rfl
  unfold readVtable
  rw [add_small header,ok_bind,if_neg (by omega),add_small stop,ok_bind,fromSlice_inside (by omega),ok_bind,size]
  dsimp only
  rw [if_neg (by omega),add_small past,ok_bind,if_neg (by omega),if_neg (by omega)]

theorem readVtable_small {vtable : Nat} (inside : vtable + 4 ≤ raw.bytes.length)
    (small : ¬ (10 ≤ vtableSize raw.bytes vtable ∧ vtable + vtableSize raw.bytes vtable ≤ raw.bytes.length)) :
    ∃ error, readVtable checks raw (table raw.bytes) vtable = .err error := by
  have stop : vtable + 2 < usize := @inside_small raw _ (by omega)
  have bound : vtableSize raw.bytes vtable < 2^16 := word_bound _ 2
  have past : vtable + vtableSize raw.bytes vtable < usize := by
    have short := raw.short
    unfold usize
    omega
  have header : vtable + 4 < usize := @inside_small raw _ (by omega)
  have size : word raw.bytes vtable 2 = vtableSize raw.bytes vtable := rfl
  unfold readVtable
  rw [add_small header,ok_bind,if_neg (by omega),add_small stop,ok_bind,fromSlice_inside (by omega),ok_bind,size]
  dsimp only
  split
  · exact ⟨_,rfl⟩
  · rw [add_small past,ok_bind]
    split
    · exact ⟨_,rfl⟩
    · rw [if_pos (by omega)]
      exact ⟨_,rfl⟩

theorem readVtable_ok {vtable : Nat} (header : vtable + 4 ≤ raw.bytes.length) {m : MetaRecord} :
    readVtable checks raw (table raw.bytes) vtable = .ok m ↔ Reads raw.bytes vtable m := by
  by_cases room : 10 ≤ vtableSize raw.bytes vtable ∧ vtable + vtableSize raw.bytes vtable ≤ raw.bytes.length
  · rw [readVtable_fields room.1 room.2]
    exact readFields_ok room.1 room.2
  · obtain ⟨error,failed⟩ := @readVtable_small checks raw vtable header room
    rw [failed]
    constructor
    · intro same
      cases same
    · intro reads
      exact absurd ⟨reads.three,reads.slots⟩ room

theorem readVtable_calm {vtable : Nat} (header : vtable + 4 ≤ raw.bytes.length) :
    readVtable checks raw (table raw.bytes) vtable ≠ .panicked := by
  by_cases room : 10 ≤ vtableSize raw.bytes vtable ∧ vtable + vtableSize raw.bytes vtable ≤ raw.bytes.length
  · rw [readVtable_fields room.1 room.2]
    exact readFields_calm room.1 room.2
  · obtain ⟨error,failed⟩ := @readVtable_small checks raw vtable header room
    rw [failed]
    simp

theorem readVtable_past {vtable : Nat} (small : vtable + 4 < usize) (past : raw.bytes.length < vtable + 4) (rootOffset : Nat) :
    ∃ error, readVtable checks raw rootOffset vtable = .err error := by
  unfold readVtable
  rw [add_small small,ok_bind,if_pos past]
  exact ⟨_,rfl⟩

-- Within the last four positions of the word the addition overflows, or else the slice that starts there does.
theorem readVtable_wraps {vtable : Nat} (high : usize ≤ vtable + 4) (word : vtable < usize) (header : 4 ≤ raw.bytes.length) (rootOffset : Nat) :
    readVtable checks raw rootOffset vtable = .panicked := by
  have short := raw.short
  have bits : usize = 2^64 := rfl
  have wrapped : add checks vtable 4 = if checks then .panicked else .ok ((vtable + 4) % usize) := if_neg (by omega)
  unfold readVtable
  rw [wrapped]
  cases checks with
  | true => rfl
  | false =>
    have low : (vtable + 4) % usize = vtable + 4 - usize := by
      rw [Nat.mod_eq_sub_mod high,Nat.mod_eq_of_lt (by omega)]
    rw [low]
    dsimp only [Bool.false_eq_true,if_false,ok_bind]
    rw [if_neg Bool.false_ne_true,ok_bind,if_neg (by omega)]
    have stop : ∃ stop, add false vtable 2 = .ok stop ∧ ¬ (vtable ≤ stop ∧ stop ≤ raw.bytes.length) := by
      unfold add
      split
      · refine ⟨_,rfl,?_⟩
        omega
      · rename_i over_
        refine ⟨(vtable + 2) % usize,by simp,?_⟩
        have less : (vtable + 2) % usize < vtable := by
          rw [Nat.mod_eq_sub_mod (by omega),Nat.mod_eq_of_lt (by omega)]
          omega
        omega
    obtain ⟨stop,reached,outside⟩ := stop
    rw [reached,ok_bind,fromSlice,if_neg outside]
    rfl

theorem asUsize_negative {n : Int} (low : -2^31 ≤ n) (negative : n < 0) :
    asUsize n + 2^31 ≥ usize ∧ asUsize n < usize ∧ (usize ≤ asUsize n + 4 ↔ -4 ≤ n) := by
  have bits : usize = 2^64 := rfl
  unfold asUsize
  rw [if_pos negative]
  omega

-- The last four places a table's offset can lead to, below zero.
def Overflows (raw : Bytes) : Prop := 14 ≤ raw.length ∧ table raw + 4 ≤ raw.length ∧ -4 ≤ soffset raw ∧ soffset raw < 0

theorem parse_inside (long : 14 ≤ raw.bytes.length) (inside : table raw.bytes + 4 ≤ raw.bytes.length) :
    parseMetaFlatbuffer checks raw = readVtable checks raw (table raw.bytes) (asUsize (soffset raw.bytes)) := by
  have root : fromSlice raw 0 4 = .ok (table raw.bytes) := @fromSlice_inside raw 0 4 (by omega)
  unfold parseMetaFlatbuffer
  rw [if_neg (by omega),root,ok_bind,add_small (inside_small inside),ok_bind,if_neg (by omega),fromSlice_inside inside,ok_bind]
  rfl

theorem parse_outside (outside : ¬ (14 ≤ raw.bytes.length ∧ table raw.bytes + 4 ≤ raw.bytes.length)) :
    ∃ error, parseMetaFlatbuffer checks raw = .err error := by
  unfold parseMetaFlatbuffer
  by_cases short : raw.bytes.length < 14
  · rw [if_pos short]
    exact ⟨_,rfl⟩
  · have root : fromSlice raw 0 4 = .ok (table raw.bytes) := @fromSlice_inside raw 0 4 (by omega)
    have bound : table raw.bytes < 2^32 := table_bound
    have small : table raw.bytes + 4 < usize := by
      unfold usize
      omega
    rw [if_neg short,root,ok_bind,add_small small,ok_bind,if_pos (by omega)]
    exact ⟨_,rfl⟩

-- The offset leads to a place that has room for the head of a vtable.
def Headed (raw : Bytes) : Prop :=
  14 ≤ raw.length ∧ table raw + 4 ≤ raw.length ∧ 0 ≤ soffset raw ∧ (soffset raw).toNat + 4 ≤ raw.length

theorem parse_headed (headed : Headed raw.bytes) :
    parseMetaFlatbuffer checks raw = readVtable checks raw (table raw.bytes) (soffset raw.bytes).toNat := by
  obtain ⟨long,inside,positive,_⟩ := headed
  have place : asUsize (soffset raw.bytes) = (soffset raw.bytes).toNat := if_neg (not_lt.mpr positive)
  rw [parse_inside long inside,place]

theorem parse_overflows (over_ : Overflows raw.bytes) : parseMetaFlatbuffer checks raw = .panicked := by
  obtain ⟨long,inside,near,negative⟩ := over_
  obtain ⟨_,word,wraps⟩ := asUsize_negative (@soffset_bounds raw.bytes).1 negative
  rw [parse_inside long inside,readVtable_wraps (wraps.mpr near) word (by omega)]

theorem parse_stops (headless : ¬ Headed raw.bytes) (calm : ¬ Overflows raw.bytes) :
    ∃ error, parseMetaFlatbuffer checks raw = .err error := by
  by_cases inside : 14 ≤ raw.bytes.length ∧ table raw.bytes + 4 ≤ raw.bytes.length
  · obtain ⟨low,high⟩ := @soffset_bounds raw.bytes
    have short := raw.short
    have bits : usize = 2^64 := rfl
    rw [parse_inside inside.1 inside.2]
    by_cases negative : soffset raw.bytes < 0
    · obtain ⟨far,_,wraps⟩ := asUsize_negative low negative
      have early : ¬ -4 ≤ soffset raw.bytes := fun near => calm ⟨inside.1,inside.2,near,negative⟩
      have small : ¬ usize ≤ asUsize (soffset raw.bytes) + 4 := fun high => early (wraps.mp high)
      exact readVtable_past (not_le.mp small) (by omega) _
    · have place : asUsize (soffset raw.bytes) = (soffset raw.bytes).toNat := if_neg negative
      have past : ¬ (soffset raw.bytes).toNat + 4 ≤ raw.bytes.length :=
        fun room => headless ⟨inside.1,inside.2,not_lt.mp negative,room⟩
      rw [place]
      exact readVtable_past (by omega) (not_le.mp past) _
  · exact parse_outside inside

theorem Reads.headed {m : MetaRecord} (long : 14 ≤ raw.bytes.length) (inside : table raw.bytes + 4 ≤ raw.bytes.length)
    (positive : 0 ≤ soffset raw.bytes) (reads : Reads raw.bytes (soffset raw.bytes).toNat m) : Headed raw.bytes := by
  have three := reads.three
  have slots := reads.slots
  exact ⟨long,inside,positive,by omega⟩

theorem parse_ok {m : MetaRecord} : parseMetaFlatbuffer checks raw = .ok m ↔
    14 ≤ raw.bytes.length ∧ table raw.bytes + 4 ≤ raw.bytes.length ∧ 0 ≤ soffset raw.bytes ∧
      Reads raw.bytes (soffset raw.bytes).toNat m := by
  by_cases headed : Headed raw.bytes
  · rw [parse_headed headed,readVtable_ok headed.2.2.2]
    exact ⟨fun reads => ⟨headed.1,headed.2.1,headed.2.2.1,reads⟩,fun reads => reads.2.2.2⟩
  · have unread : ¬ (14 ≤ raw.bytes.length ∧ table raw.bytes + 4 ≤ raw.bytes.length ∧ 0 ≤ soffset raw.bytes ∧
        Reads raw.bytes (soffset raw.bytes).toNat m) :=
      fun ⟨long,inside,positive,reads⟩ => headed (reads.headed long inside positive)
    by_cases over_ : Overflows raw.bytes
    · rw [parse_overflows over_]
      simp [unread]
    · obtain ⟨error,failed⟩ := @parse_stops checks raw headed over_
      rw [failed]
      simp [unread]

theorem parse_panics : parseMetaFlatbuffer checks raw = .panicked ↔ Overflows raw.bytes := by
  by_cases over_ : Overflows raw.bytes
  · exact ⟨fun _ => over_,fun _ => parse_overflows over_⟩
  · by_cases headed : Headed raw.bytes
    · rw [parse_headed headed]
      exact ⟨fun panicked => absurd panicked (readVtable_calm headed.2.2.2),fun wrong => absurd wrong over_⟩
    · obtain ⟨error,failed⟩ := @parse_stops checks raw headed over_
      rw [failed]
      simp [over_]

end Parse

-- The fields of the table by their slots and widths.
def fields : List (Nat × Nat) := [(0,4),(1,4),(2,8)]

-- A well-formed encoding of a record, by the format.
def Encodes (raw : Bytes) (m : MetaRecord) : Prop :=
  ∃ vtable, Layout raw vtable ∧ field raw (slot raw vtable 0) 4 = some m.dbVersion ∧
    field raw (slot raw vtable 1) 4 = some m.endianness ∧ field raw (slot raw vtable 2) 8 = some m.negentropyModCounter

def Right (checks : Bool) (raw : Slice) : Prop :=
  parseMetaFlatbuffer checks raw ≠ .panicked ∧ ∀ m, Encodes raw.bytes m → parseMetaFlatbuffer checks raw = .ok m

-- The place that is taken for the vtable holds one of three slots or more, and they lead to what those of the vtable lead to.
structure Alike (raw : Bytes) (taken vtable : Nat) : Prop where
  three : 10 ≤ vtableSize raw taken
  slots : taken + vtableSize raw taken ≤ raw.length
  fields : ∀ f ∈ fields, field raw (slot raw taken f.1) f.2 = field raw (slot raw vtable f.1) f.2

def Suits (raw : Bytes) : Prop :=
  ¬ Overflows raw ∧ ∀ vtable, Layout raw vtable → (∀ f ∈ fields, (field raw (slot raw vtable f.1) f.2).isSome = true) →
    14 ≤ raw.length ∧ 0 ≤ soffset raw ∧ Alike raw (soffset raw).toNat vtable

variable {checks : Bool} {raw : Slice}

theorem reads_alike {bytes : Bytes} {taken vtable : Nat} {m : MetaRecord} (dbVersion : field bytes (slot bytes vtable 0) 4 = some m.dbVersion)
    (endianness : field bytes (slot bytes vtable 1) 4 = some m.endianness)
    (counter : field bytes (slot bytes vtable 2) 8 = some m.negentropyModCounter) : Reads bytes taken m ↔ Alike bytes taken vtable := by
  constructor
  · intro reads
    refine ⟨reads.three,reads.slots,?_⟩
    simp [fields,reads.dbVersion,reads.endianness,reads.negentropyModCounter,dbVersion,endianness,counter]
  · intro alike
    refine ⟨alike.three,alike.slots,?_,?_,?_⟩
    · exact (alike.fields (0,4) (by simp [fields])).trans dbVersion
    · exact (alike.fields (1,4) (by simp [fields])).trans endianness
    · exact (alike.fields (2,8) (by simp [fields])).trans counter

theorem parse_exact (checks : Bool) (raw : Slice) :
    (Right checks raw ↔ Suits raw.bytes) ∧
      ((∃ vtable, Layout raw.bytes vtable ∧ (vtable : Int) = soffset raw.bytes ∧ 10 ≤ vtableSize raw.bytes vtable) →
        14 ≤ raw.bytes.length → Right checks raw) := by
  have exact_ : Right checks raw ↔ Suits raw.bytes := by
    unfold Right Suits
    rw [ne_eq,parse_panics]
    apply and_congr_right
    intro _
    constructor
    · intro parsed vtable layout inside
      have held {i width : Nat} (member : (i,width) ∈ fields) := Option.isSome_iff_exists.mp (inside (i,width) member)
      obtain ⟨dbVersion,first⟩ := held (List.mem_cons_self : (0,4) ∈ fields)
      obtain ⟨endianness,second⟩ := held (by simp [fields] : (1,4) ∈ fields)
      obtain ⟨counter,third⟩ := held (by simp [fields] : (2,8) ∈ fields)
      obtain ⟨long,_,positive,reads⟩ := parse_ok.mp (parsed ⟨dbVersion,endianness,counter⟩ ⟨vtable,layout,first,second,third⟩)
      exact ⟨long,positive,(reads_alike first second third).mp reads⟩
    · intro suited m encoded
      obtain ⟨vtable,layout,first,second,third⟩ := encoded
      have inside : ∀ f ∈ fields, (field raw.bytes (slot raw.bytes vtable f.1) f.2).isSome = true := by
        simp [fields,first,second,third]
      obtain ⟨long,positive,alike⟩ := suited vtable layout inside
      exact parse_ok.mpr ⟨long,layout.inside,positive,(reads_alike first second third).mpr alike⟩
  refine ⟨exact_,?_⟩
  intro placed long
  obtain ⟨vtable,layout,same,three⟩ := placed
  have taken : (soffset raw.bytes).toNat = vtable := by omega
  apply exact_.mpr
  refine ⟨?_,?_⟩
  · intro over_
    have negative := over_.2.2.2
    omega
  · intro other again _
    rw [taken,again.unique layout]
    exact ⟨long,by omega,three,layout.slots,fun _ _ => rfl⟩

-- The record of the fixture: a table at 20 whose vtable lies at 10, which is also the offset between them.
def fixture : Slice where
  bytes := [20,0,0,0,0,0,0,0,0,0,10,0,28,0,20,0,12,0,4,0] ++ [10,0,0,0,1,0,0,0,0,0,0,0,1,0,0,0,0,0,0,0,3,0,0,0,0,0,0,0]
  short := by decide

theorem parse_exact_fixture : parseMetaFlatbuffer true fixture = .ok ⟨3,1,1⟩ ∧ Right true fixture := by
  have layout : Layout fixture.bytes 10 := ⟨by decide,by decide,by decide,by decide,by decide,by decide⟩
  exact ⟨by decide +kernel,(parse_exact true fixture).2 ⟨10,layout,by decide,by decide⟩ (by decide)⟩

-- A table whose offset is minus one.
def backwards : Slice := ⟨[4,0,0,0,255,255,255,255,0,0,0,0,0,0],by decide⟩

-- A table at 16 with its vtable at 4.
def ahead : Slice where
  bytes := [16,0,0,0] ++ [10,0,20,0,4,0,16,0,8,0] ++ [0,0] ++ [12,0,0,0,3,0,0,0,5,0,0,0,0,0,0,0,1,0,0,0]
  short := by decide

theorem parse_exact_fails : ¬ Right false backwards ∧ ¬ Right false ahead := by
  constructor
  · intro right
    have panics : parseMetaFlatbuffer false backwards = .panicked := by decide +kernel
    exact right.1 panics
  · intro right
    have layout : Layout ahead.bytes 4 := ⟨by decide,by decide,by decide,by decide,by decide,by decide⟩
    have parsed := right.2 ⟨3,1,5⟩ ⟨4,layout,by decide,by decide,by decide⟩
    have rejected : parseMetaFlatbuffer false ahead ≠ .ok ⟨3,1,5⟩ := by decide +kernel
    exact rejected parsed

end DeepFry.Lmdb.Meta
