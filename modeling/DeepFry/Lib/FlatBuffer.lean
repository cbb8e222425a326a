import DeepFry.Lib.Bytes

namespace DeepFry.FlatBuffer

-- Library layer: a FlatBuffers buffer whose root is one table of scalar fields. The root offset leads to the table,
-- the table's signed offset back to its vtable, and the vtable's slots to the fields.

variable (raw : Bytes)

def word (position width : Nat) : Nat := Bytes.fromLe ((raw.drop position).take width)

def signed32 (n : Nat) : Int := if n < 2^31 then n else n - 2^32

def table : Nat := word raw 0 4

def soffset : Int := signed32 (word raw (table raw) 4)

-- The size of the vtable at a position, with its two header words.
def vtableSize (vtable : Nat) : Nat := word raw vtable 2

-- The place of a field in the table; zero stands for an absent field, and so does a slot past the end.
def slot (vtable i : Nat) : Nat := if 4 + 2 * i + 2 ≤ vtableSize raw vtable then word raw (vtable + 4 + 2 * i) 2 else 0

def field (slot width : Nat) : Option Nat :=
  if slot = 0 then some 0
  else if table raw + slot + width ≤ raw.length then some (word raw (table raw + slot) width)
  else none

-- A well-formed buffer with its vtable at a position, before the table or after it.
structure Layout (vtable : Nat) : Prop where
  root : 4 ≤ raw.length
  inside : table raw + 4 ≤ raw.length
  placed : (vtable : Int) = table raw - soffset raw
  header : 4 ≤ vtableSize raw vtable
  paired : vtableSize raw vtable % 2 = 0
  slots : vtable + vtableSize raw vtable ≤ raw.length

variable {raw}

theorem word_bound (position width : Nat) : word raw position width < 256^width := by
  apply (Bytes.fromLe_bound _).trans_le
  exact Nat.pow_le_pow_right (by decide) (List.length_take_le _ _)

theorem signed32_bounds {n : Nat} (bound : n < 2^32) : -2^31 ≤ signed32 n ∧ signed32 n < 2^31 := by
  unfold signed32
  split <;> omega

theorem soffset_bounds : -2^31 ≤ soffset raw ∧ soffset raw < 2^31 := signed32_bounds (word_bound _ _)

theorem Layout.unique {left right : Nat} (first : Layout raw left) (second : Layout raw right) : left = right :=
  Int.ofNat.inj (first.placed.trans second.placed.symm)

-- A vtable with room for a slot holds it as a word.
theorem slot_held {vtable i : Nat} (room : 4 + 2 * i + 2 ≤ vtableSize raw vtable) : slot raw vtable i = word raw (vtable + 4 + 2 * i) 2 :=
  if_pos room

theorem slot_bound {vtable i : Nat} : slot raw vtable i < 2^16 := by
  unfold slot
  split
  · exact word_bound _ 2
  · decide

theorem table_bound : table raw < 2^32 := word_bound 0 4

end DeepFry.FlatBuffer
