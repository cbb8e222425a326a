import DeepFry.Lib.Utf8

namespace DeepFry.Whitelist
abbrev Str := Bytes

-- The letter tables beyond ASCII: only the Kelvin sign and the dotted capital I have a lower case in ASCII, k and i.
structure Unicode where
  toLower : Nat → Nat
  ascii : ∀ r, 128 ≤ r → toLower r < 128 → toLower r = 0x6B ∨ toLower r = 0x69

def lowerByte (b : UInt8) : UInt8 := if 65 ≤ b ∧ b ≤ 90 then b + 32 else b

def lowerRune (unicode : Unicode) (r : Nat) : Nat :=
  if r < 128 then (if 65 ≤ r ∧ r ≤ 90 then r + 32 else r) else unicode.toLower r

-- strings.ToLower: bytes where all are ASCII, else runes, whose texts may differ in length.
def toLower (unicode : Unicode) (s : Str) : Str :=
  if s.all (· < 0x80) then s.map lowerByte else (Utf8.runes s).flatMap fun r => Utf8.encodeRune (lowerRune unicode r)

inductive Decoded where
  | ok (k : Bytes)
  | invalidByte (b : UInt8)
  | oddLength
  | indexOutOfRange
deriving DecidableEq

-- hex.Decode into an array of that size. An index beyond its end is a panic.
def hexDecode (size : Nat) : Bytes → Bytes → Decoded
  | k,[] => .ok (k ++ List.replicate (size - k.length) 0)
  | _,[b] => if (Bytes.nibble b).isNone then .invalidByte b else .oddLength
  | k,p :: q :: rest =>
    match Bytes.nibble p,Bytes.nibble q with
    | none,_ => .invalidByte p
    | some _,none => .invalidByte q
    | some a,some b => if k.length < size then hexDecode size (k ++ [UInt8.ofNat (16 * a + b)]) rest else .indexOutOfRange

structure Bytes32 where
  bytes : Bytes
  size : bytes.length = 32
deriving DecidableEq

inductive Panic where
  | indexOutOfRange
deriving DecidableEq

-- A Go result (bool,error) where the call does not panic.
abbrev Answer := Except Panic (Bool × Option Str)

-- The steps that both lookups make of a string: a key, or none where it is not one.
def decodeKey (unicode : Unicode) (s : Str) : Except Panic (Option Bytes) :=
  if s.length ≠ 64 then .ok none
  else match hexDecode 32 [] (toLower unicode s) with
    | .ok k => .ok (some k)
    | .invalidByte _ => .ok none
    | .oddLength => .ok none
    | .indexOutOfRange => .error .indexOutOfRange

def lookup (unicode : Unicode) (held : Bytes → Bool) (s : Str) : Answer :=
  (decodeKey unicode s).map fun
    | some k => (held k,none)
    | none => (false,none)

-- list: nil before the first UpdateKeys.
def isWhitelisted (unicode : Unicode) (list : Option (List Bytes32)) (s : Str) : Answer :=
  lookup unicode (fun k => (list.getD []).any fun key => key.bytes = k) s

-- A hexadecimal pubkey, in either case.
def isHexKey (s : Str) : Bool := decide (s.length = 64) && s.all fun b => (Bytes.nibble b).isSome

section Decoding
variable {unicode : Unicode} {size : Nat} {k src : Bytes} {s : Str}

theorem forall_byte (property : UInt8 → Prop) (all : ∀ n : Fin 256, property (UInt8.ofNat n)) (b : UInt8) : property b := by
  have here := all ⟨b.toNat,UInt8.toNat_lt b⟩
  rwa [UInt8.ofNat_toNat] at here

theorem nibble_lowerByte (b : UInt8) : Bytes.nibble (lowerByte b) = Bytes.nibble b := by
  apply forall_byte (fun b => Bytes.nibble (lowerByte b) = Bytes.nibble b)
  decide +kernel

theorem nibble_beyond (b : UInt8) : ¬ b < 0x80 → Bytes.nibble b = none := by
  apply forall_byte (fun b => ¬ b < 0x80 → Bytes.nibble b = none)
  decide +kernel

-- A byte that is no digit among those the array has room for ends the decoding there.
theorem hexDecode_invalid (few : k.length ≤ size) (bad : ∃ b ∈ src.take (2 * (size - k.length)), Bytes.nibble b = none) :
    ∃ b, hexDecode size k src = .invalidByte b := by
  induction k,src using hexDecode.induct size with
  | case1 k =>
    obtain ⟨b,member,_⟩ := bad
    rw [List.take_nil] at member
    cases member
  | case2 k b invalid => exact ⟨b,if_pos invalid⟩
  | case3 k b valid =>
    obtain ⟨c,member,invalid⟩ := bad
    have same : c = b := List.mem_singleton.mp (List.mem_of_mem_take member)
    rw [same] at invalid
    rw [invalid] at valid
    exact absurd rfl valid
  | case4 k p q rest invalid =>
    unfold hexDecode
    rw [invalid]
    exact ⟨p,rfl⟩
  | case5 k p q rest a invalid valid =>
    unfold hexDecode
    rw [valid,invalid]
    exact ⟨q,rfl⟩
  | case6 k p q rest a b low high room ih =>
    unfold hexDecode
    rw [high,low]
    dsimp only
    rw [if_pos room]
    have longer : (k ++ [UInt8.ofNat (16 * a + b)]).length = k.length + 1 := List.length_append
    apply ih
    · omega
    · obtain ⟨c,member,invalid⟩ := bad
      have two : 2 * (size - k.length) = 2 * (size - (k.length + 1)) + 1 + 1 := by omega
      rw [two,List.take_succ_cons,List.take_succ_cons,List.mem_cons,List.mem_cons] at member
      rw [longer]
      rcases member with rfl | rfl | later
      · rw [invalid] at high
        cases high
      · rw [invalid] at low
        cases low
      · exact ⟨c,later,invalid⟩
  | case7 k p q rest a b low high full =>
    obtain ⟨c,member,_⟩ := bad
    rw [show 2 * (size - k.length) = 0 by omega,List.take_zero] at member
    cases member

theorem hexDecode_valid (filled : src.length = 2 * (size - k.length)) (few : k.length ≤ size) {decoded : Bytes}
    (read : Bytes.decodeHex src = some decoded) : hexDecode size k src = .ok (k ++ decoded) := by
  induction k,src using hexDecode.induct size generalizing decoded with
  | case1 k =>
    cases read
    rw [List.length_nil] at filled
    unfold hexDecode
    rw [show size - k.length = 0 by omega,List.replicate_zero]
  | case2 k b invalid => cases read
  | case3 k b valid => cases read
  | case4 k p q rest invalid =>
    rw [Bytes.decodeHex,invalid] at read
    cases read
  | case5 k p q rest a invalid valid =>
    rw [Bytes.decodeHex,valid,invalid] at read
    cases read
  | case6 k p q rest a b low high room ih =>
    rw [Bytes.decodeHex,high,low] at read
    obtain ⟨tail,deeper,same⟩ := Option.bind_eq_some_iff.mp (show (Bytes.decodeHex rest).bind _ = _ from read)
    cases same
    unfold hexDecode
    rw [high,low]
    dsimp only
    have longer : (k ++ [UInt8.ofNat (16 * a + b)]).length = k.length + 1 := List.length_append
    rw [List.length_cons,List.length_cons] at filled
    rw [if_pos room,ih (by omega) (by omega) deeper,List.append_assoc]
    rfl
  | case7 k p q rest a b low high full =>
    rw [List.length_cons,List.length_cons] at filled
    omega

theorem lowerRune_byte (b : UInt8) : b < 0x80 → Utf8.encodeRune (lowerRune unicode b.toNat) = [lowerByte b] := by
  intro ascii
  have small : b.toNat < 128 := UInt8.lt_iff_toNat_lt.mp ascii
  unfold lowerRune
  rw [if_pos small]
  revert ascii small
  apply forall_byte (fun b => b < 0x80 → b.toNat < 128 → Utf8.encodeRune (if 65 ≤ b.toNat ∧ b.toNat ≤ 90 then b.toNat + 32 else b.toNat) = [lowerByte b])
  decide +kernel

-- A rune beyond ASCII leaves a text that does not start with a digit.
theorem lowerRune_beyond (unicode : Unicode) {r : Nat} (beyond : 128 ≤ r) :
    ∃ b rest, Utf8.encodeRune (lowerRune unicode r) = b :: rest ∧ Bytes.nibble b = none := by
  have table : lowerRune unicode r = unicode.toLower r := if_neg (by omega)
  rw [table]
  by_cases ascii : unicode.toLower r < 0x80
  · rcases unicode.ascii r beyond ascii with kelvin | dotted
    · rw [kelvin]
      exact ⟨_,_,rfl,by decide⟩
    · rw [dotted]
      exact ⟨_,_,rfl,by decide⟩
  · obtain ⟨b,rest,written,outside⟩ := Utf8.encodeRune_beyond ascii
    exact ⟨b,rest,written,nibble_beyond b outside⟩

theorem flatMap_lower {ascii : Str} (plain : ∀ b ∈ ascii, b < 0x80) :
    (ascii.map UInt8.toNat).flatMap (fun r => Utf8.encodeRune (lowerRune unicode r)) = ascii.map lowerByte := by
  induction ascii with
  | nil => rfl
  | cons b rest ih =>
    rw [List.map_cons,List.flatMap_cons,lowerRune_byte b (plain b List.mem_cons_self),
      ih fun other member => plain other (List.mem_cons_of_mem _ member)]
    rfl

-- Where a text has a byte beyond ASCII, its lower case has a byte that is no digit no later than that one.
theorem toLower_invalid (short : s.length ≤ 64) (outside : s.all (· < 0x80) = false) :
    ∃ b ∈ (toLower unicode s).take 64, Bytes.nibble b = none := by
  obtain ⟨first,member,beyond⟩ := List.all_eq_false.mp outside
  cases found : s.find? (fun b => !decide (b < 0x80)) with
  | none => exact absurd (List.find?_eq_none.mp found first member) (by simpa using beyond)
  | some b =>
    obtain ⟨beyond,ascii,rest,rfl,plain⟩ := List.find?_eq_some_iff_append.mp found
    have plain : ∀ b ∈ ascii, b < 0x80 := fun b member => by simpa using plain b member
    have beyond : ¬ b < 0x80 := by simpa using beyond
    obtain ⟨r,later,read,large⟩ : ∃ r later, Utf8.runes (b :: rest) = r :: later ∧ 128 ≤ r := Utf8.runes_beyond beyond
    obtain ⟨c,tail,written,invalid⟩ := lowerRune_beyond unicode large
    unfold toLower
    rw [outside,Utf8.runes_ascii plain,read,List.flatMap_append,flatMap_lower plain,List.flatMap_cons,written]
    refine ⟨c,?_,invalid⟩
    rw [List.length_append,List.length_cons] at short
    have here : (ascii.map lowerByte).length < 64 := by
      rw [List.length_map]
      omega
    rw [if_neg Bool.false_ne_true,List.cons_append,List.take_append,List.mem_append]
    right
    rw [show 64 - (ascii.map lowerByte).length = 63 - (ascii.map lowerByte).length + 1 by omega,List.take_succ_cons]
    exact List.mem_cons_self

-- In lower case every ASCII text has the digits it had.
theorem decodeHex_lower (digits : Str) : Bytes.decodeHex (digits.map lowerByte) = Bytes.decodeHex digits := by
  induction digits using Bytes.decodeHex.induct with
  | case1 => rfl
  | case2 b => rfl
  | case3 p q rest ih =>
    rw [List.map_cons,List.map_cons,Bytes.decodeHex,Bytes.decodeHex,nibble_lowerByte,nibble_lowerByte,ih]

theorem toLower_ascii (plain : s.all (· < 0x80) = true) : toLower unicode s = s.map lowerByte := if_pos plain

-- A key of 64 digits is decoded whatever its case.
theorem decodeKey_hex (key : isHexKey s = true) : ∃ k, Bytes.decodeHex s = some k ∧ decodeKey unicode s = .ok (some k) := by
  obtain ⟨length,digits⟩ := (Bool.and_eq_true _ _).mp key
  have length := of_decide_eq_true length
  have valued := List.all_eq_true.mp digits
  have plain : s.all (· < 0x80) = true := by
    apply List.all_eq_true.mpr
    intro b member
    by_contra beyond
    have valid := valued b member
    rw [nibble_beyond b (by simpa using beyond)] at valid
    cases valid
  obtain ⟨k,read⟩ := Bytes.decodeHex_total (by omega) valued
  refine ⟨k,read,?_⟩
  have decoded : hexDecode 32 [] (s.map lowerByte) = .ok ([] ++ k) :=
    hexDecode_valid (by rw [List.length_map,length]; rfl) (by decide) (by rw [decodeHex_lower,read])
  unfold decodeKey
  rw [if_neg (not_not.mpr length),toLower_ascii plain,decoded]
  rfl

-- Nothing else is decoded, and no index runs past the array.
theorem decodeKey_other (other : isHexKey s = false) : decodeKey unicode s = .ok none := by
  unfold decodeKey
  split
  · rfl
  · rename_i length
    have length := not_not.mp length
    have invalid : ∃ b ∈ (toLower unicode s).take 64, Bytes.nibble b = none := by
      cases ascii : s.all (· < 0x80) with
      | false => exact toLower_invalid length.le ascii
      | true =>
        unfold isHexKey at other
        rw [decide_eq_true length,Bool.true_and] at other
        obtain ⟨b,member,invalid⟩ := List.all_eq_false.mp other
        have whole : (s.map lowerByte).take 64 = s.map lowerByte := List.take_of_length_le (by rw [List.length_map,length])
        rw [toLower_ascii ascii,whole]
        refine ⟨lowerByte b,List.mem_map_of_mem member,?_⟩
        rw [nibble_lowerByte]
        simpa using invalid
    obtain ⟨b,stopped⟩ : ∃ b, hexDecode 32 [] (toLower unicode s) = .invalidByte b := hexDecode_invalid (by decide) invalid
    rw [stopped]

end Decoding
end DeepFry.Whitelist
