import DeepFry.Lib.Bytes

namespace DeepFry.Utf8

-- Library layer: UTF-8 read one rune at a time, each ill-formed byte as the replacement character, and runes written back.

def REPLACEMENT : Nat := 0xFFFD

def within (low high b : UInt8) : Bool := decide (low ≤ b ∧ b ≤ high)

-- What a byte adds above the mark of its kind.
def bits (b mark : UInt8) : Nat := b.toNat - mark.toNat

def two : UInt8 → Bytes → Option (Nat × Nat)
  | b0,b1 :: _ => if within 0xC2 0xDF b0 && within 0x80 0xBF b1 then some (bits b0 0xC0 * 64 + bits b1 0x80,2) else none
  | _,_ => none

-- Neither overlong forms nor surrogates are well-formed.
def three : UInt8 → Bytes → Option (Nat × Nat)
  | b0,b1 :: b2 :: _ =>
    if within 0xE0 0xEF b0 && within (if b0 = 0xE0 then 0xA0 else 0x80) (if b0 = 0xED then 0x9F else 0xBF) b1 && within 0x80 0xBF b2 then
      some ((bits b0 0xE0 * 64 + bits b1 0x80) * 64 + bits b2 0x80,3)
    else none
  | _,_ => none

def four : UInt8 → Bytes → Option (Nat × Nat)
  | b0,b1 :: b2 :: b3 :: _ =>
    if within 0xF0 0xF4 b0 && within (if b0 = 0xF0 then 0x90 else 0x80) (if b0 = 0xF4 then 0x8F else 0xBF) b1 &&
        within 0x80 0xBF b2 && within 0x80 0xBF b3 then
      some (((bits b0 0xF0 * 64 + bits b1 0x80) * 64 + bits b2 0x80) * 64 + bits b3 0x80,4)
    else none
  | _,_ => none

-- The first rune and its width.
def decodeRune : Bytes → Nat × Nat
  | [] => (REPLACEMENT,0)
  | b0 :: rest => if b0 < 0x80 then (b0.toNat,1) else (((two b0 rest).or (three b0 rest)).or (four b0 rest)).getD (REPLACEMENT,1)

-- The bytes still covered by the last rune are skipped.
def runesFrom : Nat → Bytes → List Nat
  | _,[] => []
  | skip + 1,_ :: rest => runesFrom skip rest
  | 0,b :: rest => (decodeRune (b :: rest)).1 :: runesFrom ((decodeRune (b :: rest)).2 - 1) rest

def runes (bytes : Bytes) : List Nat := runesFrom 0 bytes

-- The bytes of an ill-formed start up to the one that spoils it.
def spoiled (b0 : UInt8) : Bytes → Nat
  | b1 :: rest =>
    if within 0xE0 0xEF b0 && within (if b0 = 0xE0 then 0xA0 else 0x80) (if b0 = 0xED then 0x9F else 0xBF) b1 then 2
    else if within 0xF0 0xF4 b0 && within (if b0 = 0xF0 then 0x90 else 0x80) (if b0 = 0xF4 then 0x8F else 0xBF) b1 then
      match rest with
      | b2 :: _ => if within 0x80 0xBF b2 then 3 else 2
      | [] => 2
    else 1
  | [] => 1

-- Each ill-formed start as one replacement character.
def lossyFrom : Nat → Bytes → Bytes
  | _,[] => []
  | skip + 1,_ :: rest => lossyFrom skip rest
  | 0,b :: rest =>
    if decodeRune (b :: rest) = (REPLACEMENT,1) then [0xEF,0xBF,0xBD] ++ lossyFrom (spoiled b rest - 1) rest
    else (b :: rest).take (decodeRune (b :: rest)).2 ++ lossyFrom ((decodeRune (b :: rest)).2 - 1) rest

def lossy (bytes : Bytes) : Bytes := lossyFrom 0 bytes

def encodeRune (r : Nat) : Bytes :=
  if r < 0x80 then [UInt8.ofNat r]
  else if r < 0x800 then [UInt8.ofNat (0xC0 + r / 64),UInt8.ofNat (0x80 + r % 64)]
  else if (0xD800 ≤ r ∧ r ≤ 0xDFFF) ∨ 0x10FFFF < r then [0xEF,0xBF,0xBD]
  else if r < 0x10000 then [UInt8.ofNat (0xE0 + r / 4096),UInt8.ofNat (0x80 + r / 64 % 64),UInt8.ofNat (0x80 + r % 64)]
  else [UInt8.ofNat (0xF0 + r / 262144),UInt8.ofNat (0x80 + r / 4096 % 64),UInt8.ofNat (0x80 + r / 64 % 64),UInt8.ofNat (0x80 + r % 64)]

theorem within_iff {low high b : UInt8} : within low high b = true ↔ low.toNat ≤ b.toNat ∧ b.toNat ≤ high.toNat := by
  unfold within
  rw [decide_eq_true_eq,UInt8.le_iff_toNat_le,UInt8.le_iff_toNat_le]

theorem two_beyond {b0 : UInt8} {rest : Bytes} {r width : Nat} (read : two b0 rest = some (r,width)) : 128 ≤ r := by
  unfold two at read
  split at read
  · rw [Option.ite_none_right_eq_some,Bool.and_eq_true,within_iff,within_iff] at read
    obtain ⟨⟨⟨first,_⟩,_⟩,same⟩ := read
    obtain ⟨rfl,_⟩ := Prod.mk.inj (Option.some.inj same)
    simp only [bits,UInt8.reduceToNat] at first ⊢
    omega
  · cases read

theorem three_beyond {b0 : UInt8} {rest : Bytes} {r width : Nat} (read : three b0 rest = some (r,width)) : 128 ≤ r := by
  unfold three at read
  split at read
  · rw [Option.ite_none_right_eq_some,Bool.and_eq_true,Bool.and_eq_true,within_iff,within_iff] at read
    obtain ⟨⟨⟨first,second⟩,_⟩,same⟩ := read
    obtain ⟨rfl,_⟩ := Prod.mk.inj (Option.some.inj same)
    by_cases overlong : b0 = 0xE0
    · rw [if_pos overlong] at second
      simp only [bits,UInt8.reduceToNat] at second ⊢
      omega
    · have differs : b0.toNat ≠ 224 := fun same => overlong (UInt8.toNat_inj.mp same)
      simp only [bits,UInt8.reduceToNat] at first ⊢
      omega
  · cases read

theorem four_beyond {b0 : UInt8} {rest : Bytes} {r width : Nat} (read : four b0 rest = some (r,width)) : 128 ≤ r := by
  unfold four at read
  split at read
  · rw [Option.ite_none_right_eq_some,Bool.and_eq_true,Bool.and_eq_true,Bool.and_eq_true,within_iff,within_iff] at read
    obtain ⟨⟨⟨⟨first,second⟩,_⟩,_⟩,same⟩ := read
    obtain ⟨rfl,_⟩ := Prod.mk.inj (Option.some.inj same)
    by_cases overlong : b0 = 0xF0
    · rw [if_pos overlong] at second
      simp only [bits,UInt8.reduceToNat] at second ⊢
      omega
    · have differs : b0.toNat ≠ 240 := fun same => overlong (UInt8.toNat_inj.mp same)
      simp only [bits,UInt8.reduceToNat] at first ⊢
      omega
  · cases read

theorem decodeRune_ascii {b : UInt8} {rest : Bytes} (ascii : b < 0x80) : decodeRune (b :: rest) = (b.toNat,1) := if_pos ascii

-- Only ASCII bytes read as ASCII.
theorem decodeRune_beyond {b : UInt8} {rest : Bytes} (beyond : ¬ b < 0x80) : 128 ≤ (decodeRune (b :: rest)).1 := by
  unfold decodeRune
  dsimp only
  rw [if_neg beyond]
  cases first : two b rest with
  | some read => exact two_beyond first
  | none =>
    cases second : three b rest with
    | some read => exact three_beyond second
    | none =>
      cases third : four b rest with
      | some read => exact four_beyond third
      | none => decide

theorem within_low {low high b : UInt8} (floor : 0x80 ≤ low) (held : within low high b = true) : 0x80 ≤ b := by
  have range := within_iff.mp held
  rw [UInt8.le_iff_toNat_le] at floor ⊢
  omega

theorem two_covered {b0 : UInt8} {rest : Bytes} {r width : Nat} (read : two b0 rest = some (r,width)) :
    ∀ x ∈ rest.take (width - 1), 0x80 ≤ x := by
  unfold two at read
  split at read
  · rw [Option.ite_none_right_eq_some,Bool.and_eq_true] at read
    obtain ⟨⟨_,second⟩,same⟩ := read
    obtain ⟨_,rfl⟩ := Prod.mk.inj (Option.some.inj same)
    intro x member
    simp only [Nat.add_one_sub_one,List.take_succ_cons,List.take_zero,List.mem_singleton] at member
    rw [member]
    exact within_low (by decide) second
  · cases read

theorem three_covered {b0 : UInt8} {rest : Bytes} {r width : Nat} (read : three b0 rest = some (r,width)) :
    ∀ x ∈ rest.take (width - 1), 0x80 ≤ x := by
  unfold three at read
  split at read
  · rw [Option.ite_none_right_eq_some,Bool.and_eq_true,Bool.and_eq_true] at read
    obtain ⟨⟨⟨_,second⟩,third⟩,same⟩ := read
    obtain ⟨_,rfl⟩ := Prod.mk.inj (Option.some.inj same)
    intro x member
    simp only [Nat.add_one_sub_one,List.take_succ_cons,List.take_zero,List.mem_cons,List.not_mem_nil,or_false] at member
    obtain rfl | rfl := member
    · exact within_low (by split <;> decide) second
    · exact within_low (by decide) third
  · cases read

theorem four_covered {b0 : UInt8} {rest : Bytes} {r width : Nat} (read : four b0 rest = some (r,width)) :
    ∀ x ∈ rest.take (width - 1), 0x80 ≤ x := by
  unfold four at read
  split at read
  · rw [Option.ite_none_right_eq_some,Bool.and_eq_true,Bool.and_eq_true,Bool.and_eq_true] at read
    obtain ⟨⟨⟨⟨_,second⟩,third⟩,fourth⟩,same⟩ := read
    obtain ⟨_,rfl⟩ := Prod.mk.inj (Option.some.inj same)
    intro x member
    simp only [Nat.add_one_sub_one,List.take_succ_cons,List.take_zero,List.mem_cons,List.not_mem_nil,or_false] at member
    obtain rfl | rfl | rfl := member
    · exact within_low (by split <;> decide) second
    · exact within_low (by decide) third
    · exact within_low (by decide) fourth
  · cases read

-- The bytes after the first one of a rune are no ASCII.
theorem decodeRune_covered (b : UInt8) (rest : Bytes) : ∀ x ∈ rest.take ((decodeRune (b :: rest)).2 - 1), 0x80 ≤ x := by
  unfold decodeRune
  dsimp only
  split
  · simp
  · cases first : two b rest with
    | some read => exact two_covered first
    | none =>
      cases second : three b rest with
      | some read => exact three_covered second
      | none =>
        cases third : four b rest with
        | some read => exact four_covered third
        | none => simp

theorem runes_ascii {ascii rest : Bytes} (plain : ∀ b ∈ ascii, b < 0x80) : runes (ascii ++ rest) = ascii.map UInt8.toNat ++ runes rest := by
  induction ascii with
  | nil => rfl
  | cons b bytes ih =>
    have tail := ih fun other member => plain other (List.mem_cons_of_mem _ member)
    unfold runes at tail ⊢
    rw [List.cons_append,runesFrom,decodeRune_ascii (plain b List.mem_cons_self),List.map_cons,List.cons_append]
    exact congrArg _ tail

theorem runes_beyond {b : UInt8} {rest : Bytes} (beyond : ¬ b < 0x80) : ∃ r later, runes (b :: rest) = r :: later ∧ 128 ≤ r :=
  ⟨_,_,rfl,decodeRune_beyond beyond⟩

-- The text of a rune beyond ASCII starts beyond ASCII.
theorem encodeRune_beyond {r : Nat} (beyond : ¬ r < 0x80) : ∃ b rest, encodeRune r = b :: rest ∧ ¬ b < 0x80 := by
  unfold encodeRune
  rw [if_neg beyond]
  split
  · refine ⟨_,_,rfl,?_⟩
    rw [UInt8.lt_iff_toNat_lt,UInt8.toNat_ofNat',Nat.mod_eq_of_lt (by omega)]
    simp only [UInt8.reduceToNat]
    omega
  · split
    · exact ⟨_,_,rfl,by decide⟩
    · split
      · refine ⟨_,_,rfl,?_⟩
        rw [UInt8.lt_iff_toNat_lt,UInt8.toNat_ofNat',Nat.mod_eq_of_lt (by omega)]
        simp only [UInt8.reduceToNat]
        omega
      · refine ⟨_,_,rfl,?_⟩
        rw [UInt8.lt_iff_toNat_lt,UInt8.toNat_ofNat',Nat.mod_eq_of_lt (by omega)]
        simp only [UInt8.reduceToNat]
        omega

end DeepFry.Utf8
