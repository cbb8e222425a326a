import DeepFry.Lib.Bytes

namespace DeepFry.Decimal

-- Library layer: signed decimal text, written without leading zeros and read back within 64 bits.

def read : Bytes → Nat → Option Nat
  | [],value => some value
  | b :: rest,value => if 48 ≤ b ∧ b ≤ 57 then read rest (10 * value + (b.toNat - 48)) else none

def fits (value : Int) : Bool := decide (-2^63 ≤ value ∧ value < 2^63)

def formatInt : Int → Bytes
  | .ofNat n => Bytes.digits n
  | .negSucc n => 45 :: Bytes.digits (n + 1)

-- An optional sign, then at least one digit, then no overflow.
def parseInt (bytes : Bytes) : Option Int :=
  let unsigned := if bytes.head? = some 43 ∨ bytes.head? = some 45 then bytes.drop 1 else bytes
  if unsigned = [] then none
  else match read unsigned 0 with
    | some n =>
      let value : Int := if bytes.head? = some 45 then -n else n
      if fits value then some value else none
    | none => none

theorem digit_byte {c : Char} (digit : c.isDigit) : 48 ≤ UInt8.ofNat c.toNat ∧ UInt8.ofNat c.toNat ≤ 57 ∧ (UInt8.ofNat c.toNat).toNat = c.toNat := by
  obtain ⟨low,high⟩ := Char.isDigit_iff_toNat.mp digit
  have value : (UInt8.ofNat c.toNat).toNat = c.toNat := by
    rw [UInt8.toNat_ofNat']
    have nine : '9'.toNat = 57 := rfl
    exact Nat.mod_eq_of_lt (by omega)
  refine ⟨?_,?_,value⟩
  · rw [UInt8.le_iff_toNat_le,value]
    exact low
  · rw [UInt8.le_iff_toNat_le,value]
    exact high

theorem read_chars {chars : List Char} (digits : ∀ c ∈ chars, c.isDigit) (value : Nat) :
    read (chars.map fun c => UInt8.ofNat c.toNat) value = some (Nat.ofDigitChars 10 chars value) := by
  induction chars generalizing value with
  | nil => rfl
  | cons c rest ih =>
    obtain ⟨low,high,same⟩ := digit_byte (digits c List.mem_cons_self)
    rw [List.map_cons,read,if_pos ⟨low,high⟩,ih fun other member => digits other (List.mem_cons_of_mem _ member),
      Nat.ofDigitChars_cons,same]
    rfl

theorem read_digits (n : Nat) : read (Bytes.digits n) 0 = some n := by
  unfold Bytes.digits
  rw [read_chars fun c member => Nat.isDigit_of_mem_toDigits (b := 10) (by decide) (by decide) member,Nat.ofDigitChars_ten_toDigits]

theorem digits_head (n : Nat) : ∃ b rest, Bytes.digits n = b :: rest ∧ b ≠ 43 ∧ b ≠ 45 := by
  cases written : Nat.toDigits 10 n with
  | nil => exact absurd written Nat.toDigits_ne_nil
  | cons c rest =>
    have digit : c.isDigit := Nat.isDigit_of_mem_toDigits (b := 10) (by decide) (by decide) (by rw [written]; exact List.mem_cons_self)
    obtain ⟨low,_,_⟩ := digit_byte digit
    refine ⟨UInt8.ofNat c.toNat,rest.map fun digit => UInt8.ofNat digit.toNat,?_,?_,?_⟩
    · unfold Bytes.digits
      rw [written]
      rfl
    · intro plus
      rw [plus] at low
      exact absurd low (by decide)
    · intro minus
      rw [minus] at low
      exact absurd low (by decide)

theorem parseInt_formatInt (value : Int) : parseInt (formatInt value) = if fits value then some value else none := by
  cases value with
  | ofNat n =>
    obtain ⟨b,rest,written,plus,minus⟩ := digits_head n
    have number := read_digits n
    rw [written] at number
    rw [show formatInt (.ofNat n) = b :: rest from written]
    unfold parseInt
    have unsigned : ¬ ((b :: rest).head? = some 43 ∨ (b :: rest).head? = some 45) := by
      intro signed
      rcases signed with same | same
      · exact plus (Option.some.inj same)
      · exact minus (Option.some.inj same)
    dsimp only
    rw [if_neg unsigned,if_neg (List.cons_ne_nil b rest),number]
    dsimp only
    rw [if_neg fun same => unsigned (.inr same)]
    rfl
  | negSucc n =>
    obtain ⟨b,rest,written,_,_⟩ := digits_head (n + 1)
    have number := read_digits (n + 1)
    rw [written] at number
    rw [show formatInt (.negSucc n) = 45 :: b :: rest from congrArg (45 :: ·) written]
    unfold parseInt
    have signed : (45 :: b :: rest).head? = some 43 ∨ (45 :: b :: rest).head? = some 45 := .inr rfl
    dsimp only
    rw [if_pos signed,List.drop_one,List.tail_cons,if_neg (List.cons_ne_nil b rest),number]
    dsimp only
    rw [if_pos (show (45 :: b :: rest : Bytes).head? = some 45 from rfl)]
    rfl

theorem digits_injective {n m : Nat} (same : Bytes.digits n = Bytes.digits m) : n = m := by
  have number := read_digits n
  rw [same,read_digits] at number
  exact (Option.some.inj number).symm

theorem formatInt_injective {value other : Int} (same : formatInt value = formatInt other) : value = other := by
  have unsigned : ∀ n m : Nat, Bytes.digits n ≠ 45 :: Bytes.digits m := by
    intro n m equal
    obtain ⟨b,rest,written,_,minus⟩ := digits_head n
    rw [written] at equal
    exact minus (List.cons.inj equal).1
  cases value with
  | ofNat n =>
    cases other with
    | ofNat m => exact congrArg Int.ofNat (digits_injective same)
    | negSucc m => exact absurd same (unsigned n (m + 1))
  | negSucc n =>
    cases other with
    | ofNat m => exact absurd same.symm (unsigned m (n + 1))
    | negSucc m =>
      have equal : n + 1 = m + 1 := digits_injective (List.cons.inj same).2
      exact congrArg Int.negSucc (Nat.succ.inj equal)

theorem parseInt_exact {value read : Int} (parsed : parseInt (formatInt value) = some read) : read = value := by
  rw [parseInt_formatInt] at parsed
  split at parsed
  · exact (Option.some.inj parsed).symm
  · cases parsed

end DeepFry.Decimal
