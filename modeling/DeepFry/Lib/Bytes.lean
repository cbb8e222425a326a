import Mathlib.Order.Lattice
import Mathlib.Data.List.Lex
import Mathlib.Tactic

namespace DeepFry
abbrev Bytes := List UInt8
namespace Bytes

-- Library layer: fixed-width little-endian words and lowercase hexadecimal over byte lists.

instance : LinearOrder UInt8 where
  le_refl := UInt8.le_refl
  le_trans _ _ _ := UInt8.le_trans
  lt_iff_le_not_ge a b := by simp only [UInt8.lt_iff_toNat_lt,UInt8.le_iff_toNat_le]; omega
  le_antisymm _ _ := UInt8.le_antisymm
  le_total := UInt8.le_total
  toDecidableLE := inferInstance
  toDecidableLT := inferInstance
  compare_eq_compareOfLessAndEq _ _ := rfl

-- Under one name for all the definitions that compare byte strings.
instance lawful : LawfulBEq Bytes := inferInstance

def toLe : Nat → Nat → Bytes
  | 0,_ => []
  | width+1,n => UInt8.ofNat (n % 256) :: toLe width (n / 256)

def fromLe : Bytes → Nat
  | [] => 0
  | b :: rest => b.toNat + 256 * fromLe rest

@[simp] theorem toLe_length (width n : Nat) : (toLe width n).length = width := by
  induction width generalizing n with
  | zero => rfl
  | succ width ih => simp [toLe,ih]

theorem fromLe_toLe (width n : Nat) : fromLe (toLe width n) = n % 256^width := by
  induction width generalizing n with
  | zero => simp [toLe,fromLe,Nat.mod_one]
  | succ width ih =>
    have low : (UInt8.ofNat (n % 256)).toNat = n % 256 := by
      simp
    rw [toLe,fromLe,ih,low,Nat.pow_succ',Nat.mod_mul]

theorem fromLe_bound (bytes : Bytes) : fromLe bytes < 256^bytes.length := by
  induction bytes with
  | nil => simp [fromLe]
  | cons b rest ih =>
    have byte : b.toNat < 256 := UInt8.toNat_lt b
    rw [fromLe,List.length_cons,Nat.pow_succ']
    omega

theorem toLe_fromLe (bytes : Bytes) : toLe bytes.length (fromLe bytes) = bytes := by
  induction bytes with
  | nil => rfl
  | cons b rest ih =>
    have byte : b.toNat < 256 := UInt8.toNat_lt b
    have low : (b.toNat + 256 * fromLe rest) % 256 = b.toNat := by omega
    have high : (b.toNat + 256 * fromLe rest) / 256 = fromLe rest := by omega
    rw [fromLe,List.length_cons,toLe,low,high,ih]
    simp

theorem fromLe_injective {left right : Bytes} (width : left.length = right.length)
    (same : fromLe left = fromLe right) : left = right := by
  rw [← toLe_fromLe left,← toLe_fromLe right,width,same]

theorem fromLe_exact {width n : Nat} (small : n < 256^width) : fromLe (toLe width n) = n := by
  rw [fromLe_toLe,Nat.mod_eq_of_lt small]

theorem fromLe_append (low high : Bytes) : fromLe (low ++ high) = fromLe low + 256^low.length * fromLe high := by
  induction low with
  | nil => simp [fromLe]
  | cons b rest ih =>
    rw [List.cons_append,fromLe,fromLe,ih,List.length_cons,Nat.pow_succ']
    ring

-- Big-endian numbers of one width are ordered as their bytes are.
theorem lt_bigEndian {left right : Bytes} (width : left.length = right.length) :
    left < right ↔ fromLe left.reverse < fromLe right.reverse := by
  induction left generalizing right with
  | nil =>
    cases right with
    | nil => simp
    | cons y ys => cases width
  | cons x xs ih =>
    cases right with
    | nil => cases width
    | cons y ys =>
      have tails : xs.length = ys.length := Nat.succ.inj width
      have left_bound := fromLe_bound xs.reverse
      have right_bound := fromLe_bound ys.reverse
      rw [List.length_reverse] at left_bound right_bound
      rw [List.reverse_cons,List.reverse_cons,fromLe_append,fromLe_append,List.cons_lt_cons_iff,ih tails,
        List.length_reverse,List.length_reverse,tails,UInt8.lt_iff_toNat_lt,← UInt8.toNat_inj]
      rw [tails] at left_bound
      simp only [fromLe,Nat.mul_zero,Nat.add_zero]
      rcases lt_trichotomy x.toNat y.toNat with less | same | more
      · have step : 256^ys.length * (x.toNat + 1) ≤ 256^ys.length * y.toNat := Nat.mul_le_mul_left _ less
        rw [Nat.mul_succ] at step
        exact ⟨fun _ => by omega,fun _ => .inl less⟩
      · simp [same]
      · have step : 256^ys.length * (y.toNat + 1) ≤ 256^ys.length * x.toNat := Nat.mul_le_mul_left _ more
        rw [Nat.mul_succ] at step
        constructor
        · rintro (less | ⟨same,_⟩) <;> omega
        · intro under
          omega

-- Hexadecimal: the value of a digit of either case, and the lowercase digit of a half byte.
def nibble (b : UInt8) : Option Nat :=
  if 48 ≤ b ∧ b ≤ 57 then some (b.toNat - 48)
  else if 97 ≤ b ∧ b ≤ 102 then some (b.toNat - 97 + 10)
  else if 65 ≤ b ∧ b ≤ 70 then some (b.toNat - 65 + 10)
  else none

def decodeHex : Bytes → Option Bytes
  | [] => some []
  | [_] => none
  | hi :: lo :: rest => do
    let high ← nibble hi
    let low ← nibble lo
    let tail ← decodeHex rest
    some (UInt8.ofNat (16 * high + low) :: tail)

theorem decodeHex_length {digits bytes : Bytes} (decoded : decodeHex digits = some bytes) :
    digits.length = 2 * bytes.length := by
  induction digits using decodeHex.induct generalizing bytes with
  | case1 =>
    cases decoded
    rfl
  | case2 => cases decoded
  | case3 hi lo rest ih =>
    simp only [decodeHex,Option.bind_eq_bind,Option.bind_eq_some_iff] at decoded
    obtain ⟨_,_,_,_,tail,read,same⟩ := decoded
    cases same
    simp [ih read]
    omega

-- Digits that all have a value decode, as long as they come in pairs.
theorem decodeHex_total {digits : Bytes} (paired : digits.length % 2 = 0)
    (valued : ∀ b ∈ digits, (nibble b).isSome = true) : ∃ bytes, decodeHex digits = some bytes := by
  induction digits using decodeHex.induct with
  | case1 => exact ⟨[],rfl⟩
  | case2 => simp at paired
  | case3 hi lo rest ih =>
    obtain ⟨high,first⟩ := Option.isSome_iff_exists.mp (valued hi (by simp))
    obtain ⟨low,second⟩ := Option.isSome_iff_exists.mp (valued lo (by simp))
    obtain ⟨tail,read⟩ := ih (by simp only [List.length_cons] at paired; omega) fun b member => valued b (by simp [member])
    exact ⟨UInt8.ofNat (16 * high + low) :: tail,by simp [decodeHex,first,second,read]⟩

def hexDigit (n : Nat) : UInt8 := if n < 10 then UInt8.ofNat (48 + n) else UInt8.ofNat (87 + n)

def hexEncode : Bytes → Bytes
  | [] => []
  | b :: rest => hexDigit (b.toNat / 16) :: hexDigit (b.toNat % 16) :: hexEncode rest

theorem nibble_hexDigit {n : Nat} (half : n < 16) : nibble (hexDigit n) = some n := by
  interval_cases n <;> decide

theorem decodeHex_hexEncode (bytes : Bytes) : decodeHex (hexEncode bytes) = some bytes := by
  induction bytes with
  | nil => rfl
  | cons b rest ih =>
    have byte : b.toNat < 256 := UInt8.toNat_lt b
    have whole : UInt8.ofNat (16 * (b.toNat / 16) + b.toNat % 16) = b := by
      rw [Nat.div_add_mod,UInt8.ofNat_toNat]
    simp only [hexEncode,decodeHex,nibble_hexDigit (show b.toNat / 16 < 16 by omega),
      nibble_hexDigit (show b.toNat % 16 < 16 by omega),ih,Option.bind_eq_bind,Option.bind_some,whole]

-- UTF-8 text and decimal numbers.
def text (string : String) : Bytes := string.toUTF8.data.toList

def digits (n : Nat) : Bytes := (Nat.toDigits 10 n).map fun digit => UInt8.ofNat digit.toNat

end Bytes
end DeepFry
