import DeepFry.Lib.Bytes
import Mathlib.Tactic

namespace DeepFry.Base64

-- Library layer: text that stands for bytes, and the standard alphabet in groups of four with padding at the end only.

-- What a caller relies on: a text is read back, and no two texts stand for the same bytes. A refused text has its reason.
structure Engine where
  encode : Bytes → Bytes
  decode : Bytes → Except Bytes Bytes
  roundtrip : ∀ bytes, decode (encode bytes) = .ok bytes
  canonical : ∀ text bytes, decode text = .ok bytes → text = encode bytes

def symbol (n : Nat) : UInt8 :=
  if n < 26 then UInt8.ofNat (65 + n)
  else if n < 52 then UInt8.ofNat (71 + n)
  else if n < 62 then UInt8.ofNat (n - 4)
  else if n = 62 then 43
  else 47

def value (c : UInt8) : Option Nat :=
  if 65 ≤ c ∧ c ≤ 90 then some (c.toNat - 65)
  else if 97 ≤ c ∧ c ≤ 122 then some (c.toNat - 71)
  else if 48 ≤ c ∧ c ≤ 57 then some (c.toNat + 4)
  else if c = 43 then some 62
  else if c = 47 then some 63
  else none

def pad : UInt8 := 61

def encode : Bytes → Bytes
  | [] => []
  | [a] => [symbol (a.toNat / 4),symbol (a.toNat % 4 * 16),pad,pad]
  | [a,b] => [symbol (a.toNat / 4),symbol (a.toNat % 4 * 16 + b.toNat / 16),symbol (b.toNat % 16 * 4),pad]
  | a :: b :: c :: rest =>
    symbol (a.toNat / 4) :: symbol (a.toNat % 4 * 16 + b.toNat / 16) :: symbol (b.toNat % 16 * 4 + c.toNat / 64) ::
      symbol (c.toNat % 64) :: encode rest

-- The bits the padding stands for are zero.
def decode : Bytes → Option Bytes
  | [] => some []
  | w :: x :: y :: z :: rest =>
    if y = pad ∧ z = pad ∧ rest = [] then do
      let p ← value w
      let q ← value x
      if q % 16 = 0 then some [UInt8.ofNat (p * 4 + q / 16)] else none
    else if z = pad ∧ rest = [] then do
      let p ← value w
      let q ← value x
      let r ← value y
      if r % 4 = 0 then some [UInt8.ofNat (p * 4 + q / 16),UInt8.ofNat (q % 16 * 16 + r / 4)] else none
    else do
      let p ← value w
      let q ← value x
      let r ← value y
      let s ← value z
      let tail ← decode rest
      some (UInt8.ofNat (p * 4 + q / 16) :: UInt8.ofNat (q % 16 * 16 + r / 4) :: UInt8.ofNat (r % 4 * 64 + s) :: tail)
  | _ => none

theorem value_symbol {n : Nat} (small : n < 64) : value (symbol n) = some n := by
  interval_cases n <;> decide

theorem symbol_unpadded {n : Nat} (small : n < 64) : symbol n ≠ pad := by
  interval_cases n <;> decide

theorem symbols_values : ∀ k < 256, (value (UInt8.ofNat k)).all (fun n => decide (n < 64 ∧ symbol n = UInt8.ofNat k)) = true := by
  decide +kernel

theorem symbol_value {c : UInt8} {n : Nat} (read : value c = some n) : n < 64 ∧ symbol n = c := by
  have same := symbols_values c.toNat (UInt8.toNat_lt c)
  rw [UInt8.ofNat_toNat,read] at same
  exact of_decide_eq_true same

theorem byte_toNat {n : Nat} (small : n < 256) : (UInt8.ofNat n).toNat = n := UInt8.toNat_ofNat_of_lt' small

theorem decode_encode (bytes : Bytes) : decode (encode bytes) = some bytes := by
  induction bytes using encode.induct with
  | case1 => rfl
  | case2 a =>
    have byte := UInt8.toNat_lt a
    have first : a.toNat / 4 < 64 := by omega
    have second : a.toNat % 4 * 16 < 64 := by omega
    have whole : a.toNat / 4 * 4 + a.toNat % 4 * 16 / 16 = a.toNat := by omega
    have clear : a.toNat % 4 * 16 % 16 = 0 := by omega
    rw [encode,decode,if_pos ⟨rfl,rfl,rfl⟩]
    simp only [value_symbol first,value_symbol second,Option.bind_eq_bind,Option.bind_some,if_pos clear,whole,UInt8.ofNat_toNat]
  | case3 a b =>
    have left := UInt8.toNat_lt a
    have right := UInt8.toNat_lt b
    have first : a.toNat / 4 < 64 := by omega
    have second : a.toNat % 4 * 16 + b.toNat / 16 < 64 := by omega
    have third : b.toNat % 16 * 4 < 64 := by omega
    have high : a.toNat / 4 * 4 + (a.toNat % 4 * 16 + b.toNat / 16) / 16 = a.toNat := by omega
    have low : (a.toNat % 4 * 16 + b.toNat / 16) % 16 * 16 + b.toNat % 16 * 4 / 4 = b.toNat := by omega
    have clear : b.toNat % 16 * 4 % 4 = 0 := by omega
    have unpadded : ¬ (symbol (b.toNat % 16 * 4) = pad ∧ pad = pad ∧ ([] : Bytes) = []) := fun padded => symbol_unpadded third padded.1
    rw [encode,decode,if_neg unpadded,if_pos ⟨rfl,rfl⟩]
    simp only [value_symbol first,value_symbol second,value_symbol third,Option.bind_eq_bind,Option.bind_some,if_pos clear,high,low,
      UInt8.ofNat_toNat]
  | case4 a b c rest ih =>
    have left := UInt8.toNat_lt a
    have middle := UInt8.toNat_lt b
    have right := UInt8.toNat_lt c
    have first : a.toNat / 4 < 64 := by omega
    have second : a.toNat % 4 * 16 + b.toNat / 16 < 64 := by omega
    have third : b.toNat % 16 * 4 + c.toNat / 64 < 64 := by omega
    have fourth : c.toNat % 64 < 64 := by omega
    have high : a.toNat / 4 * 4 + (a.toNat % 4 * 16 + b.toNat / 16) / 16 = a.toNat := by omega
    have center : (a.toNat % 4 * 16 + b.toNat / 16) % 16 * 16 + (b.toNat % 16 * 4 + c.toNat / 64) / 4 = b.toNat := by omega
    have low : (b.toNat % 16 * 4 + c.toNat / 64) % 4 * 64 + c.toNat % 64 = c.toNat := by omega
    have unpadded := symbol_unpadded fourth
    rw [encode,decode,if_neg fun padded => unpadded padded.2.1,if_neg fun padded => unpadded padded.1]
    simp only [value_symbol first,value_symbol second,value_symbol third,value_symbol fourth,Option.bind_eq_bind,Option.bind_some,ih,
      high,center,low,UInt8.ofNat_toNat]

theorem encode_decode {text bytes : Bytes} (read : decode text = some bytes) : text = encode bytes := by
  induction text using decode.induct generalizing bytes with
  | case1 =>
    cases read
    rfl
  | case2 w x y z rest padded =>
    obtain ⟨rfl,rfl,rfl⟩ := padded
    rw [decode,if_pos ⟨rfl,rfl,rfl⟩] at read
    simp only [Option.bind_eq_bind,Option.bind_eq_some_iff] at read
    obtain ⟨p,first,q,second,read⟩ := read
    split at read
    · next clear =>
      cases read
      obtain ⟨small,rfl⟩ := symbol_value first
      obtain ⟨narrow,rfl⟩ := symbol_value second
      have byte : (UInt8.ofNat (p * 4 + q / 16)).toNat = p * 4 + q / 16 := byte_toNat (by omega)
      rw [encode,byte,show (p * 4 + q / 16) / 4 = p by omega,show (p * 4 + q / 16) % 4 * 16 = q by omega]
    · cases read
  | case3 w x y z rest unpadded padded =>
    obtain ⟨rfl,rfl⟩ := padded
    rw [decode,if_neg unpadded,if_pos ⟨rfl,rfl⟩] at read
    simp only [Option.bind_eq_bind,Option.bind_eq_some_iff] at read
    obtain ⟨p,first,q,second,r,third,read⟩ := read
    split at read
    · next clear =>
      cases read
      obtain ⟨small,rfl⟩ := symbol_value first
      obtain ⟨narrow,rfl⟩ := symbol_value second
      obtain ⟨short,rfl⟩ := symbol_value third
      have high : (UInt8.ofNat (p * 4 + q / 16)).toNat = p * 4 + q / 16 := byte_toNat (by omega)
      have low : (UInt8.ofNat (q % 16 * 16 + r / 4)).toNat = q % 16 * 16 + r / 4 := byte_toNat (by omega)
      rw [encode,high,low,show (p * 4 + q / 16) / 4 = p by omega,
        show (p * 4 + q / 16) % 4 * 16 + (q % 16 * 16 + r / 4) / 16 = q by omega,show (q % 16 * 16 + r / 4) % 16 * 4 = r by omega]
    · cases read
  | case4 w x y z rest unpadded whole ih =>
    rw [decode,if_neg unpadded,if_neg whole] at read
    simp only [Option.bind_eq_bind,Option.bind_eq_some_iff] at read
    obtain ⟨p,first,q,second,r,third,s,fourth,tail,later,read⟩ := read
    cases read
    obtain ⟨small,rfl⟩ := symbol_value first
    obtain ⟨narrow,rfl⟩ := symbol_value second
    obtain ⟨short,rfl⟩ := symbol_value third
    obtain ⟨last,rfl⟩ := symbol_value fourth
    have high : (UInt8.ofNat (p * 4 + q / 16)).toNat = p * 4 + q / 16 := byte_toNat (by omega)
    have center : (UInt8.ofNat (q % 16 * 16 + r / 4)).toNat = q % 16 * 16 + r / 4 := byte_toNat (by omega)
    have low : (UInt8.ofNat (r % 4 * 64 + s)).toNat = r % 4 * 64 + s := byte_toNat (by omega)
    rw [encode,high,center,low,show (p * 4 + q / 16) / 4 = p by omega,
      show (p * 4 + q / 16) % 4 * 16 + (q % 16 * 16 + r / 4) / 16 = q by omega,
      show (q % 16 * 16 + r / 4) % 16 * 4 + (r % 4 * 64 + s) / 64 = r by omega,show (r % 4 * 64 + s) % 64 = s by omega,← ih later]
  | case5 text empty short => simp [decode] at read

def standard : Engine where
  encode := encode
  decode text := match decode text with | some bytes => .ok bytes | none => .error []
  roundtrip bytes := by rw [decode_encode]
  canonical text bytes read := by
    split at read
    · next found =>
      cases read
      exact encode_decode found
    · cases read

example : encode (Bytes.text "deepf") = Bytes.text "ZGVlcGY=" := by decide

end DeepFry.Base64
