import DeepFry.Lib.Bytes
import Mathlib.Data.Nat.Digits.Defs

namespace DeepFry.HexNumber

-- Library layer: a number written as 0x and its hexadecimal digits.
def text (n : Nat) : Bytes := [48,120] ++ if n = 0 then [48] else (Nat.digits 16 n).reverse.map Bytes.hexDigit

def value (written : Bytes) : Nat := (written.drop 2).foldl (fun v digit => 16 * v + (Bytes.nibble digit).getD 0) 0

theorem value_digits (digits : List Nat) (half : ∀ d ∈ digits, d < 16) :
    (digits.reverse.map Bytes.hexDigit).foldl (fun v digit => 16 * v + (Bytes.nibble digit).getD 0) 0 = Nat.ofDigits 16 digits := by
  induction digits with
  | nil => rfl
  | cons d digits ih =>
    rw [List.reverse_cons,List.map_append,List.foldl_append,ih fun other member => half other (List.mem_cons_of_mem _ member),Nat.ofDigits_cons]
    simp only [List.map_cons,List.map_nil,List.foldl_cons,List.foldl_nil,Bytes.nibble_hexDigit (half d List.mem_cons_self),Option.getD_some]
    exact Nat.add_comm _ _

theorem value_text (n : Nat) : value (text n) = n := by
  unfold value text
  simp only [List.cons_append,List.nil_append,List.drop_succ_cons,List.drop_zero]
  by_cases zero : n = 0
  · subst zero
    rfl
  · rw [if_neg zero,value_digits _ fun d member => Nat.digits_lt_base (by decide) member,Nat.ofDigits_digits]

theorem text_injective : Function.Injective text := Function.LeftInverse.injective value_text

end DeepFry.HexNumber
