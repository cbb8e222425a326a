import DeepFry.Lib.Utf8

namespace DeepFry.JsonText
open Utf8

-- Library layer: a string as JSON text that is safe inside HTML, each ill-formed byte as the replacement character.

-- A u-escape of four digits.
def unicode (n : Nat) : Bytes :=
  [92,117,Bytes.hexDigit (n / 4096 % 16),Bytes.hexDigit (n / 256 % 16),Bytes.hexDigit (n / 16 % 16),Bytes.hexDigit (n % 16)]

def safe (b : UInt8) : Bool := decide (32 ≤ b) && ! [34,38,60,62,92].contains b

def ascii (b : UInt8) : Bytes :=
  if safe b then [b]
  else if b = 92 ∨ b = 34 then [92,b]
  else if b = 8 then [92,98]
  else if b = 12 then [92,102]
  else if b = 10 then [92,110]
  else if b = 13 then [92,114]
  else if b = 9 then [92,116]
  else unicode b.toNat

-- The line and paragraph separators are escaped too.
def piece (b : UInt8) (rest : Bytes) : Bytes :=
  let read := decodeRune (b :: rest)
  if b < 0x80 then ascii b
  else if read = (REPLACEMENT,1) then unicode REPLACEMENT
  else if read.1 = 0x2028 ∨ read.1 = 0x2029 then unicode read.1
  else (b :: rest).take read.2

-- The bytes still covered by the last rune are skipped.
def escapeFrom : Nat → Bytes → Bytes
  | _,[] => []
  | skip + 1,_ :: rest => escapeFrom skip rest
  | 0,b :: rest => piece b rest ++ escapeFrom ((decodeRune (b :: rest)).2 - 1) rest

def quoted (s : Bytes) : Bytes := [34] ++ escapeFrom 0 s ++ [34]

theorem hexDigit_plain {n : Nat} (half : n < 16) : 32 ≤ Bytes.hexDigit n := by
  interval_cases n <;> decide

theorem unicode_plain {n : Nat} : ∀ x ∈ unicode n, 32 ≤ x := by
  intro x member
  simp only [unicode,List.mem_cons,List.not_mem_nil,or_false] at member
  obtain rfl | rfl | rfl | rfl | rfl | rfl := member
  · decide
  · decide
  all_goals exact hexDigit_plain (Nat.mod_lt _ (by decide))

theorem pair_plain {b : UInt8} (letter : 32 ≤ b) : ∀ x ∈ [92,b], 32 ≤ x := by
  intro x member
  simp only [List.mem_cons,List.not_mem_nil,or_false] at member
  obtain rfl | rfl := member
  · decide
  · exact letter

theorem ascii_plain (b : UInt8) : ∀ x ∈ ascii b, 32 ≤ x := by
  intro x member
  unfold ascii at member
  split at member
  · next clear =>
    obtain rfl := List.mem_singleton.mp member
    exact of_decide_eq_true (Bool.and_eq_true_iff.mp clear).1
  · split at member
    · next special => exact pair_plain (by obtain rfl | rfl := special <;> decide) x member
    · split at member
      · exact pair_plain (by decide) x member
      · split at member
        · exact pair_plain (by decide) x member
        · split at member
          · exact pair_plain (by decide) x member
          · split at member
            · exact pair_plain (by decide) x member
            · split at member
              · exact pair_plain (by decide) x member
              · exact unicode_plain x member

theorem piece_plain (b : UInt8) (rest : Bytes) : ∀ x ∈ piece b rest, 32 ≤ x := by
  intro x member
  have printable : 0x80 ≤ x → 32 ≤ x := le_trans (by decide)
  unfold piece at member
  dsimp only at member
  split at member
  · exact ascii_plain b x member
  · next beyond =>
    split at member
    · exact unicode_plain x member
    · split at member
      · exact unicode_plain x member
      · cases width : (decodeRune (b :: rest)).2 with
        | zero =>
          rw [width] at member
          cases member
        | succ more =>
          rw [width,List.take_succ_cons] at member
          obtain rfl | later := List.mem_cons.mp member
          · exact printable (not_lt.mp beyond)
          · have covered := decodeRune_covered b rest x
            rw [width,Nat.add_one_sub_one] at covered
            exact printable (covered later)

theorem escapeFrom_plain (skip : Nat) (s : Bytes) : ∀ x ∈ escapeFrom skip s, 32 ≤ x := by
  induction s generalizing skip with
  | nil =>
    intro x member
    rw [escapeFrom] at member
    cases member
  | cons b rest ih =>
    cases skip with
    | succ skip => exact ih skip
    | zero =>
      intro x member
      rw [escapeFrom] at member
      obtain here | later := List.mem_append.mp member
      · exact piece_plain b rest x here
      · exact ih _ x later

-- No control byte stands inside a string's text.
theorem quoted_plain (s : Bytes) : ∀ x ∈ quoted s, 32 ≤ x := by
  intro x member
  unfold quoted at member
  obtain front | last := List.mem_append.mp member
  · obtain first | inner := List.mem_append.mp front
    · rw [List.mem_singleton.mp first]
      decide
    · exact escapeFrom_plain 0 s x inner
  · rw [List.mem_singleton.mp last]
    decide

end DeepFry.JsonText
