import BnfSentences.Text.Basic

/-!
# Decimal numerals

`print` writes a number in decimal and `read` reads a run of ASCII digits;
`read_print` says that they agree. `readCount` is the form that users type.
-/

namespace BnfSentences.Numeral

def print (n : Nat) : Text :=
  Nat.toDigits 10 n

def read (s : Text) : Option Nat :=
  if !s.isEmpty && s.all Char.isDigit then some (Nat.ofDigitChars 10 s 0) else none

def readWord (s : Text) : Option UInt64 :=
  (read s).bind fun n => if n < UInt64.size then some (UInt64.ofNat n) else none

/-- The 64-bit number that a user typed: a plus sign may stand before the digits. -/
def readCount : Text → Option UInt64
  | '+' :: s => readWord s
  | s => readWord s

/-! ### Reading what was written -/

theorem isDigit_of_mem_print {n : Nat} {c : Char} (h : c ∈ print n) : c.isDigit :=
  Nat.isDigit_of_mem_toDigits (by decide) (by decide) h

theorem print_ne_nil (n : Nat) : print n ≠ [] :=
  Nat.toDigits_ne_nil

theorem read_print (n : Nat) : read (print n) = some n := by
  have hd : (print n).all Char.isDigit := List.all_eq_true.2 fun _ h => isDigit_of_mem_print h
  have hv : Nat.ofDigitChars 10 (print n) 0 = n := Nat.ofDigitChars_ten_toDigits
  simp [read, print_ne_nil, hd, hv]

end BnfSentences.Numeral
