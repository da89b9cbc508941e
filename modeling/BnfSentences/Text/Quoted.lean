import BnfSentences.Text.Hidden

/-!
# Quoted texts

`quote` puts a text between quotation marks, on one line and in visible
characters. Messages quote a declaration, and a report quotes a message. Which
characters are hidden depends on the edition of the tables, so it is a parameter.
-/

namespace BnfSentences.Text

/-- A code point in lowercase hexadecimal, without leading zeros. -/
def hexadecimal (n : Nat) : Text :=
  Nat.toDigits 16 n

/-- The control characters run from U+0000 to U+001F and from U+007F to U+009F. -/
def isControl (c : Char) : Bool :=
  c.toNat < 0x20 || 0x7F ≤ c.toNat && c.toNat < 0xA0

/-- A set of characters that are shown by their code points. -/
structure Hiding where
  hides : Char → Bool
  hides_control : ∀ c, isControl c → hides c

namespace Hiding

/-- The characters that stand for `c` between quotation marks. -/
def escape (h : Hiding) (c : Char) : Text :=
  if c = '\x00' then ['\\', '0']
  else if c = '\t' then ['\\', 't']
  else if c = '\n' then ['\\', 'n']
  else if c = '\r' then ['\\', 'r']
  else if c = '"' ∨ c = '\\' then ['\\', c]
  else if h.hides c then ['\\', 'u', '\x7b'] ++ hexadecimal c.toNat ++ ['\x7d']
  else [c]

def quote (h : Hiding) (s : Text) : Text :=
  '"' :: s.flatMap h.escape ++ ['"']

theorem isHidden_of_isControl {c : Char} (h : isControl c) : isHidden c := by
  obtain ⟨rest, hrest⟩ : ∃ rest, Hidden.ranges = (0x0, 0x1F) :: (0x7F, 0xA0) :: rest := ⟨_, rfl⟩
  simp only [isControl, Bool.or_eq_true, Bool.and_eq_true, decide_eq_true_eq] at h
  simp only [isHidden, hrest, Hidden.holds, Bool.and_eq_true, Bool.or_eq_true, decide_eq_true_eq]
  omega

def unicode : Hiding :=
  ⟨isHidden, fun _ => isHidden_of_isControl⟩

end Hiding

end BnfSentences.Text
