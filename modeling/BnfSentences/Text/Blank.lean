import BnfSentences.Text.Basic

/-!
# White space

`isWhite` decides the White_Space property of Unicode and `trim` removes such
characters from both ends. Names, alternatives and typed lines are trimmed.
-/

namespace BnfSentences.Text

/-- The White_Space property of Unicode: 25 characters in ten ranges. -/
def isWhite (c : Char) : Bool :=
  let n := c.toNat
  (0x09 ≤ n && n ≤ 0x0D) || n == 0x20 || n == 0x85 || n == 0xA0 || n == 0x1680 ||
    (0x2000 ≤ n && n ≤ 0x200A) || (0x2028 ≤ n && n ≤ 0x2029) || n == 0x202F || n == 0x205F ||
    n == 0x3000

def isBlank (s : Text) : Bool :=
  s.all isWhite

def trimLeft (s : Text) : Text :=
  s.dropWhile isWhite

def trimRight (s : Text) : Text :=
  (s.reverse.dropWhile isWhite).reverse

def trim (s : Text) : Text :=
  trimRight (trimLeft s)

def IsTrimmed (s : Text) : Prop :=
  trim s = s

/-! ### The property -/

theorem isWhite_of_isGap {c : Char} (h : isGap c) : isWhite c := by
  simp only [isGap, Bool.or_eq_true, beq_iff_eq] at h
  rcases h with rfl | rfl <;> decide

/-! ### What trimming leaves -/

theorem dropWhile_eq_nil {p : Char → Bool} {s : Text} : s.dropWhile p = [] ↔ s.all p := by
  induction s with
  | nil => simp
  | cons c s ih => cases h : p c <;> simp [h, ih]

theorem trim_eq_nil {s : Text} : trim s = [] ↔ isBlank s := by
  simp only [trim, trimRight, trimLeft, isBlank, List.reverse_eq_nil_iff, dropWhile_eq_nil,
    List.all_reverse]
  constructor
  · intro h
    induction s with
    | nil => rfl
    | cons c s ih =>
      cases hc : isWhite c
      · simp [hc] at h
      · simpa [hc] using ih (by simpa [hc] using h)
  · intro h
    simp [dropWhile_eq_nil.2 h]

end BnfSentences.Text
