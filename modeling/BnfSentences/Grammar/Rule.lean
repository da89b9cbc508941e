import BnfSentences.Error
import BnfSentences.Grammar.Production

/-!
# Rules

A declaration `name ::= alternative | alternative` is read by `Rule.parse` and
written by `Rule.text`. `parse_eq_error_iff` says which texts are no declaration.
-/

namespace BnfSentences

structure Rule where
  name : Text
  alternatives : List Production
  deriving DecidableEq, Repr

namespace Rule

def separator : Text := [':', ':', '=']

def bar : Char := '|'

def parseAlternatives (s : Text) : List Production :=
  (s.splitOn bar).map Production.ofText

/-- The rule that a declaration describes. The name is what stands in front of the
first separator, trimmed. -/
def parse (declaration : Text) : Except Error Rule :=
  match Text.cutFirst separator declaration with
  | none => .error (.missingSeparator declaration)
  | some (left, right) =>
    if Text.isBlank left then .error (.missingName declaration)
    else .ok ⟨Text.trim left, parseAlternatives right⟩

def text (r : Rule) : Text :=
  r.name ++ ' ' :: separator ++
    ' ' :: [' ', bar, ' '].intercalate (r.alternatives.map Production.text)

/-! ### Which declarations are refused -/

theorem parse_of_cutFirst {d left right : Text}
    (h : Text.cutFirst separator d = some (left, right)) :
    parse d =
      if Text.isBlank left then .error (.missingName d)
      else .ok ⟨Text.trim left, parseAlternatives right⟩ := by
  simp [parse, h]

theorem parse_eq_ok_iff {d : Text} {r : Rule} :
    parse d = .ok r ↔
      ∃ left right, Text.cutFirst separator d = some (left, right) ∧ ¬ Text.isBlank left ∧
        ⟨Text.trim left, parseAlternatives right⟩ = r := by
  cases h : Text.cutFirst separator d with
  | none => simp [parse, h]
  | some cut =>
    obtain ⟨left, right⟩ := cut
    rw [parse_of_cutFirst h]
    by_cases hb : Text.isBlank left <;> simp [hb, and_assoc]

theorem parse_eq_error_iff {d : Text} {e : Error} :
    parse d = .error e ↔
      Text.cutFirst separator d = none ∧ .missingSeparator d = e ∨
        ∃ left right, Text.cutFirst separator d = some (left, right) ∧ Text.isBlank left ∧
          .missingName d = e := by
  cases h : Text.cutFirst separator d with
  | none => simp [parse, h]
  | some cut =>
    obtain ⟨left, right⟩ := cut
    rw [parse_of_cutFirst h]
    by_cases hb : Text.isBlank left <;> simp [hb, and_assoc]

end Rule

end BnfSentences
