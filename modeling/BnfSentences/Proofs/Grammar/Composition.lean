import BnfSentences.Proofs.Grammar.Presentation

/-!
# Grammar texts put together

The declarations of a text are found line by line: those of two texts with a newline between
them are those of the one, then those of the other. `declarationsOfText_composes` also reads
back the declarations that were written on lines ended alike.
-/

namespace BnfSentences.Grammar

open Text

theorem isDeclaration_iff {l : Text} :
    isDeclaration l ↔ (∃ c ∈ l, ¬ isWhite c) ∧ (trim l).head? ≠ some '#' := by
  have hblank : trim l ≠ [] ↔ ∃ c ∈ l, ¬ isWhite c := by
    rw [ne_eq, trim_eq_nil]
    simp [isBlank]
  rw [← hblank]
  simp [isDeclaration]

theorem declarationsOfText_append (s t : Text) :
    declarationsOfText (s ++ '\n' :: t) =
      declarationsOfText (s ++ ['\n']) ++ declarationsOfText t := by
  unfold declarationsOfText
  rw [lines_append, List.filter_append]

theorem declarationsOfText_of_notMem {l : Text} (h : '\n' ∉ l) :
    declarationsOfText l = [l].filter isDeclaration := by
  cases l with
  | nil => rfl
  | cons c l => rw [declarationsOfText, lines_eq_singleton (List.cons_ne_nil c l) h]

theorem declarationsOfText_returns {ls : List Text} (h : ∀ l ∈ ls, '\n' ∉ l) :
    declarationsOfText (ls.flatMap (· ++ ['\r', '\n'])) = ls.filter isDeclaration := by
  have hline : ∀ l ∈ ls, ∀ t, lines (l ++ ['\r', '\n'] ++ t) = id l :: lines t := by
    intro l hl t
    rw [List.append_assoc]
    exact lines_cons_return (h l hl) t
  rw [declarationsOfText, lines_flatMap hline, List.map_id]

/-- A return that ends one of the lines goes with the newline that is written after it. -/
theorem declarationsOfText_newlines {ls : List Text} (h : ∀ l ∈ ls, '\n' ∉ l) :
    declarationsOfText (ls.flatMap (· ++ ['\n'])) = (ls.filter isDeclaration).map dropReturn := by
  have hline : ∀ l ∈ ls, ∀ t, lines (l ++ ['\n'] ++ t) = dropReturn l :: lines t := by
    intro l hl t
    rw [List.append_assoc]
    exact lines_cons (h l hl) t
  have hsame : isDeclaration ∘ dropReturn = isDeclaration := funext isDeclaration_dropReturn
  rw [declarationsOfText, lines_flatMap hline, List.filter_map, hsame]

/-- A newline cuts the declarations of a text in two. Lines that are ended by a return and a
newline are read as they are, and others without the return they may end in. -/
theorem declarationsOfText_composes :
    (∀ s t, declarationsOfText (s ++ '\n' :: t) =
      declarationsOfText (s ++ ['\n']) ++ declarationsOfText t) ∧
    (∀ l, '\n' ∉ l → declarationsOfText l = [l].filter isDeclaration) ∧
    (∀ ls : List Text, (∀ l ∈ ls, '\n' ∉ l) →
      declarationsOfText (ls.flatMap (· ++ ['\r', '\n'])) = ls.filter isDeclaration ∧
      declarationsOfText (ls.flatMap (· ++ ['\n'])) =
        (ls.filter isDeclaration).map fun l =>
          if l.getLast? = some '\r' then l.dropLast else l) ∧
    ∀ l, isDeclaration l ↔ (∃ c ∈ l, ¬ isWhite c) ∧ (trim l).head? ≠ some '#' := by
  refine ⟨declarationsOfText_append, ?_, ?_, ?_⟩
  · intro l h
    exact declarationsOfText_of_notMem h
  · intro ls h
    refine ⟨declarationsOfText_returns h, ?_⟩
    rw [declarationsOfText_newlines h, funext dropReturn_eq]
  · intro l
    exact isDeclaration_iff

/-- Two returns at the end of a declaration, a blank line of a return alone, and a comment. -/
theorem declarationsOfText_composes_returns :
    (∀ l ∈ ["a ::= x\r\r".toList, ['\r'], " # b ::= y".toList], '\n' ∉ l) ∧
      declarationsOfText "a ::= x\r\r\r\n\r\r\n # b ::= y\r\n".toList = ["a ::= x\r\r".toList] ∧
      declarationsOfText "a ::= x\r\r\n\r\n # b ::= y\n".toList = ["a ::= x\r".toList] ∧
      declarationsOfText "c ::= z\r".toList = ["c ::= z\r".toList] := by
  have hlines : ∀ l ∈ ["a ::= x\r\r".toList, ['\r'], " # b ::= y".toList], '\n' ∉ l := by decide
  obtain ⟨-, hone, hall, -⟩ := declarationsOfText_composes
  obtain ⟨hreturns, hnewlines⟩ := hall _ hlines
  exact ⟨hlines, hreturns, hnewlines, hone _ (by decide)⟩

end BnfSentences.Grammar
