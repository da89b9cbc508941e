import BnfSentences.Text.Basic

/-!
# Lines

A line ends at a newline, and a return directly before the newline goes with it.
`lines_append` says that the lines of a text are found part by part.
-/

namespace BnfSentences.Text

/-- A text without the return that ends it, if one does. -/
def dropReturn : Text → Text
  | [] => []
  | ['\r'] => []
  | c :: s => c :: dropReturn s

/-- The lines among the pieces between newlines. A newline ended each piece but
the last, which is a line only if it has a character. -/
def linesOfPieces : List Text → List Text
  | [] => []
  | [last] => if last.isEmpty then [] else [last]
  | piece :: pieces => dropReturn piece :: linesOfPieces pieces

/-- The lines of a text. A last line that no newline ends keeps its return. -/
def lines (s : Text) : List Text :=
  linesOfPieces (s.splitOn '\n')

/-! ### Line by line -/

theorem linesOfPieces_append (ps : List Text) {qs : List Text} (hqs : qs ≠ []) :
    linesOfPieces (ps ++ qs) = ps.map dropReturn ++ linesOfPieces qs := by
  induction ps with
  | nil => rfl
  | cons p ps ih =>
    have hne : ps ++ qs ≠ [] := by simp [hqs]
    obtain ⟨r, rs, hr⟩ := List.exists_cons_of_ne_nil hne
    simp only [List.cons_append, List.map_cons]
    rw [← ih, hr, linesOfPieces]
    simp

theorem lines_append (s t : Text) : lines (s ++ '\n' :: t) = lines (s ++ ['\n']) ++ lines t := by
  have hs : (s ++ ['\n']).splitOn '\n' = s.splitOn '\n' ++ [[]] := by
    rw [List.splitOn_append_cons_self]; rfl
  rw [lines, lines, hs, List.splitOn_append_cons_self,
    linesOfPieces_append _ (List.splitOn_ne_nil _ _), linesOfPieces_append _ (by simp)]
  simp [linesOfPieces, lines]

end BnfSentences.Text
