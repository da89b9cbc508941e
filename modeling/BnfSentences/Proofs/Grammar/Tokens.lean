import BnfSentences.Proofs.Grammar.Declarations
import BnfSentences.Proofs.Text.Runs

/-!
# The tokens of an alternative

The tokens are the maximal runs of characters other than space and tab in the trimmed text of
an alternative: nothing is lost but the gaps, and nothing is put in. `ofText_tokens` also says
that splitting at the gaps leaves no empty piece, since trimming takes the gaps at the ends.
-/

namespace BnfSentences.Production

open Text

theorem inRow_splitRuns_trim {s : Text} (h : ¬ isBlank s) : InRow (trim s) (splitRuns (trim s)) :=
  inRow_splitRuns (mt trim_eq_nil.1 h) (fun c hc => not_isGap_of_not_isWhite (head?_trim s c hc))
    fun c hc => not_isGap_of_not_isWhite (getLast?_trim s c hc)

theorem tokens_eq_splitRuns {s : Text} (h : ¬ isBlank s) : (ofText s).tokens = splitRuns (trim s) :=
  (inRow_splitRuns_trim h).words_eq

theorem tokens_ofText_of_isBlank {s : Text} (h : isBlank s) : (ofText s).tokens = [] := by
  rw [ofText, trim_eq_nil.2 h, words_nil]

theorem inRow_tokens (s : Text) : InRow (trim s) (ofText s).tokens := by
  by_cases h : isBlank s
  · rw [tokens_ofText_of_isBlank h, trim_eq_nil.2 h]
    exact .nothing
  · rw [tokens_eq_splitRuns h]
    exact inRow_splitRuns_trim h

theorem tokens_eq_nil_iff {s : Text} : (ofText s).tokens = [] ↔ isBlank s := by
  by_cases h : isBlank s
  · simp [tokens_ofText_of_isBlank h, h]
  · have hne : (ofText s).tokens ≠ [] := by
      rw [tokens_eq_splitRuns h]
      exact splitRuns_ne_nil _
    simp [hne, h]

theorem ofText_text_ofText (s : Text) : ofText (ofText s).text = ofText s :=
  ofText_intercalate (fun _ ht => ⟨(mem_words ht).1, (mem_words ht).2.2⟩) (first_not_white_ofText s)
    (last_not_white_ofText s)

/-- The tokens are the maximal runs of the trimmed text, and the only words that make it up with
gaps between them. Only blank texts have none, and tokens are read back. -/
theorem ofText_tokens (s : Text) :
    (∀ ws, InRow (trim s) ws ↔ ws = (ofText s).tokens) ∧
    (∀ before run after, MaximalRun (trim s) before run after →
      ∃ ws vs, (ofText s).tokens = ws ++ run :: vs ∧
        ws.flatten = before.filter (!isGap ·) ∧ vs.flatten = after.filter (!isGap ·)) ∧
    (∀ ws run vs, (ofText s).tokens = ws ++ run :: vs →
      ∃ before after, MaximalRun (trim s) before run after ∧
        ws.flatten = before.filter (!isGap ·) ∧ vs.flatten = after.filter (!isGap ·)) ∧
    (∀ w ∈ (ofText s).tokens, IsWord w) ∧
    (ofText s).tokens.flatten = (trim s).filter (!isGap ·) ∧
    ((ofText s).tokens = [] ↔ ∀ c ∈ s, isWhite c) ∧
    ((ofText s).tokens ≠ [] → (ofText s).tokens = splitRuns (trim s)) ∧
    ofText (ofText s).text = ofText s := by
  refine ⟨?_, ?_, ?_, ?_, ?_, ?_, ?_, ?_⟩
  · intro ws
    constructor
    · intro h
      exact h.words_eq.symm
    · rintro rfl
      exact inRow_tokens s
  · intro before run after h
    exact ⟨words before, words after, h.words_eq, flatten_words before, flatten_words after⟩
  · intro ws run vs h
    obtain ⟨before, after, hrun, rfl, rfl⟩ := exists_maximalRun h
    exact ⟨before, after, hrun, flatten_words before, flatten_words after⟩
  · intro w hw
    exact ⟨(mem_words hw).1, (mem_words hw).2.2⟩
  · exact flatten_words (trim s)
  · rw [tokens_eq_nil_iff, isBlank, List.all_eq_true]
  · intro hne
    exact tokens_eq_splitRuns (mt tokens_ofText_of_isBlank hne)
  · exact ofText_text_ofText s

/-- White space that is no gap is a token between two gaps, and it is trimmed at the ends. -/
theorem ofText_tokens_return :
    MaximalRun (trim "\u00A0a \r\t \tb\t\n".toList) "a ".toList ['\r'] "\t \tb".toList ∧
      (∃ ws vs, (ofText "\u00A0a \r\t \tb\t\n".toList).tokens = ws ++ ['\r'] :: vs ∧
        ws.flatten = ['a'] ∧ vs.flatten = ['b']) ∧
      (ofText "\u00A0a \r\t \tb\t\n".toList).tokens ≠ [] ∧
      (ofText "\u00A0a \r\t \tb\t\n".toList).tokens = splitRuns "a \r\t \tb".toList := by
  obtain ⟨-, hruns, -, -, -, -, hsplit, -⟩ := ofText_tokens "\u00A0a \r\t \tb\t\n".toList
  have hrun : MaximalRun (trim "\u00A0a \r\t \tb\t\n".toList) "a ".toList ['\r'] "\t \tb".toList :=
    ⟨rfl, ⟨by decide, by simp [isGap]⟩, by simp [isGap], by simp [isGap]⟩
  have hne : (ofText "\u00A0a \r\t \tb\t\n".toList).tokens ≠ [] := by decide
  exact ⟨hrun, hruns _ _ _ hrun, hne, hsplit hne⟩

end BnfSentences.Production
