/-!
# Texts

A text is a list of characters. `cutFirst` cuts at the first occurrence of a
separator and `words` at every blank run; `spaced` sets two texts side by side.
-/

namespace BnfSentences

abbrev Text := List Char

/-- The octets of a file or of an input stream, in order. -/
abbrev Bytes := List UInt8

namespace Text

/-- The text before and the text after the first place where the characters of
`sep` stand in a row. -/
def cutFirst (sep : Text) : Text → Option (Text × Text)
  | [] => if sep.isEmpty then some ([], []) else none
  | c :: s =>
    if sep.isPrefixOf (c :: s) then some ([], (c :: s).drop sep.length)
    else (cutFirst sep s).map fun (before, after) => (c :: before, after)

/-- Space and tab are the two characters that stand between words. -/
def isGap (c : Char) : Bool :=
  c == ' ' || c == '\t'

/-- The maximal runs of characters other than space and tab. -/
def words (s : Text) : List Text :=
  (s.splitOnP isGap).filter (!·.isEmpty)

/-- Two texts with one space between them; an empty text takes no space. -/
def spaced (s t : Text) : Text :=
  if s.isEmpty then t else if t.isEmpty then s else s ++ ' ' :: t

/-! ### Cutting loses nothing -/

theorem eq_of_cutFirst {sep s before after : Text}
    (h : cutFirst sep s = some (before, after)) : s = before ++ sep ++ after := by
  induction s generalizing before after with
  | nil =>
    cases sep with
    | nil => simp_all [cutFirst]
    | cons x xs => simp [cutFirst] at h
  | cons c s ih =>
    unfold cutFirst at h
    split at h
    · next hp =>
      obtain ⟨rest, hrest⟩ := List.isPrefixOf_iff_prefix.1 hp
      simp only [Option.some.injEq, Prod.mk.injEq] at h
      rw [← h.1, ← h.2, ← hrest]
      simp
    · obtain ⟨⟨b, a⟩, hcut, hba⟩ := Option.map_eq_some_iff.1 h
      simp only [Prod.mk.injEq] at hba
      rw [← hba.1, ← hba.2, ih hcut]
      simp

/-! ### Spacing is a monoid -/

@[simp] theorem nil_spaced (t : Text) : spaced [] t = t := by
  simp [spaced]

@[simp] theorem spaced_nil (s : Text) : spaced s [] = s := by
  cases s <;> simp [spaced]

theorem spaced_assoc (s t u : Text) : spaced (spaced s t) u = spaced s (spaced t u) := by
  cases s <;> cases t <;> cases u <;> simp [spaced]

@[simp] theorem spaced_eq_nil {s t : Text} : spaced s t = [] ↔ s = [] ∧ t = [] := by
  cases s <;> cases t <;> simp [spaced]

end Text

end BnfSentences
