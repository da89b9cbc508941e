import BnfSentences.Source.Basic

/-!
# Tapes

A tape gives the words that were written on it, and zeros after the last one.
-/

namespace BnfSentences

structure Tape where
  words : List UInt32

instance : Source Tape where
  next
    | ⟨[]⟩ => (0, ⟨[]⟩)
    | ⟨w :: ws⟩ => (w, ⟨ws⟩)

namespace Tape

theorem take_append (ws vs : List UInt32) :
    Source.take ws.length (⟨ws ++ vs⟩ : Tape) = ws ∧
      Source.drop ws.length (⟨ws ++ vs⟩ : Tape) = ⟨vs⟩ := by
  induction ws with
  | nil => exact ⟨rfl, rfl⟩
  | cons w ws ih => exact ⟨congrArg (w :: ·) ih.1, ih.2⟩

end Tape

end BnfSentences
