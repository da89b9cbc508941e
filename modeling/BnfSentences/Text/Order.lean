import BnfSentences.Text.Basic

/-!
# The order of texts

Texts are ordered by their code points from the left, a text before those that
it starts. `precedes` is a strict total order, and `sort` puts texts into it.
-/

namespace BnfSentences.Text

def precedes : Text → Text → Bool
  | _, [] => false
  | [], _ :: _ => true
  | a :: s, b :: t => a.toNat < b.toNat || (a == b && precedes s t)

/-- Texts in order; equal ones stay. -/
def sort (ts : List Text) : List Text :=
  ts.mergeSort fun s t => !precedes t s

/-! ### A strict total order -/

theorem precedes_irrefl (s : Text) : precedes s s = false := by
  induction s with
  | nil => rfl
  | cons c s ih => simp [precedes, ih]

theorem precedes_trans {s t u : Text} (hst : precedes s t) (htu : precedes t u) :
    precedes s u := by
  induction s generalizing t u with
  | nil => cases t <;> cases u <;> simp_all [precedes]
  | cons a s ih =>
    cases t with
    | nil => simp [precedes] at hst
    | cons b t =>
      cases u with
      | nil => simp [precedes] at htu
      | cons c u =>
        simp only [precedes, Bool.or_eq_true, decide_eq_true_eq, Bool.and_eq_true,
          beq_iff_eq] at hst htu ⊢
        rcases hst with hab | ⟨rfl, hst⟩ <;> rcases htu with hbc | ⟨rfl, htu⟩
        · exact .inl (by omega)
        · exact .inl hab
        · exact .inl hbc
        · exact .inr ⟨rfl, ih hst htu⟩

theorem precedes_total {s t : Text} (h : s ≠ t) : precedes s t ∨ precedes t s := by
  induction s generalizing t with
  | nil => cases t <;> simp_all [precedes]
  | cons a s ih =>
    cases t with
    | nil => simp [precedes]
    | cons b t =>
      simp only [precedes, Bool.or_eq_true, decide_eq_true_eq, Bool.and_eq_true, beq_iff_eq]
      by_cases hab : a = b
      · subst hab
        rcases ih (fun hst => h (by rw [hst])) with hst | hts
        · exact .inl (.inr ⟨rfl, hst⟩)
        · exact .inr (.inr ⟨rfl, hts⟩)
      · have hne : a.toNat ≠ b.toNat := fun hn => hab (Char.toNat_inj.1 hn)
        rcases Nat.lt_or_gt_of_ne hne with hlt | hgt
        · exact .inl (.inl hlt)
        · exact .inr (.inl hgt)

end BnfSentences.Text
