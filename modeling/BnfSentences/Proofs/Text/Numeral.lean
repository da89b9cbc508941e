import BnfSentences.Text.Numeral

/-!
# Numerals that are read

`readCount_eq_some_iff` says which texts a user can type for a count. A numeral that is
printed has no zero in front: `head?_print`.
-/

namespace BnfSentences.Numeral

/-- A text that stands for a count: ASCII digits of a number that fits into 64 bits,
perhaps with a plus sign before them. -/
def Denotes (answer : Text) (n : Nat) : Prop :=
  ∃ digits, (answer = digits ∨ answer = '+' :: digits) ∧ digits ≠ [] ∧
    (∀ c ∈ digits, c.isDigit) ∧ Nat.ofDigitChars 10 digits 0 = n ∧ n < UInt64.size

theorem head?_print {n : Nat} (h : 0 < n) : (print n).head? ≠ some '0' := by
  induction n using Nat.strongRecOn with
  | ind n ih =>
    by_cases hn : n < 10
    · have hall : ∀ d < 10, 0 < d → (Nat.toDigits 10 d).head? ≠ some '0' := by decide
      exact hall n hn h
    · have hquotient := ih (n / 10) (by omega) (by omega)
      obtain ⟨c, s, hs⟩ := List.exists_cons_of_ne_nil (print_ne_nil (n / 10))
      rw [hs] at hquotient
      rw [print, Nat.toDigits_of_base_le (by decide) (by omega), ← print, hs]
      exact hquotient

theorem read_eq_some_iff {s : Text} {n : Nat} :
    read s = some n ↔ s ≠ [] ∧ (∀ c ∈ s, c.isDigit) ∧ Nat.ofDigitChars 10 s 0 = n := by
  simp [read, and_assoc]

theorem readWord_eq_some_iff {s : Text} {w : UInt64} :
    readWord s = some w ↔ read s = some w.toNat := by
  unfold readWord
  cases hn : read s with
  | none => simp
  | some n =>
    have hw : w.toNat < UInt64.size := w.toNat_lt_size
    by_cases hlt : n < UInt64.size
    · have hto : (UInt64.ofNat n).toNat = n := UInt64.toNat_ofNat_of_lt hlt
      simp only [Option.bind_some, hlt, if_true, Option.some.injEq]
      constructor
      · intro h
        rw [← h, hto]
      · intro h
        rw [h, UInt64.ofNat_toNat]
    · have hne : n ≠ w.toNat := by omega
      simp [hlt, hne]

theorem readCount_eq_some_iff {answer : Text} {w : UInt64} :
    readCount answer = some w ↔ Denotes answer w.toNat := by
  have hdigits : ∀ s, readWord s = some w ↔
      s ≠ [] ∧ (∀ c ∈ s, c.isDigit) ∧ Nat.ofDigitChars 10 s 0 = w.toNat := by
    intro s
    rw [readWord_eq_some_iff, read_eq_some_iff]
  have hw : w.toNat < UInt64.size := w.toNat_lt_size
  unfold readCount
  split
  · next s =>
    rw [hdigits]
    constructor
    · intro h
      exact ⟨s, .inr rfl, h.1, h.2.1, h.2.2, hw⟩
    · rintro ⟨digits, hanswer | hanswer, hne, hall, hvalue, -⟩
      · have hplus := hall '+' (by simp [← hanswer])
        cases hplus
      · obtain rfl := (List.cons.inj hanswer).2
        exact ⟨hne, hall, hvalue⟩
  · next hplus =>
    rw [hdigits]
    constructor
    · intro h
      exact ⟨answer, .inl rfl, h.1, h.2.1, h.2.2, hw⟩
    · rintro ⟨digits, hanswer | hanswer, hne, hall, hvalue, -⟩
      · rw [hanswer]
        exact ⟨hne, hall, hvalue⟩
      · exact absurd hanswer (hplus digits)

theorem exists_readCount_of_denotes {answer : Text} {n : Nat} (h : Denotes answer n) :
    ∃ w, readCount answer = some w ∧ w.toNat = n := by
  have hlt : n < UInt64.size := by
    obtain ⟨-, -, -, -, -, hlt⟩ := h
    exact hlt
  have hword : (UInt64.ofNat n).toNat = n := UInt64.toNat_ofNat_of_lt hlt
  rw [← hword] at h
  exact ⟨UInt64.ofNat n, readCount_eq_some_iff.2 h, hword⟩

theorem readCount_eq_none_iff {answer : Text} :
    readCount answer = none ↔ ∀ n, ¬ Denotes answer n := by
  rw [Option.eq_none_iff_forall_not_mem]
  constructor
  · intro h n hn
    obtain ⟨w, hw, -⟩ := exists_readCount_of_denotes hn
    exact h w hw
  · intro h w hw
    exact h w.toNat (readCount_eq_some_iff.1 hw)

end BnfSentences.Numeral
