import BnfSentences.Proofs.Text.Utf8
import BnfSentences.Text.Order
import Mathlib.Data.List.Lex

/-!
# The order of texts in octets

Texts are ordered by code points as their encodings are by octets: `precedes_iff_lex_encode`.
A longer encoding starts with a greater octet, and one of the same length has the digits of
the greater number.
-/

namespace BnfSentences.Text

/-! ### Numbers -/

theorem lex_map_iff {α β : Type} {f : α → β} (hf : ∀ {a b}, f a = f b → a = b)
    {r : β → β → Prop} {s t : List α} :
    List.Lex r (s.map f) (t.map f) ↔ List.Lex (fun a b => r (f a) (f b)) s t := by
  induction s generalizing t with
  | nil => cases t <;> simp
  | cons a s ih =>
    cases t with
    | nil => simp
    | cons b t =>
      rw [List.map_cons, List.map_cons, List.cons_lex_cons_iff, List.cons_lex_cons_iff, ih]
      have hab : f a = f b ↔ a = b := ⟨hf, congrArg f⟩
      rw [hab]

theorem precedes_iff_lex {s t : Text} :
    precedes s t ↔ List.Lex (· < ·) (s.map Char.toNat) (t.map Char.toNat) := by
  induction s generalizing t with
  | nil => cases t <;> simp [precedes]
  | cons a s ih =>
    cases t with
    | nil => simp [precedes]
    | cons b t =>
      rw [List.map_cons, List.map_cons, List.cons_lex_cons_iff, ← ih, Char.toNat_inj]
      simp [precedes]

theorem lex_octets_iff {bs cs : Bytes} :
    List.Lex (· < ·) bs cs ↔ List.Lex (· < ·) (bs.map UInt8.toNat) (cs.map UInt8.toNat) := by
  rw [lex_map_iff UInt8.toNat_inj.1]
  rfl

/-! ### Characters -/

/-- The octets of the character with number `n`, as numbers. -/
def octets (n : Nat) : List Nat :=
  if n < 0x80 then [n]
  else if n < 0x800 then [0xC0 + n / 64, 0x80 + n % 64]
  else if n < 0x10000 then [0xE0 + n / 4096, 0x80 + n / 64 % 64, 0x80 + n % 64]
  else [0xF0 + n / 262144, 0x80 + n / 4096 % 64, 0x80 + n / 64 % 64, 0x80 + n % 64]

theorem toNat_lt (c : Char) : c.toNat < 0x110000 := by
  have hvalid : c.toNat < 0xD800 ∨ 0xDFFF < c.toNat ∧ c.toNat < 0x110000 := c.valid
  omega

theorem map_toNat_encodeChar (c : Char) :
    (String.utf8EncodeChar c).map UInt8.toNat = octets c.toNat := by
  have hlt := toNat_lt c
  have hval : c.val.toNat = c.toNat := rfl
  unfold octets
  split
  · rw [String.utf8EncodeChar, if_pos (by omega)]
    simp [hval]
    omega
  split
  · rw [String.utf8EncodeChar, if_neg (by omega), if_pos (by omega)]
    simp [hval]
    omega
  split
  · rw [String.utf8EncodeChar, if_neg (by omega), if_neg (by omega), if_pos (by omega)]
    simp [hval]
    omega
  · rw [String.utf8EncodeChar, if_neg (by omega), if_neg (by omega), if_neg (by omega)]
    simp [hval]
    omega

/-- Octets of a smaller number are less than those of a greater one at the first place where
they differ, whatever follows them. -/
theorem lex_octets_append {m n : Nat} (h : m < n) (hn : n < 0x110000) (s t : List Nat) :
    List.Lex (· < ·) (octets m ++ s) (octets n ++ t) := by
  unfold octets
  repeat' split
  all_goals
    simp only [List.cons_append, List.nil_append, List.cons_lex_cons_iff]
    omega

/-! ### Texts -/

theorem lex_encode_of_precedes {s t : Text} (h : precedes s t) :
    List.Lex (· < ·) (Utf8.encode s) (Utf8.encode t) := by
  induction s generalizing t with
  | nil =>
    cases t with
    | nil => cases h
    | cons c t =>
      obtain ⟨b, tail, hc, -⟩ := Utf8.spells_encodeChar c
      rw [Utf8.encode_cons, hc]
      exact .nil
  | cons a s ih =>
    cases t with
    | nil => cases h
    | cons b t =>
      simp only [precedes, Bool.or_eq_true, decide_eq_true_eq, Bool.and_eq_true, beq_iff_eq] at h
      rw [Utf8.encode_cons, Utf8.encode_cons]
      rcases h with hab | ⟨rfl, hst⟩
      · rw [lex_octets_iff, List.map_append, List.map_append, map_toNat_encodeChar,
          map_toNat_encodeChar]
        exact lex_octets_append hab (toNat_lt b) _ _
      · exact List.Lex.append_left _ (ih hst) _

theorem precedes_iff_lex_encode {s t : Text} :
    precedes s t ↔ List.Lex (· < ·) (Utf8.encode s) (Utf8.encode t) := by
  refine ⟨lex_encode_of_precedes, fun h => ?_⟩
  have hne : s ≠ t := by
    rintro rfl
    exact List.lex_irrefl (fun b => UInt8.lt_irrefl b) _ h
  rcases precedes_total hne with hst | hts
  · exact hst
  · have h' := lex_encode_of_precedes hts
    exact absurd h' (List.lex_asymm UInt8.lt_asymm h)

end BnfSentences.Text
