import BnfSentences.Proofs.Grammar.Declarations

/-!
# Which texts declare which rules

A text declares a rule exactly if a separator stands in it with a name in front of the first
one, and the rules that texts declare are the well-formed ones: `parse_accepts`.
-/

namespace BnfSentences.Rule

open Text

/-! ### Texts that are accepted -/

theorem parse_eq_ok_iff_firstOccurrence {d : Text} {r : Rule} :
    parse d = .ok r ↔
      ∃ before after, FirstOccurrence separator d before after ∧ ¬ isBlank before ∧
        ⟨trim before, parseAlternatives after⟩ = r := by
  simp only [parse_eq_ok_iff, cutFirst_eq_some_iff_firstOccurrence separator_ne_nil]

theorem exists_parse_iff_firstOccurrence {d : Text} :
    (∃ r, parse d = .ok r) ↔
      ∃ before after, FirstOccurrence separator d before after ∧ ∃ c ∈ before, ¬ isWhite c := by
  constructor
  · rintro ⟨r, h⟩
    obtain ⟨before, after, hfirst, hname, -⟩ := parse_eq_ok_iff_firstOccurrence.1 h
    refine ⟨before, after, hfirst, ?_⟩
    simpa [isBlank] using hname
  · rintro ⟨before, after, hfirst, c, hc, hwhite⟩
    have hname : ¬ isBlank before := fun hblank => hwhite (List.all_eq_true.1 hblank c hc)
    exact ⟨_, parse_eq_ok_iff_firstOccurrence.2 ⟨before, after, hfirst, hname, rfl⟩⟩

theorem length_alternatives_of_parse {d : Text} {r : Rule} (h : parse d = .ok r)
    {before after : Text} (hfirst : FirstOccurrence separator d before after) :
    r.alternatives.length = after.count bar + 1 := by
  obtain ⟨left, right, hcut, -, rfl⟩ := parse_eq_ok_iff.1 h
  have hcut' := (cutFirst_eq_some_iff_firstOccurrence separator_ne_nil).2 hfirst
  obtain ⟨-, rfl⟩ := Prod.mk.inj (Option.some.inj (hcut.symm.trans hcut'))
  rw [parseAlternatives, List.length_map, length_splitOn]

/-! ### Rules that are declared -/

/-- A text declares a rule exactly if more than blanks stand before its first separator, with an
alternative more than bars behind. Rules are read back from their own texts. -/
theorem parse_accepts :
    (∀ d, (∃ r, parse d = .ok r) ↔
      ∃ before after, FirstOccurrence separator d before after ∧ ∃ c ∈ before, ¬ isWhite c) ∧
    (∀ d r, parse d = .ok r → ∀ before after, FirstOccurrence separator d before after →
      r.alternatives.length = after.count bar + 1) ∧
    (∀ r : Rule, (∃ d, parse d = .ok r) ↔ r.WellFormed) ∧
    ∀ r : Rule, r.WellFormed → parse r.text = .ok r := by
  refine ⟨?_, ?_, ?_, ?_⟩
  · intro d
    exact exists_parse_iff_firstOccurrence
  · intro d r h before after hfirst
    exact length_alternatives_of_parse h hfirst
  · intro r
    exact exists_parse_iff
  · intro r h
    exact parse_text h

/-- Three colons stand at the first separator, and a second one is a part of a token. -/
theorem parse_accepts_colons :
    FirstOccurrence separator "a:::= b::= |".toList ['a', ':'] " b::= |".toList ∧
      ∃ r : Rule, parse "a:::= b::= |".toList = .ok r ∧
        r = ⟨['a', ':'], [⟨["b::=".toList]⟩, ⟨[]⟩]⟩ ∧ r.alternatives.length = 2 ∧
        r.text = "a: ::= b::= | ".toList ∧ parse r.text = .ok r := by
  have hfirst : FirstOccurrence separator "a:::= b::= |".toList ['a', ':'] " b::= |".toList :=
    (cutFirst_eq_some_iff_firstOccurrence separator_ne_nil).1 rfl
  obtain ⟨haccepts, hlength, himage, hspelled⟩ := parse_accepts
  obtain ⟨r, hr⟩ := (haccepts _).2 ⟨_, _, hfirst, 'a', by decide, by decide⟩
  have hrule : r = ⟨['a', ':'], [⟨["b::=".toList]⟩, ⟨[]⟩]⟩ := (Except.ok.inj hr).symm
  have htwo : r.alternatives.length = 2 := hlength _ r hr _ _ hfirst
  have hread := hspelled r ((himage r).1 ⟨_, hr⟩)
  exact ⟨hfirst, r, hr, hrule, htwo, by rw [hrule]; rfl, hread⟩

end BnfSentences.Rule
