import BnfSentences.Grammar.Basic

/-!
# Well-formed grammars

What every grammar that was built from declarations keeps: texts that cannot be
told apart from separators and blanks around them never get into its table.
-/

namespace BnfSentences

namespace Production

/-- The tokens are not empty and have no space, tab or bar in them, and there is
no white space at the two ends of the alternative. -/
structure WellFormed (p : Production) : Prop where
  token_ne_nil : ∀ t ∈ p.tokens, t ≠ []
  token_no_gap : ∀ t ∈ p.tokens, ∀ c ∈ t, ¬ Text.isGap c
  token_no_bar : ∀ t ∈ p.tokens, Rule.bar ∉ t
  first_not_white : ∀ t ∈ p.tokens.head?, ∀ c ∈ t.head?, ¬ Text.isWhite c
  last_not_white : ∀ t ∈ p.tokens.getLast?, ∀ c ∈ t.getLast?, ¬ Text.isWhite c

end Production

namespace Rule

/-- The name is not empty, is trimmed and has no separator in it, and there are
alternatives, all of them well-formed. -/
structure WellFormed (r : Rule) : Prop where
  name_ne_nil : r.name ≠ []
  name_trimmed : Text.IsTrimmed r.name
  name_no_separator : ¬ separator <:+: r.name
  alternatives_ne_nil : r.alternatives ≠ []
  alternative : ∀ p ∈ r.alternatives, p.WellFormed

end Rule

namespace Grammar

def Sorted (table : List Rule) : Prop :=
  table.Pairwise fun q r => Text.precedes q.name r.name

structure WellFormed (g : Grammar) : Prop where
  rules_ne_nil : g.rules ≠ []
  sorted : Sorted g.rules
  rule : ∀ r ∈ g.rules, r.WellFormed

end Grammar

end BnfSentences
