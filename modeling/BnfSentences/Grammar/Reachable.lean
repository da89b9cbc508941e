import BnfSentences.Grammar.Basic

/-!
# Reachable symbols

Which symbols can come up when a symbol is derived. A grammar that is acyclic
below a symbol derives from it whatever alternatives are chosen.
-/

namespace BnfSentences.Grammar

def Mentions (g : Grammar) (s t : Text) : Prop :=
  ∃ alternatives, g.productions? s = some alternatives ∧ ∃ p ∈ alternatives, t ∈ p.tokens

def MentionsFirst (g : Grammar) (s t : Text) : Prop :=
  ∃ p alternatives, g.productions? s = some (p :: alternatives) ∧ t ∈ p.tokens

/-- Going from mention to mention, in one step or more, leads from `s` to `t`. -/
inductive Leads (mentions : Text → Text → Prop) : Text → Text → Prop where
  | one {s t : Text} (h : mentions s t) : Leads mentions s t
  | more {s t u : Text} (h : mentions s t) (rest : Leads mentions t u) : Leads mentions s u

def Reachable (g : Grammar) (s t : Text) : Prop :=
  s = t ∨ Leads g.Mentions s t

def AcyclicBelow (g : Grammar) (s : Text) : Prop :=
  ∀ t, g.Reachable s t → ¬ Leads g.Mentions t t

/-! ### Ways through a grammar -/

theorem Reachable.of_mentions {g : Grammar} {s t u : Text} (h : g.Mentions s t)
    (htu : g.Reachable t u) : g.Reachable s u := by
  rcases htu with rfl | htu
  · exact .inr (.one h)
  · exact .inr (.more h htu)

theorem AcyclicBelow.of_mentions {g : Grammar} {s t : Text} (hs : g.AcyclicBelow s)
    (h : g.Mentions s t) : g.AcyclicBelow t :=
  fun u htu => hs u (.of_mentions h htu)

end BnfSentences.Grammar
