import BnfSentences.Grammar.Reachable
import BnfSentences.Proofs.Grammar.Construction
import Mathlib.Data.Set.Card

/-!
# Ranks

The rank of a symbol is the number of non-terminals at it and behind it. It goes
down with every mention that is on no cycle, and a grammar has no higher rank
than it has rules.
-/

namespace BnfSentences.Grammar

variable {g : Grammar} {mentions : Text → Text → Prop}

/-- The non-terminals that a symbol is or leads to. -/
def below (g : Grammar) (mentions : Text → Text → Prop) (s : Text) : Set Text :=
  {t | t ∈ g.symbols ∧ (s = t ∨ Leads mentions s t)}

noncomputable def rank (g : Grammar) (mentions : Text → Text → Prop) (s : Text) : Nat :=
  (g.below mentions s).ncard

/-! ### Ranks go down -/

theorem below_subset_symbols (s : Text) : g.below mentions s ⊆ g.symbols.toFinset := by
  intro t ht
  simpa using ht.1

theorem finite_below (s : Text) : (g.below mentions s).Finite :=
  g.symbols.toFinset.finite_toSet.subset (below_subset_symbols s)

theorem rank_le (g : Grammar) (mentions : Text → Text → Prop) (s : Text) :
    g.rank mentions s ≤ g.rules.length := by
  have hcard : g.rank mentions s ≤ g.symbols.toFinset.card := by
    rw [← Set.ncard_coe_finset]
    exact Set.ncard_le_ncard (below_subset_symbols s)
  have hlength : g.symbols.toFinset.card ≤ g.symbols.length := List.toFinset_card_le g.symbols
  have hrules : g.symbols.length = g.rules.length := List.length_map Rule.name
  omega

theorem rank_lt_rank {s t : Text} (hs : s ∈ g.symbols) (h : mentions s t)
    (hcycle : ¬ Leads mentions s s) : g.rank mentions t < g.rank mentions s := by
  apply Set.ncard_lt_ncard _ (finite_below s)
  have hsubset : g.below mentions t ⊆ g.below mentions s := by
    rintro u ⟨hu, rfl | htu⟩
    · exact ⟨hu, .inr (.one h)⟩
    · exact ⟨hu, .inr (.more h htu)⟩
  have hself : s ∈ g.below mentions s := ⟨hs, .inl rfl⟩
  have hbehind : s ∉ g.below mentions t := by
    rintro ⟨-, rfl | hts⟩
    · exact hcycle (.one h)
    · exact hcycle (.more h hts)
  exact (Set.ssubset_iff_of_subset hsubset).2 ⟨s, hself, hbehind⟩

/-! ### What is mentioned -/

theorem Mentions.mem_symbols {s t : Text} (h : g.Mentions s t) : s ∈ g.symbols := by
  obtain ⟨alternatives, hdecl, -⟩ := h
  exact mem_symbols_iff.2 ⟨_, hdecl⟩

theorem MentionsFirst.mem_symbols {s t : Text} (h : g.MentionsFirst s t) : s ∈ g.symbols := by
  obtain ⟨p, alternatives, hdecl, -⟩ := h
  exact mem_symbols_iff.2 ⟨_, hdecl⟩

/-! ### Grammars without cycles -/

theorem not_leads_self (level : Text → Nat) (h : ∀ s t, mentions s t → level t < level s)
    (s : Text) : ¬ Leads mentions s s := by
  have hdown : ∀ t, Leads mentions s t → level t < level s := by
    intro t hst
    induction hst with
    | one hst => exact h _ _ hst
    | more hst _ ih => exact Nat.lt_trans ih (h _ _ hst)
  intro hcycle
  exact Nat.lt_irrefl _ (hdown s hcycle)

theorem acyclicBelow_of_level (level : Text → Nat)
    (h : ∀ r ∈ g.rules, ∀ p ∈ r.alternatives, ∀ t ∈ p.tokens, level t < level r.name) (s : Text) :
    g.AcyclicBelow s := by
  intro t _
  apply not_leads_self level
  rintro u v ⟨alternatives, hdecl, p, hp, hv⟩
  obtain ⟨r, hr, rfl, rfl⟩ := exists_rule_of_productions? hdecl
  exact h r hr p hp v hv

theorem not_leads_first_of_level (level : Text → Nat)
    (h : ∀ r ∈ g.rules, ∀ p ∈ r.alternatives.head?, ∀ t ∈ p.tokens, level t < level r.name)
    (s : Text) : ¬ Leads g.MentionsFirst s s := by
  apply not_leads_self level
  rintro u v ⟨p, alternatives, hdecl, hv⟩
  obtain ⟨r, hr, rfl, halt⟩ := exists_rule_of_productions? hdecl
  exact h r hr p (by rw [halt]; rfl) v hv

end BnfSentences.Grammar
