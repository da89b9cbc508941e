import BnfSentences.Proofs.Derivation.Steps
import BnfSentences.Proofs.Derivation.Trees
import BnfSentences.Proofs.Source.Choice
import BnfSentences.Source.Tape
import Mathlib.Data.List.Forall2

/-!
# Derivations follow trees

Whatever a source chooses, a derivation that returns follows a tree of the
grammar, and the words it draws fall into one block for each replacement:
`derive_follows_tree`.
-/

namespace BnfSentences

universe u

variable {σ : Type u} [Source σ]

namespace Grammar

/-- A block of words by which the alternative of a replacement is chosen. -/
def Chooses (g : Grammar) (e : Expansion) (block : List UInt32) : Prop :=
  ∃ alternatives, g.productions? e.symbol = some alternatives ∧
    ∃ i : Fin alternatives.length, alternatives.get i = e.production ∧ Choice.Selects i block

/-- A derivation with these terminals and replacements that reads one block of
words for each replacement and leaves the source right after them. -/
structure Follows (g : Grammar) (ls : List Text) (es : List Expansion) (d : Derivation)
    (s s' : σ) : Prop where
  sentence : d.sentence = [' '].intercalate ls
  trace : d.trace = es
  rest : s' = Source.drop d.draws s
  blocks : ∃ blocks, Source.take d.draws s = blocks.flatten ∧ List.Forall₂ g.Chooses es blocks

/-! ### Parts of a derivation -/

namespace Follows

variable {g : Grammar}

theorem nothing (s : σ) : g.Follows [] [] .nothing s s :=
  ⟨rfl, rfl, rfl, [], rfl, .nil⟩

theorem terminal (symbol : Text) (s : σ) : g.Follows [symbol] [] (.terminal symbol) s s :=
  ⟨List.intercalate_singleton.symm, rfl, rfl, [], rfl, .nil⟩

theorem followedBy {ls ks : List Text} {es fs : List Expansion} {d₁ d₂ : Derivation} {s s₁ s₂ : σ}
    (h₁ : g.Follows ls es d₁ s s₁) (h₂ : g.Follows ks fs d₂ s₁ s₂)
    (hls : ∀ l ∈ ls, l ≠ []) (hks : ∀ k ∈ ks, k ≠ []) :
    g.Follows (ls ++ ks) (es ++ fs) (d₁.followedBy d₂) s s₂ := by
  obtain ⟨bs, hbs, hes⟩ := h₁.blocks
  obtain ⟨cs, hcs, hfs⟩ := h₂.blocks
  refine ⟨?_, ?_, ?_, bs ++ cs, ?_, List.rel_append hes hfs⟩
  · rw [Derivation.followedBy, h₁.sentence, h₂.sentence, Text.spaced_intercalate hls hks]
  · rw [Derivation.followedBy, h₁.trace, h₂.trace]
  · rw [Derivation.followedBy, Source.drop_add, ← h₁.rest]
    exact h₂.rest
  · rw [Derivation.followedBy, Source.take_add, ← h₁.rest, hbs, hcs, List.flatten_append]

theorem under {ls : List Text} {es : List Expansion} {d : Derivation} {s s₁ s₂ : σ}
    {symbol : Text} {p : Production} {drawn : Nat}
    (hchosen : g.Chooses ⟨symbol, p⟩ (Source.take drawn s)) (hrest : s₁ = Source.drop drawn s)
    (h : g.Follows ls es d s₁ s₂) :
    g.Follows ls (⟨symbol, p⟩ :: es) (d.under symbol p drawn) s s₂ := by
  obtain ⟨bs, hbs, hes⟩ := h.blocks
  refine ⟨h.sentence, ?_, ?_, Source.take drawn s :: bs, ?_, .cons hchosen hes⟩
  · rw [Derivation.under, h.trace]
  · rw [Derivation.under, Source.drop_add, ← hrest]
    exact h.rest
  · rw [Derivation.under, Source.take_add, ← hrest, hbs, List.flatten_cons]

end Follows

/-! ### Whole derivations -/

theorem ofTokens_follows {g : Grammar} (hg : g.WellFormed)
    {expand : Text → σ → Option (Derivation × σ)}
    (hexpand : ∀ t s d s', t ≠ [] → expand t s = some (d, s') →
      ∃ c : Tree, g.HasTree c ∧ c.root = t ∧ g.Follows c.leaves c.trace d s s')
    {ts : List Text} (hts : ∀ t ∈ ts, t ≠ []) {s s' : σ} {d : Derivation}
    (h : Derivation.ofTokens expand ts s = some (d, s')) :
    ∃ cs : List Tree, (∀ c ∈ cs, g.HasTree c) ∧ cs.map Tree.root = ts ∧
      g.Follows (cs.flatMap Tree.leaves) (cs.flatMap Tree.trace) d s s' := by
  induction ts generalizing s d with
  | nil =>
    obtain ⟨rfl, rfl⟩ := Derivation.ofTokens_nil_eq_some_iff.1 h
    exact ⟨[], by simp, rfl, .nothing s'⟩
  | cons t ts ih =>
    obtain ⟨d₁, s₁, d₂, h₁, h₂, rfl⟩ := Derivation.ofTokens_cons_eq_some_iff.1 h
    have ht := hts t List.mem_cons_self
    have htail : ∀ u ∈ ts, u ≠ [] := fun u hu => hts u (List.mem_cons_of_mem t hu)
    obtain ⟨c, hc, rfl, hfirst⟩ := hexpand t s d₁ s₁ ht h₁
    obtain ⟨cs, hcs, rfl, hothers⟩ := ih htail h₂
    refine ⟨c :: cs, List.forall_mem_cons.2 ⟨hc, hcs⟩, rfl, ?_⟩
    refine hfirst.followedBy hothers (hc.leaf_ne_nil hg ht) fun l hl => ?_
    obtain ⟨k, hk, hl⟩ := List.mem_flatMap.1 hl
    exact (hcs k hk).leaf_ne_nil hg (htail _ (List.mem_map_of_mem hk)) l hl

theorem expand_follows {g : Grammar} (hg : g.WellFormed) {tries depth : Nat} {symbol : Text}
    (hsymbol : symbol ≠ []) {s s' : σ} {d : Derivation}
    (h : g.expand tries depth symbol s = some (d, s')) :
    ∃ t : Tree, g.HasTree t ∧ t.root = symbol ∧ g.Follows t.leaves t.trace d s s' := by
  induction depth generalizing symbol s s' d with
  | zero => cases h
  | succ depth ih =>
    rcases (expand_eq_some_iff hg).1 h with
      ⟨hterm, rfl, rfl⟩ | ⟨alternatives, p, drawn, s₁, e, hdecl, hpick, htokens, rfl⟩
    · exact ⟨.leaf symbol, .leaf hterm, rfl, by simpa using Follows.terminal symbol s'⟩
    · obtain ⟨i, hi, -, hselects, hrest⟩ := Choice.pick_eq_some_iff.1 hpick
      have hp : p ∈ alternatives := hi ▸ List.get_mem alternatives i
      obtain ⟨cs, hcs, hroots, hfollows⟩ := ofTokens_follows hg
        (fun t s d s' ht => ih ht) (hg.production hdecl hp).token_ne_nil htokens
      refine ⟨.node symbol p cs, .node hdecl hp hroots hcs, rfl, ?_⟩
      rw [Tree.leaves_node, Tree.trace_node]
      exact hfollows.under ⟨alternatives, hdecl, i, hi, hselects⟩ hrest

theorem derive_follows {g : Grammar} (hg : g.WellFormed) {lim : Limits} {symbol : Text}
    {s s' : σ} {d : Derivation} (h : g.derive lim symbol s = .ok (d, s')) :
    ∃ t : Tree, g.HasTree t ∧ t.root = symbol ∧ g.Follows t.leaves t.trace d s s' := by
  obtain ⟨hsymbol, hexpand⟩ := derive_eq_ok_iff.1 h
  exact expand_follows hg hsymbol hexpand

/-- A derivation has a tree: its leaves make the sentence, its replacements are the trace, and
each of them reads rejected words and then the one that chooses. -/
theorem derive_follows_tree {g : Grammar} (hg : g.Constructed) {lim : Limits} {symbol : Text}
    {s s' : σ} {d : Derivation} (h : g.derive lim symbol s = .ok (d, s')) :
    ∃ t : Tree, g.HasTree t ∧ t.root = symbol ∧ d.sentence = t.sentence ∧ d.trace = t.trace ∧
      s' = Source.drop d.draws s ∧
      ∃ blocks, Source.take d.draws s = blocks.flatten ∧
        List.Forall₂ g.Chooses t.trace blocks := by
  obtain ⟨t, ht, hroot, hfollows⟩ := derive_follows (constructed_iff_wellFormed.1 hg) h
  exact ⟨t, ht, hroot, hfollows.sentence, hfollows.trace, hfollows.rest, hfollows.blocks⟩

/-- The second replacement is chosen by the third word because the second one is rejected. -/
theorem derive_follows_tree_nested :
    ∃ t : Tree, nested.HasTree t ∧ t.root = ['s'] ∧ t.sentence = ['x', ' ', 'y'] ∧
      t.trace = [⟨['s'], ⟨[['x'], ['s'], ['y']]⟩⟩, ⟨['s'], ⟨[]⟩⟩] ∧
      ∃ blocks, [0, 0x40000000, 0x80000000] = blocks.flatten ∧
        List.Forall₂ nested.Chooses t.trace blocks := by
  have hderive : nested.derive ⟨2, 2⟩ ['s'] (⟨[0, 0x40000000, 0x80000000]⟩ : Tape) =
      .ok (⟨['x', ' ', 'y'], [⟨['s'], ⟨[['x'], ['s'], ['y']]⟩⟩, ⟨['s'], ⟨[]⟩⟩], 3⟩, ⟨[]⟩) := rfl
  obtain ⟨t, ht, hroot, hsentence, htrace, -, hblocks⟩ :=
    derive_follows_tree constructed_nested hderive
  exact ⟨t, ht, hroot, hsentence.symm, htrace.symm, hblocks⟩

end Grammar

end BnfSentences
