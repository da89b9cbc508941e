import BnfSentences.Proofs.Derivation.Calls
import BnfSentences.Proofs.Derivation.Traces

/-!
# Spacing of sentences

No leaf below a declared symbol is empty or has a space in it, so the single spaces of a
sentence stand between its leaves and nowhere else: `derive_spacing`.
-/

namespace BnfSentences

universe u

/-! ### Pieces between spaces -/

namespace Text

theorem ne_nil_of_pieces {s : Text} (h : ∀ w ∈ s.splitOn ' ', w ≠ []) : s ≠ [] := by
  rintro rfl
  exact h [] (by simp) rfl

theorem pieces_around_space {before after : Text}
    (h : ∀ w ∈ (before ++ ' ' :: after).splitOn ' ', w ≠ []) :
    (∀ w ∈ before.splitOn ' ', w ≠ []) ∧ ∀ w ∈ after.splitOn ' ', w ≠ [] := by
  rw [List.splitOn_append_cons_self] at h
  exact List.forall_mem_append.1 h

theorem spaces_apart {s : Text} (h : ∀ w ∈ s.splitOn ' ', w ≠ []) :
    s.head? ≠ some ' ' ∧ s.getLast? ≠ some ' ' ∧ ¬ [' ', ' '] <:+: s := by
  refine ⟨?_, ?_, ?_⟩
  · intro hhead
    obtain ⟨after, rfl⟩ := List.head?_eq_some_iff.1 hhead
    exact ne_nil_of_pieces (@pieces_around_space [] after h).1 rfl
  · intro hlast
    obtain ⟨before, rfl⟩ := List.getLast?_eq_some_iff.1 hlast
    exact ne_nil_of_pieces (pieces_around_space h).2 rfl
  · rintro ⟨before, after, rfl⟩
    rw [List.append_assoc] at h
    have hsecond := (pieces_around_space h).2
    exact ne_nil_of_pieces (@pieces_around_space [] after hsecond).1 rfl

end Text

/-! ### Leaves -/

namespace Grammar

variable {g : Grammar}

theorem HasTree.of_mem_leaves {t : Tree} (ht : g.HasTree t) {l : Text} (hl : l ∈ t.leaves) :
    g.productions? l = none ∧ (l = t.root ∨ ∃ s, g.Mentions s l) := by
  induction ht with
  | leaf hterm =>
    rw [Tree.leaves_leaf, List.mem_singleton] at hl
    rw [hl]
    exact ⟨hterm, .inl rfl⟩
  | @node symbol alternatives p _ declared mem tokens _ ih =>
    rw [Tree.leaves_node] at hl
    obtain ⟨c, hc, hl⟩ := List.mem_flatMap.1 hl
    obtain ⟨hterm, hroot | hmentioned⟩ := ih c hc hl
    · refine ⟨hterm, .inr ⟨symbol, alternatives, declared, p, mem, ?_⟩⟩
      rw [hroot]
      exact Tree.root_mem_tokens tokens hc
    · exact ⟨hterm, .inr hmentioned⟩

theorem HasTree.leaf_unbroken (hg : g.WellFormed) {t : Tree} (ht : g.HasTree t)
    (hdecl : g.productions? t.root ≠ none) :
    ∀ l ∈ t.leaves, ∀ x ∈ l, ¬ Text.isGap x ∧ x ≠ Rule.bar := by
  intro l hl
  obtain ⟨hterm, rfl | ⟨s, hmentions⟩⟩ := ht.of_mem_leaves hl
  · exact absurd hterm hdecl
  · exact hg.unbroken_of_mentions hmentions

/-! ### Sentences -/

theorem HasTree.splitOn_sentence (hg : g.WellFormed) {t : Tree} (ht : g.HasTree t)
    (hdecl : g.productions? t.root ≠ none) (hne : t.leaves ≠ []) :
    t.sentence.splitOn ' ' = t.leaves := by
  apply List.splitOn_intercalate
  · intro l hl hspace
    exact (ht.leaf_unbroken hg hdecl l hl ' ' hspace).1 rfl
  · exact hne

theorem HasTree.spaces_apart_sentence (hg : g.WellFormed) {t : Tree} (ht : g.HasTree t)
    (hdecl : g.productions? t.root ≠ none) (hroot : t.root ≠ []) :
    t.sentence.head? ≠ some ' ' ∧ t.sentence.getLast? ≠ some ' ' ∧
      ¬ [' ', ' '] <:+: t.sentence := by
  by_cases hne : t.leaves = []
  · rw [Tree.sentence, hne, List.intercalate_nil]
    simp
  · apply Text.spaces_apart
    rw [ht.splitOn_sentence hg hdecl hne]
    exact ht.leaf_ne_nil hg hroot

variable {σ : Type u} [Source σ]

/-- The one tree with the replacements of a derivation has the pieces of the sentence between its
spaces for leaves, or none if the sentence is empty. -/
theorem derive_spacing (hg : g.Constructed) {lim : Limits} {symbol : Text}
    (hdecl : g.productions? symbol ≠ none) {s s' : σ} {d : Derivation}
    (h : g.derive lim symbol s = .ok (d, s')) :
    ∃ t : Tree, g.HasTree t ∧ t.root = symbol ∧ t.trace = d.trace ∧
      (∀ u : Tree, g.HasTree u → u.root = symbol → u.trace = d.trace → u = t) ∧
      (t.leaves = [] ∧ d.sentence = [] ∨ t.leaves ≠ [] ∧ d.sentence.splitOn ' ' = t.leaves) ∧
      (∀ l ∈ t.leaves, l ≠ [] ∧ ' ' ∉ l ∧ '\t' ∉ l ∧ '|' ∉ l ∧ g.productions? l = none) ∧
      d.sentence.head? ≠ some ' ' ∧ d.sentence.getLast? ≠ some ' ' ∧
      ¬ [' ', ' '] <:+: d.sentence := by
  have hwf := constructed_iff_wellFormed.1 hg
  obtain ⟨hsymbol, -⟩ := derive_eq_ok_iff.1 h
  obtain ⟨t, ht, rfl, hfollows⟩ := derive_follows hwf h
  have hsentence : d.sentence = t.sentence := hfollows.sentence
  rw [hsentence]
  refine ⟨t, ht, rfl, hfollows.trace.symm, ?_, ?_, ?_, ht.spaces_apart_sentence hwf hdecl hsymbol⟩
  · intro u hu hroot htrace
    exact hu.eq_of_trace ht hroot (htrace.trans hfollows.trace)
  · by_cases hne : t.leaves = []
    · left
      refine ⟨hne, ?_⟩
      rw [Tree.sentence, hne, List.intercalate_nil]
    · right
      exact ⟨hne, ht.splitOn_sentence hwf hdecl hne⟩
  · intro l hl
    have hunbroken := ht.leaf_unbroken hwf hdecl l hl
    refine ⟨ht.leaf_ne_nil hwf hsymbol l hl, ?_, ?_, ?_, (ht.of_mem_leaves hl).1⟩
    · intro hspace
      exact (hunbroken ' ' hspace).1 rfl
    · intro htab
      exact (hunbroken '\t' htab).1 rfl
    · intro hbar
      exact (hunbroken '|' hbar).2 rfl

/-- The grammar `n ::=`, `s ::= n x n y n`: nothing derives from `n`. -/
def padded : Grammar :=
  ⟨[⟨['n'], [⟨[]⟩]⟩, ⟨['s'], [⟨[['n'], ['x'], ['n'], ['y'], ['n']]⟩]⟩]⟩

theorem derive_spacing_padded :
    Grammar.ofDeclarations ["n ::=".toList, "s ::= n x n y n".toList] = .ok padded ∧
      ∃ t : Tree, padded.HasTree t ∧ t.root = ['s'] ∧ t.leaves = [['x'], ['y']] ∧
        padded.derive ⟨3, 1⟩ ['s'] (⟨[]⟩ : Tape) =
          .ok (⟨['x', ' ', 'y'], t.trace, 4⟩, ⟨[]⟩) := by
  have hbuilt : Grammar.ofDeclarations ["n ::=".toList, "s ::= n x n y n".toList] = .ok padded :=
    rfl
  have hderive : padded.derive ⟨3, 1⟩ ['s'] (⟨[]⟩ : Tape) =
      .ok (⟨['x', ' ', 'y'], [⟨['s'], ⟨[['n'], ['x'], ['n'], ['y'], ['n']]⟩⟩,
        ⟨['n'], ⟨[]⟩⟩, ⟨['n'], ⟨[]⟩⟩, ⟨['n'], ⟨[]⟩⟩], 4⟩, ⟨[]⟩) := rfl
  obtain ⟨t, ht, hroot, htrace, -, hpieces, -⟩ :=
    derive_spacing (.ofDeclarations hbuilt) (by decide) hderive
  refine ⟨hbuilt, t, ht, hroot, ?_, ?_⟩
  · rcases hpieces with ⟨-, hnil⟩ | ⟨-, hsplit⟩
    · cases hnil
    · exact hsplit.symm
  · rw [htrace]
    exact hderive

end Grammar

end BnfSentences
