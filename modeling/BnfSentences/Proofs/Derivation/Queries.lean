import BnfSentences.Generator.Basic
import BnfSentences.Proofs.Derivation.Soundness
import BnfSentences.Proofs.Text.Order

/-!
# Queries and derivations

A symbol is a non-terminal for all queries or for none of them, and a derivation replaces it
in the one case and returns it in the other: `queries_agree`.
-/

namespace BnfSentences

universe u

namespace Grammar

variable {g : Grammar} {symbol : Text}

/-! ### Names -/

theorem isSome_rule?_eq (g : Grammar) (symbol : Text) :
    (g.rule? symbol).isSome = decide (symbol ∈ g.symbols) := by
  rw [Bool.eq_iff_iff, decide_eq_true_iff, mem_symbols_iff]
  simp [productions?, Option.isSome_iff_exists]

theorem contains_nil (g : Grammar) : g.contains [] = .error .emptySymbol :=
  rfl

theorem contains_of_ne_nil (h : symbol ≠ []) :
    g.contains symbol = .ok (decide (symbol ∈ g.symbols)) := by
  rw [contains, if_neg (by simpa using h), isSome_rule?_eq]

theorem productions?_eq_none (h : symbol ∉ g.symbols) : g.productions? symbol = none := by
  rw [mem_symbols_iff] at h
  exact Option.eq_none_iff_forall_ne_some.2 fun alternatives hdecl => h ⟨alternatives, hdecl⟩

theorem WellFormed.nil_notMem_symbols (hg : g.WellFormed) : [] ∉ g.symbols := by
  intro h
  obtain ⟨r, hr, hname⟩ := List.mem_map.1 h
  exact (hg.rule r hr).name_ne_nil hname

theorem WellFormed.mem_symbols_iff_contains (hg : g.WellFormed) :
    symbol ∈ g.symbols ↔ g.contains symbol = .ok true := by
  by_cases hsymbol : symbol = []
  · subst hsymbol
    simp [contains_nil, hg.nil_notMem_symbols]
  · rw [contains_of_ne_nil hsymbol]
    simp

theorem mem_symbols_iff_declared {ds : List Text} (h : Grammar.ofDeclarations ds = .ok g) :
    symbol ∈ g.symbols ↔ ∃ d ∈ ds, ∃ r, Rule.parse d = .ok r ∧ r.name = symbol := by
  rw [symbols, List.mem_map]
  constructor
  · rintro ⟨r, hr, hname⟩
    obtain ⟨d, hd, hparse⟩ := (mem_rules_iff h).1 hr
    exact ⟨d, hd, r, hparse, hname⟩
  · rintro ⟨d, hd, r, hparse, hname⟩
    exact ⟨r, (mem_rules_iff h).2 ⟨d, hd, hparse⟩, hname⟩

theorem WellFormed.symbols_pairwise (hg : g.WellFormed) :
    g.symbols.Pairwise fun s t => List.Lex (· < ·) (Utf8.encode s) (Utf8.encode t) := by
  refine List.pairwise_map.2 (hg.sorted.imp ?_)
  intro q r hqr
  exact Text.precedes_iff_lex_encode.1 hqr

/-! ### Derivations -/

variable {σ : Type u} [Source σ]

theorem derive_of_declared (hg : g.WellFormed) (h : symbol ∈ g.symbols) {lim : Limits} {s s' : σ}
    {d : Derivation} (hderive : g.derive lim symbol s = .ok (d, s')) :
    (∃ p es, d.trace = ⟨symbol, p⟩ :: es) ∧ 0 < d.draws ∧ s' = Source.drop d.draws s := by
  obtain ⟨alternatives, hdecl⟩ := mem_symbols_iff.1 h
  obtain ⟨-, hexpand⟩ := derive_eq_ok_iff.1 hderive
  obtain ⟨t, -, -, hfollows⟩ := derive_follows hg hderive
  cases hdepth : lim.depth with
  | zero =>
    rw [hdepth] at hexpand
    cases hexpand
  | succ depth =>
    rw [hdepth] at hexpand
    rcases (expand_eq_some_iff hg).1 hexpand with
      ⟨hterm, -⟩ | ⟨_, p, drawn, s₁, e, -, hpick, -, rfl⟩
    · rw [hdecl] at hterm
      cases hterm
    · have hdrawn := Choice.pos_of_pick hpick
      exact ⟨⟨p, e.trace, rfl⟩, Nat.lt_of_lt_of_le hdrawn (Nat.le_add_right drawn e.draws),
        hfollows.rest⟩

/-- All queries agree on what a symbol is, and list symbols in the order of their octets. Other
texts derive to themselves without a word, and the empty text fails. -/
theorem queries_agree (hg : g.Constructed) :
    (g.symbols.Pairwise fun s t => List.Lex (· < ·) (Utf8.encode s) (Utf8.encode t)) ∧
    (∀ s t : Text, List.Lex (· < ·) (Utf8.encode s) (Utf8.encode t) ↔
      List.Lex (· < ·) (s.map Char.toNat) (t.map Char.toNat)) ∧
    (∀ ds, Grammar.ofDeclarations ds = .ok g → ∀ symbol,
      symbol ∈ g.symbols ↔ ∃ d ∈ ds, ∃ r, Rule.parse d = .ok r ∧ r.name = symbol) ∧
    [] ∉ g.symbols ∧ g.symbols = g.rules.map Rule.name ∧
    (∀ symbol,
      (symbol ∈ g.symbols ↔ ∃ alternatives, g.productions? symbol = some alternatives) ∧
      (symbol ∈ g.symbols ↔ g.contains symbol = .ok true)) ∧
    (∀ symbol ∈ g.symbols, ∀ (lim : Limits) (s s' : σ) (d : Derivation),
      g.derive lim symbol s = .ok (d, s') →
        (∃ p es, d.trace = ⟨symbol, p⟩ :: es) ∧ 0 < d.draws ∧ s' = Source.drop d.draws s) ∧
    (∀ symbol, symbol ≠ [] → symbol ∉ g.symbols →
      g.contains symbol = .ok false ∧
      ∀ (lim : Limits) (s : σ), 0 < lim.depth → g.derive lim symbol s = .ok (⟨symbol, [], 0⟩, s)) ∧
    Error.emptySymbol.isInvalidArgument ∧ g.contains [] = .error .emptySymbol ∧
    ∀ (lim : Limits) (s : σ), g.derive lim [] s = .error .emptySymbol ∧
      Generator.generate lim ⟨g, s⟩ [] = (.error .emptySymbol, ⟨g, s⟩) := by
  have hwf := constructed_iff_wellFormed.1 hg
  refine ⟨hwf.symbols_pairwise, ?_, ?_, hwf.nil_notMem_symbols, rfl, ?_, ?_, ?_, rfl,
    contains_nil g, ?_⟩
  · intro s t
    rw [← Text.precedes_iff_lex_encode, Text.precedes_iff_lex]
  · intro ds hds symbol
    exact mem_symbols_iff_declared hds
  · intro symbol
    exact ⟨mem_symbols_iff, hwf.mem_symbols_iff_contains⟩
  · intro symbol h lim s s' d hderive
    exact derive_of_declared hwf h hderive
  · intro symbol hsymbol h
    refine ⟨by simp [contains_of_ne_nil hsymbol, h], ?_⟩
    intro lim s hdepth
    exact derive_of_undeclared hdepth hsymbol (productions?_eq_none h) s
  · intro lim s
    exact ⟨rfl, rfl⟩

/-- The names have four, three, two and one octets. -/
def widths : Grammar :=
  ⟨[⟨['z'], [⟨[['é'], ['😀']]⟩]⟩, ⟨['é'], [⟨[['～']]⟩]⟩, ⟨['～'], [⟨[['y']]⟩, ⟨[]⟩]⟩,
    ⟨['😀'], [⟨[['x']]⟩]⟩]⟩

theorem queries_agree_widths :
    Grammar.ofDeclarations ["😀 ::= x".toList, "～ ::= y |".toList, "é ::= ～".toList,
      "z ::= é 😀".toList] = .ok widths ∧
    widths.symbols = [['z'], ['é'], ['～'], ['😀']] ∧
    (widths.symbols.map Utf8.encode).Pairwise (List.Lex (· < ·)) ∧
    widths.contains ['～'] = .ok true ∧ widths.contains ['x'] = .ok false ∧
    (∃ (d : Derivation) (s : Tape),
      widths.derive ⟨4, 1⟩ ['～'] (⟨[0x80000000, 7]⟩ : Tape) = .ok (d, s) ∧ d.sentence = [] ∧
        0 < d.draws ∧ s = Source.drop d.draws (⟨[0x80000000, 7]⟩ : Tape)) ∧
    widths.derive ⟨4, 1⟩ ['x'] (⟨[7]⟩ : Tape) = .ok (⟨['x'], [], 0⟩, ⟨[7]⟩) ∧
    widths.derive ⟨4, 1⟩ [] (⟨[7]⟩ : Tape) = .error .emptySymbol := by
  have hbuilt : Grammar.ofDeclarations ["😀 ::= x".toList, "～ ::= y |".toList, "é ::= ～".toList,
      "z ::= é 😀".toList] = .ok widths := rfl
  have hderive : widths.derive ⟨4, 1⟩ ['～'] (⟨[0x80000000, 7]⟩ : Tape) =
      .ok (⟨[], [⟨['～'], ⟨[]⟩⟩], 1⟩, ⟨[7]⟩) := rfl
  obtain ⟨hsorted, -, -, -, -, hqueries, hreplaced, hreturned, -, -, hempty⟩ :=
    queries_agree (σ := Tape) (.ofDeclarations hbuilt)
  have hdeclared : ['～'] ∈ widths.symbols := by decide
  obtain ⟨-, hdraws, hrest⟩ := hreplaced _ hdeclared _ _ _ _ hderive
  obtain ⟨hfalse, hverbatim⟩ := hreturned ['x'] (by decide) (by decide)
  exact ⟨hbuilt, rfl, List.pairwise_map.2 hsorted, (hqueries _).2.1 hdeclared, hfalse,
    ⟨_, _, hderive, rfl, hdraws, hrest⟩, hverbatim _ _ (by decide), (hempty _ _).1⟩

end Grammar

end BnfSentences
