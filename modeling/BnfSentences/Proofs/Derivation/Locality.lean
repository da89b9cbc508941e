import BnfSentences.Generator.Basic
import BnfSentences.Grammar.Reachable
import BnfSentences.Proofs.Derivation.Steps
import BnfSentences.Proofs.Source.Choice
import BnfSentences.Source.Tape

/-!
# What a derivation reads of its grammar

A derivation looks up the symbol that it starts from and tokens that this leads to. Grammars
that agree on those derive the same from every source, whatever else they declare:
`derive_of_agreeBelow`.
-/

namespace BnfSentences

universe u

variable {σ : Type u}

theorem Derivation.ofTokens_congr {expand expand' : Text → σ → Option (Derivation × σ)}
    {ts : List Text} (h : ∀ t ∈ ts, ∀ s, expand t s = expand' t s) (s : σ) :
    ofTokens expand ts s = ofTokens expand' ts s := by
  induction ts generalizing s with
  | nil => rfl
  | cons t ts ih =>
    obtain ⟨hfirst, hothers⟩ := List.forall_mem_cons.1 h
    rw [ofTokens, ofTokens, hfirst s]
    apply Option.bind_congr
    rintro ⟨d, s₁⟩ -
    dsimp only
    rw [ih hothers s₁]

namespace Grammar

variable {g h : Grammar} {symbol : Text}

/-- Two grammars have the same alternatives for a symbol and for all that it leads to. -/
def AgreeBelow (g h : Grammar) (symbol : Text) : Prop :=
  ∀ t, g.Reachable symbol t → g.productions? t = h.productions? t

theorem AgreeBelow.of_mentions {t : Text} (hagree : g.AgreeBelow h symbol)
    (hmentions : g.Mentions symbol t) : g.AgreeBelow h t :=
  fun u hu => hagree u (.of_mentions hmentions hu)

/-! ### Grammars of declarations -/

/-- Lists of declarations agree below a symbol that leads to no name of only one of them. -/
theorem agreeBelow_of_declarations {ds ds' : List Text} (hg : ofDeclarations ds = .ok g)
    (hh : ofDeclarations ds' = .ok h)
    (hothers : ∀ d r, Rule.parse d = .ok r → (d ∈ ds ↔ d ∉ ds') → ¬ g.Reachable symbol r.name) :
    g.AgreeBelow h symbol := by
  intro t ht
  have hrules : ∀ alternatives, ⟨t, alternatives⟩ ∈ g.rules ↔ ⟨t, alternatives⟩ ∈ h.rules := by
    intro alternatives
    constructor
    · intro hr
      obtain ⟨d, hd, hparse⟩ := (mem_rules_iff hg).1 hr
      by_cases hd' : d ∈ ds'
      · exact (mem_rules_iff hh).2 ⟨d, hd', hparse⟩
      · exact absurd ht (hothers d _ hparse (iff_of_true hd hd'))
    · intro hr
      obtain ⟨d, hd', hparse⟩ := (mem_rules_iff hh).1 hr
      by_cases hd : d ∈ ds
      · exact (mem_rules_iff hg).2 ⟨d, hd, hparse⟩
      · exact absurd ht (hothers d _ hparse (iff_of_false hd (not_not_intro hd')))
  apply Option.ext
  intro alternatives
  rw [(wellFormed_of_ofDeclarations hg).productions?_eq_some_iff,
    (wellFormed_of_ofDeclarations hh).productions?_eq_some_iff, hrules]

/-! ### One derivation -/

variable [Source σ]

theorem expand_of_agreeBelow (hagree : g.AgreeBelow h symbol) (tries depth : Nat) (s : σ) :
    g.expand tries depth symbol s = h.expand tries depth symbol s := by
  induction depth generalizing symbol s with
  | zero => rfl
  | succ depth ih =>
    have hself := hagree symbol (.inl rfl)
    rw [expand, expand, ← hself]
    cases hdecl : g.productions? symbol with
    | none => rfl
    | some alternatives =>
      cases alternatives with
      | nil => rfl
      | cons q qs =>
        apply Option.bind_congr
        rintro ⟨p, drawn, s₁⟩ hpick
        obtain ⟨i, hi, -⟩ := Choice.pick_eq_some_iff.1 hpick
        have hp : p ∈ q :: qs := hi ▸ List.get_mem _ i
        -- a token of the alternative is mentioned, so the grammars agree below it
        have htokens : ∀ t ∈ p.tokens, ∀ s : σ,
            g.expand tries depth t s = h.expand tries depth t s := by
          intro t ht
          exact ih (hagree.of_mentions ⟨_, hdecl, p, hp, ht⟩)
        dsimp only
        rw [Derivation.ofTokens_congr htokens s₁]

theorem derive_of_agreeBelow (hagree : g.AgreeBelow h symbol) (lim : Limits) (s : σ) :
    g.derive lim symbol s = h.derive lim symbol s := by
  rw [derive, derive, expand_of_agreeBelow hagree]

theorem deriveMany_of_agreeBelow (hagree : g.AgreeBelow h symbol) (lim : Limits) (n : Nat)
    (s : σ) : g.deriveMany lim symbol n s = h.deriveMany lim symbol n s := by
  induction n generalizing s with
  | zero => rfl
  | succ n ih =>
    rw [deriveMany, deriveMany, derive_of_agreeBelow hagree]
    cases h.derive lim symbol s with
    | error e => rfl
    | ok r =>
      have hothers := ih r.2
      simp only [bind, Except.bind, hothers]

end Grammar

namespace Generator

theorem generateMany_of_agreeBelow [Source σ] {gen gen' : Generator σ} {symbol : Text}
    (hagree : gen.grammar.AgreeBelow gen'.grammar symbol) (hsource : gen.source = gen'.source)
    (lim : Limits) (times : Nat) :
    (gen.generateMany lim symbol times).1 = (gen'.generateMany lim symbol times).1 := by
  rw [generateMany, generateMany, Grammar.deriveMany_of_agreeBelow hagree, hsource]
  cases gen'.grammar.deriveMany lim symbol times gen'.source with
  | error e => rfl
  | ok r => rfl

end Generator

namespace Grammar

/-! ### Symbols that are not reached -/

theorem Reachable.mem_of_closed {g : Grammar} {s t : Text} (h : g.Reachable s t)
    {names : List Text} (hs : s ∈ names)
    (hclosed : ∀ r ∈ g.rules, r.name ∈ names → ∀ p ∈ r.alternatives, ∀ t ∈ p.tokens, t ∈ names) :
    t ∈ names := by
  have hmentions : ∀ u v, u ∈ names → g.Mentions u v → v ∈ names := by
    rintro u v hu ⟨alternatives, hdecl, p, hp, hv⟩
    obtain ⟨r, hr, rfl, rfl⟩ := exists_rule_of_productions? hdecl
    exact hclosed r hr hu p hp v hv
  rcases h with rfl | h
  · exact hs
  · induction h with
    | one h => exact hmentions _ _ hs h
    | more h _ ih => exact ih (hmentions _ _ hs h)

/-- A derivation depends on the alternatives of the symbols that its own one leads to, and on
nothing else that the grammar declares. -/
theorem derive_depends_on_reachable (symbol : Text) :
    (∀ g h : Grammar, g.AgreeBelow h symbol → ∀ (σ : Type u) [Source σ] (lim : Limits) (s : σ),
      g.derive lim symbol s = h.derive lim symbol s) ∧
    ∀ (ds ds' : List Text) (fresh : ChaCha.Key) (c : Config) (gen gen' : Generator ChaCha),
      Generator.ofConfig fresh ds c = .ok gen → Generator.ofConfig fresh ds' c = .ok gen' →
      (∀ d r, Rule.parse d = .ok r → (d ∈ ds ↔ d ∉ ds') →
        ¬ gen.grammar.Reachable symbol r.name) →
      ∀ (lim : Limits) (times : Nat),
        (gen.generateMany lim symbol times).1 = (gen'.generateMany lim symbol times).1 := by
  constructor
  · intro g h hagree σ _ lim s
    exact derive_of_agreeBelow hagree lim s
  · intro ds ds' fresh c gen gen' hgen hgen' hothers lim times
    have hdeclares := Generator.declares_of_ofConfig hgen
    have hdeclares' := Generator.declares_of_ofConfig hgen'
    have hagree := agreeBelow_of_declarations hdeclares hdeclares' hothers
    exact Generator.generateMany_of_agreeBelow hagree
      (Generator.source_eq_of_ofConfig hgen hgen') lim times

/-- The grammar `a ::= y |`, `s ::= a x | b`, `u ::= s`. -/
def surrounded : Grammar :=
  ⟨[⟨['a'], [⟨[['y']]⟩, ⟨[]⟩]⟩, ⟨['s'], [⟨[['a'], ['x']]⟩, ⟨[['b']]⟩]⟩, ⟨['u'], [⟨[['s']]⟩]⟩]⟩

/-- The same with a name in front of the others and with other alternatives for `u`. -/
def resurrounded : Grammar :=
  ⟨[⟨['_'], [⟨[['s']]⟩, ⟨[]⟩]⟩, ⟨['a'], [⟨[['y']]⟩, ⟨[]⟩]⟩, ⟨['s'], [⟨[['a'], ['x']]⟩, ⟨[['b']]⟩]⟩,
    ⟨['u'], [⟨[['v'], ['v']]⟩]⟩]⟩

theorem derive_depends_on_reachable_surrounded :
    ∃ gen gen' : Generator ChaCha,
      Generator.ofConfig (.replicate 8 0)
        ["s ::= a x | b".toList, "u ::= s".toList, "a ::= y |".toList] ⟨some 4⟩ = .ok gen ∧
      Generator.ofConfig (.replicate 8 0) ["_ ::= s |".toList, "a ::= y |".toList,
        "u ::= v v".toList, "s ::= a x | b".toList] ⟨some 4⟩ = .ok gen' ∧
      gen.grammar = surrounded ∧ gen'.grammar = resurrounded ∧
      (∀ (lim : Limits) (s : Tape),
        surrounded.derive lim ['s'] s = resurrounded.derive lim ['s'] s) ∧
      ∀ (lim : Limits) (times : Nat),
        (gen.generateMany lim ['s'] times).1 = (gen'.generateMany lim ['s'] times).1 := by
  have hgen : Generator.ofConfig (.replicate 8 0)
      ["s ::= a x | b".toList, "u ::= s".toList, "a ::= y |".toList] ⟨some 4⟩ =
        .ok ⟨surrounded, .ofSeed 4⟩ := rfl
  have hgen' : Generator.ofConfig (.replicate 8 0) ["_ ::= s |".toList, "a ::= y |".toList,
      "u ::= v v".toList, "s ::= a x | b".toList] ⟨some 4⟩ = .ok ⟨resurrounded, .ofSeed 4⟩ := rfl
  have hreached : ∀ t, surrounded.Reachable ['s'] t → t ∈ [['s'], ['a'], ['x'], ['b'], ['y']] :=
    fun t ht => ht.mem_of_closed (by decide) (by decide)
  have hothers : ∀ d r, Rule.parse d = .ok r →
      (d ∈ ["s ::= a x | b".toList, "u ::= s".toList, "a ::= y |".toList] ↔
        d ∉ ["_ ::= s |".toList, "a ::= y |".toList, "u ::= v v".toList,
          "s ::= a x | b".toList]) → ¬ surrounded.Reachable ['s'] r.name := by
    intro d r hr hone hreach
    have hname := hreached r.name hreach
    have hd : d = "u ::= s".toList ∨ d = "_ ::= s |".toList ∨ d = "u ::= v v".toList := by
      simp only [List.mem_cons, List.not_mem_nil, or_false] at hone
      grind
    rcases hd with rfl | rfl | rfl
    all_goals
      obtain rfl := Except.ok.inj hr
      exact absurd hname (by decide)
  have hagree : surrounded.AgreeBelow resurrounded ['s'] :=
    agreeBelow_of_declarations (Generator.declares_of_ofConfig hgen)
      (Generator.declares_of_ofConfig hgen') hothers
  obtain ⟨hderive, hgenerate⟩ := derive_depends_on_reachable ['s']
  exact ⟨_, _, hgen, hgen', rfl, rfl, hderive _ _ hagree Tape,
    hgenerate _ _ _ _ _ _ hgen hgen' hothers⟩

end Grammar

end BnfSentences
