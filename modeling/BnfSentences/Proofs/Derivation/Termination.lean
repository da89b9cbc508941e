import BnfSentences.Proofs.Derivation.Limits
import BnfSentences.Proofs.Grammar.Ranks

/-!
# Derivations that return

A derivation on a tape returns if no non-terminal leads back to itself by first
alternatives, since the exhausted tape chooses only these: `derive_on_tape`. Below
a symbol without cycles every derivation returns that is not rejected for ever,
and it is never deeper than there are rules: `derive_of_acyclicBelow`.
-/

namespace BnfSentences

universe u

variable {σ : Type u}

open Relation (ReflTransGen)

/-! ### Tapes -/

theorem Tape.words_drop (k : Nat) (s : Tape) : (Source.drop k s).words = s.words.drop k := by
  obtain ⟨ws⟩ := s
  induction k generalizing ws with
  | zero => rfl
  | succ k ih =>
    cases ws with
    | nil => simpa [Source.drop, Source.next] using ih []
    | cons w ws => exact ih ws

namespace Grammar

variable {g : Grammar}

/-- What is left to do on a tape: words as long as there are some, and then the
non-terminals that first alternatives still lead to. -/
noncomputable def remaining (g : Grammar) (c : Call Tape) : Nat :=
  match c.source.words with
  | [] => g.rank g.MentionsFirst c.symbol
  | _ :: ws => ws.length + 1 + g.rules.length

theorem remaining_le (g : Grammar) (c : Call Tape) :
    g.remaining c ≤ c.source.words.length + g.rules.length := by
  unfold remaining
  split
  · have hrank := rank_le g g.MentionsFirst c.symbol
    omega
  · next hws => simp [hws]

theorem Calls.mentionsFirst (hg : g.WellFormed) {tries : Nat} {c c' : Call Tape}
    (h : g.Calls tries c c') (hc : c.source.words = []) :
    g.MentionsFirst c.symbol c'.symbol := by
  cases h with
  | @token depth symbol t alternatives p before after drawn d s s₁ s₂ declared chosen tokens _ =>
    obtain ⟨ws⟩ := s
    obtain rfl : ws = [] := hc
    cases alternatives with
    | nil => exact absurd rfl (hg.alternatives_ne_nil declared)
    | cons q qs =>
      obtain rfl := Choice.eq_of_pick_exhausted chosen
      refine ⟨p, qs, declared, ?_⟩
      rw [tokens]
      exact List.mem_append_cons_self

theorem Calls.remaining_lt (hg : g.WellFormed) (hfirst : ∀ s, ¬ Leads g.MentionsFirst s s)
    {tries : Nat} {c c' : Call Tape} (h : g.Calls tries c c') :
    g.remaining c' < g.remaining c := by
  obtain ⟨k, hk, hsource⟩ := h.source_eq hg
  have hwords : c'.source.words = c.source.words.drop k := by
    rw [hsource, Tape.words_drop]
  cases hc : c.source.words with
  | nil =>
    -- No word is left, so the token is one of a first alternative and its rank is lower.
    have hc' : c'.source.words = [] := by simp [hwords, hc]
    have hmentions := h.mentionsFirst hg hc
    simp only [remaining, hc, hc']
    exact rank_lt_rank hmentions.mem_symbols hmentions (hfirst c.symbol)
  | cons w ws =>
    -- A word fewer outweighs whatever rank the token has.
    have hle := g.remaining_le c'
    have hlength : c'.source.words.length ≤ ws.length := by
      rw [hwords, hc, List.length_drop, List.length_cons]
      omega
    have hleft : g.remaining c = ws.length + 1 + g.rules.length := by simp only [remaining, hc]
    omega

/-- A grammar whose first alternatives lead no non-terminal back to itself derives
from every symbol on every tape, with limits that the words and rules give. -/
theorem derive_on_tape (hg : g.Constructed) (hfirst : ∀ s, ¬ Leads g.MentionsFirst s s)
    {symbol : Text} (hsymbol : symbol ≠ []) (ws : List UInt32) :
    ∃ d s', ∀ lim : Limits, ws.length + g.rules.length < lim.depth → ws.length < lim.tries →
      g.derive lim symbol (⟨ws⟩ : Tape) = .ok (d, s') := by
  have hwf := constructed_iff_wellFormed.1 hg
  have hstep : ∀ c c' : Call Tape, c.source.words.length ≤ ws.length →
      g.Calls (ws.length + 1) c c' →
      c'.source.words.length ≤ ws.length ∧ g.remaining c' < g.remaining c := by
    intro c c' hc hcall
    obtain ⟨k, -, hsource⟩ := hcall.source_eq hwf
    rw [hsource, Tape.words_drop, List.length_drop]
    exact ⟨by omega, hcall.remaining_lt hwf hfirst⟩
  have hexpand : g.expand (ws.length + 1) (ws.length + g.rules.length + 1) symbol
      (⟨ws⟩ : Tape) ≠ none := by
    -- A call that fails is too deep for what remains, or rejects more words than there are.
    intro hnone
    obtain ⟨c, hcalls, hfails⟩ := (expand_eq_none_iff hwf).1 hnone
    obtain ⟨hlength, hdepth⟩ := depth_le_of_measure hstep (Nat.le_refl ws.length) hcalls
    rcases hfails with hzero | ⟨alternatives, hdecl, hpick⟩
    · have hle := g.remaining_le ⟨ws.length + g.rules.length + 1, symbol, ⟨ws⟩⟩
      simp only [hzero] at hdepth hle
      omega
    · exact Choice.pick_ne_none_of_tape (hwf.alternatives_ne_nil hdecl)
        (Nat.lt_succ_of_le hlength) hpick
  obtain ⟨⟨d, s'⟩, hsome⟩ := Option.ne_none_iff_exists'.1 hexpand
  exact ⟨d, s', fun lim hdepth htries => derive_of_expand hwf hsymbol hsome htries hdepth⟩

/-- Each leads to itself and to the other, but not by first alternatives. -/
def crossed : Grammar :=
  ⟨[⟨['a'], [⟨[['x']]⟩, ⟨[['b'], ['a']]⟩]⟩, ⟨['b'], [⟨[['y']]⟩, ⟨[['a'], ['b']]⟩]⟩]⟩

/-- Two words choose recursive alternatives, and zeros end the derivation. -/
theorem derive_on_tape_crossed :
    Grammar.ofDeclarations ["a ::= x | b a".toList, "b ::= y | a b".toList] = .ok crossed ∧
      (∀ s, ¬ Leads crossed.MentionsFirst s s) ∧
      ∃ d s', d.sentence = "x y x".toList ∧
        ∀ lim : Limits, 4 < lim.depth → 2 < lim.tries →
          crossed.derive lim ['a'] (⟨[0x80000000, 0x80000000]⟩ : Tape) = .ok (d, s') := by
  have hbuilt : Grammar.ofDeclarations ["a ::= x | b a".toList, "b ::= y | a b".toList] =
      .ok crossed := rfl
  have hfirst : ∀ s, ¬ Leads crossed.MentionsFirst s s :=
    not_leads_first_of_level (fun s => if s = ['a'] ∨ s = ['b'] then 1 else 0) (by decide)
  have hsymbol : ['a'] ≠ [] := by decide
  obtain ⟨d, s', hd⟩ := derive_on_tape (.ofDeclarations hbuilt) hfirst hsymbol
    [0x80000000, 0x80000000]
  have hsentence : d.sentence = "x y x".toList := by
    have hrun := hd ⟨5, 3⟩ (by decide) (by decide)
    obtain ⟨rfl, -⟩ := Prod.mk.inj (Except.ok.inj hrun)
    rfl
  exact ⟨hbuilt, hfirst, d, s', hsentence, hd⟩

/-! ### Symbols without cycles -/

variable [Source σ]

/-- No choice of a derivation from this symbol rejects words for ever. -/
def ChoosesThroughout (g : Grammar) (symbol : Text) (s : σ) : Prop :=
  ∀ (lim : Limits) (c : Call σ), ReflTransGen (g.Calls lim.tries) ⟨lim.depth, symbol, s⟩ c →
    ∀ alternatives, g.productions? c.symbol = some alternatives →
      ∃ tries, Choice.pick tries alternatives c.source ≠ none

theorem depth_le_of_acyclicBelow {symbol : Text} (hacyclic : g.AcyclicBelow symbol) {s : σ}
    (lim : Limits) {c : Call σ}
    (h : ReflTransGen (g.Calls lim.tries) ⟨lim.depth, symbol, s⟩ c) :
    lim.depth ≤ c.depth + g.rules.length := by
  have hstep : ∀ c c' : Call σ, g.AcyclicBelow c.symbol → g.Calls lim.tries c c' →
      g.AcyclicBelow c'.symbol ∧ g.rank g.Mentions c'.symbol < g.rank g.Mentions c.symbol := by
    intro c c' hc hcall
    have hmentions := hcall.mentions
    exact ⟨hc.of_mentions hmentions,
      rank_lt_rank hmentions.mem_symbols hmentions (hc c.symbol (.inl rfl))⟩
  obtain ⟨-, hdepth⟩ := depth_le_of_measure hstep hacyclic h
  have hrank := rank_le g g.Mentions symbol
  simp only at hdepth
  omega

/-- No call is deeper than there are rules, with one level more for the terminals. So a derivation
returns unless some choice rejects for ever. -/
theorem derive_of_acyclicBelow (hg : g.Constructed) {symbol : Text} (hsymbol : symbol ≠ [])
    (hacyclic : g.AcyclicBelow symbol) (s : σ) :
    (∀ (lim : Limits) (c : Call σ),
      ReflTransGen (g.Calls lim.tries) ⟨lim.depth, symbol, s⟩ c →
        lim.depth ≤ c.depth + g.rules.length) ∧
    (g.ChoosesThroughout symbol s → ∃ tries d s', ∀ lim : Limits,
      g.rules.length + 1 ≤ lim.depth → tries ≤ lim.tries →
        g.derive lim symbol s = .ok (d, s')) := by
  have hwf := constructed_iff_wellFormed.1 hg
  refine ⟨fun lim c hcalls => depth_le_of_acyclicBelow hacyclic lim hcalls, ?_⟩
  intro hchooses
  have hcalls : ∀ tries (c : Call σ),
      ReflTransGen (g.Calls tries) ⟨g.rules.length + 1, symbol, s⟩ c → ∃ n, ¬ g.Fails n c := by
    intro tries c hcalls
    have hdepth := depth_le_of_acyclicBelow hacyclic ⟨g.rules.length + 1, tries⟩ hcalls
    simp only at hdepth
    cases hdecl : g.productions? c.symbol with
    | none =>
      refine ⟨0, ?_⟩
      rintro (hzero | ⟨alternatives, hdecl', -⟩)
      · omega
      · rw [hdecl] at hdecl'
        cases hdecl'
    | some alternatives =>
      obtain ⟨n, hn⟩ := hchooses ⟨g.rules.length + 1, tries⟩ c hcalls alternatives hdecl
      refine ⟨n, ?_⟩
      rintro (hzero | ⟨alternatives', hdecl', hpick⟩)
      · omega
      · obtain rfl := Option.some.inj (hdecl.symm.trans hdecl')
        exact hn hpick
  obtain ⟨tries, ⟨d, s'⟩, hexpand⟩ := exists_tries hwf hcalls
  exact ⟨tries, d, s', fun lim hdepth htries => derive_of_expand hwf hsymbol hexpand htries hdepth⟩

theorem choosesThroughout_of_tape (hg : g.WellFormed) (symbol : Text) (s : Tape) :
    g.ChoosesThroughout symbol s := by
  intro lim c _ alternatives hdecl
  exact ⟨_, Choice.pick_ne_none_of_tape (hg.alternatives_ne_nil hdecl) (Nat.lt_succ_self _)⟩

/-- The grammar `a ::= y |`, `b ::= a a | z`, `s ::= b a | a b x`: no cycles, but shared names. -/
def layered : Grammar :=
  ⟨[⟨['a'], [⟨[['y']]⟩, ⟨[]⟩]⟩, ⟨['b'], [⟨[['a'], ['a']]⟩, ⟨[['z']]⟩]⟩,
    ⟨['s'], [⟨[['b'], ['a']]⟩, ⟨[['a'], ['b'], ['x']]⟩]⟩]⟩

/-- The way down from `s` over `b` and `a` to a terminal takes all four levels. -/
theorem derive_of_acyclicBelow_layered :
    Grammar.ofDeclarations ["a ::= y |".toList, "b ::= a a | z".toList,
        "s ::= b a | a b x".toList] = .ok layered ∧
      layered.AcyclicBelow ['s'] ∧
      (∃ tries d s', ∀ lim : Limits, 4 ≤ lim.depth → tries ≤ lim.tries →
        layered.derive lim ['s'] (⟨[0x80000000]⟩ : Tape) = .ok (d, s')) ∧
      layered.derive ⟨3, 1⟩ ['s'] (⟨[0x80000000]⟩ : Tape) = .error .limitReached := by
  have hbuilt : Grammar.ofDeclarations ["a ::= y |".toList, "b ::= a a | z".toList,
      "s ::= b a | a b x".toList] = .ok layered := rfl
  have hacyclic : layered.AcyclicBelow ['s'] :=
    acyclicBelow_of_level
      (fun s => if s = ['s'] then 3 else if s = ['b'] then 2 else if s = ['a'] then 1 else 0)
      (by decide) ['s']
  have hwf := wellFormed_of_ofDeclarations hbuilt
  refine ⟨hbuilt, hacyclic, ?_, rfl⟩
  exact (derive_of_acyclicBelow (.ofDeclarations hbuilt) (by decide) hacyclic _).2
    (choosesThroughout_of_tape hwf ['s'] _)

end Grammar

end BnfSentences
