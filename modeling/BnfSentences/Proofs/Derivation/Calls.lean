import BnfSentences.Grammar.Reachable
import BnfSentences.Proofs.Derivation.Soundness
import Mathlib.Logic.Relation

/-!
# Calls of a derivation

The calls that a derivation comes to, whether or not it returns. No call finds a
name without alternatives, and a name that is no token is only called at the
start: `calls_of_constructed`.
-/

namespace BnfSentences

universe u

variable {σ : Type u}

open Relation (ReflTransGen TransGen)

theorem Derivation.ofTokens_eq_none_iff {expand : Text → σ → Option (Derivation × σ)}
    {ts : List Text} {s : σ} :
    ofTokens expand ts s = none ↔
      ∃ before t after d s', ts = before ++ t :: after ∧
        ofTokens expand before s = some (d, s') ∧ expand t s' = none := by
  induction ts generalizing s with
  | nil => simp [ofTokens]
  | cons t ts ih =>
    cases hexpand : expand t s with
    | none =>
      refine ⟨fun _ => ⟨[], t, ts, .nothing, s, rfl, rfl, hexpand⟩, fun _ => ?_⟩
      simp [ofTokens, hexpand]
    | some r =>
      obtain ⟨d₁, s₁⟩ := r
      have hrest : ofTokens expand (t :: ts) s = none ↔ ofTokens expand ts s₁ = none := by
        cases htokens : ofTokens expand ts s₁ with
        | none => simp [ofTokens, hexpand, htokens]
        | some r => simp [ofTokens, hexpand, htokens]
      rw [hrest, ih]
      constructor
      · rintro ⟨before, u, after, d, s', rfl, hbefore, hu⟩
        exact ⟨t :: before, u, after, _, s', rfl,
          ofTokens_cons_eq_some_iff.2 ⟨d₁, s₁, d, hexpand, hbefore, rfl⟩, hu⟩
      · rintro ⟨before, u, after, d, s', hts, hbefore, hu⟩
        cases before with
        | nil =>
          obtain ⟨rfl, -⟩ := List.cons.inj hts
          obtain ⟨-, rfl⟩ := ofTokens_nil_eq_some_iff.1 hbefore
          rw [hexpand] at hu
          cases hu
        | cons v before =>
          obtain ⟨rfl, rfl⟩ := List.cons.inj hts
          obtain ⟨e₁, t₁, e₂, hv, hbefore, -⟩ := ofTokens_cons_eq_some_iff.1 hbefore
          rw [hexpand] at hv
          obtain ⟨rfl, rfl⟩ := Prod.mk.inj (Option.some.inj hv)
          exact ⟨before, u, after, e₂, s', rfl, hbefore, hu⟩

namespace Grammar

structure Call (σ : Type u) where
  depth : Nat
  symbol : Text
  source : σ

variable [Source σ]

/-- One call makes another: for a token of the alternative that it has chosen,
after the tokens in front of that are derived. -/
inductive Calls (g : Grammar) (tries : Nat) : Call σ → Call σ → Prop where
  | token {depth : Nat} {symbol t : Text} {alternatives : List Production} {p : Production}
      {before after : List Text} {drawn : Nat} {d : Derivation} {s s₁ s₂ : σ}
      (declared : g.productions? symbol = some alternatives)
      (chosen : Choice.pick tries alternatives s = some (p, drawn, s₁))
      (tokens : p.tokens = before ++ t :: after)
      (derived : Derivation.ofTokens (g.expand tries depth) before s₁ = some (d, s₂)) :
      Calls g tries ⟨depth + 1, symbol, s⟩ ⟨depth, t, s₂⟩

/-- A call that is too deep, or that can choose no alternative. -/
def Fails (g : Grammar) (tries : Nat) (c : Call σ) : Prop :=
  c.depth = 0 ∨ ∃ alternatives, g.productions? c.symbol = some alternatives ∧
    Choice.pick tries alternatives c.source = none

variable {g : Grammar}

/-! ### Failing calls -/

theorem expand_succ_eq_none_iff (hg : g.WellFormed) {tries depth : Nat} {symbol : Text} {s : σ} :
    g.expand tries (depth + 1) symbol s = none ↔
      ∃ alternatives, g.productions? symbol = some alternatives ∧
        (Choice.pick tries alternatives s = none ∨
          ∃ p drawn s₁, Choice.pick tries alternatives s = some (p, drawn, s₁) ∧
            Derivation.ofTokens (g.expand tries depth) p.tokens s₁ = none) := by
  cases hsym : g.productions? symbol with
  | none => simp [expand, hsym]
  | some alternatives =>
    cases alternatives with
    | nil => exact absurd rfl (hg.alternatives_ne_nil hsym)
    | cons q qs =>
      cases hpick : Choice.pick tries (q :: qs) s with
      | none => simp [expand, hsym, hpick]
      | some r =>
        obtain ⟨p, drawn, s₁⟩ := r
        cases htokens : Derivation.ofTokens (g.expand tries depth) p.tokens s₁ with
        | none => simp [expand, hsym, hpick, htokens]
        | some r => simp [expand, hsym, hpick, htokens]

theorem expand_eq_none_iff (hg : g.WellFormed) {tries depth : Nat} {symbol : Text} {s : σ} :
    g.expand tries depth symbol s = none ↔
      ∃ c, ReflTransGen (g.Calls tries) ⟨depth, symbol, s⟩ c ∧ g.Fails tries c := by
  induction depth generalizing symbol s with
  | zero => exact ⟨fun _ => ⟨_, .refl, .inl rfl⟩, fun _ => rfl⟩
  | succ depth ih =>
    rw [expand_succ_eq_none_iff hg]
    constructor
    · rintro ⟨alternatives, hdecl, hpick | ⟨p, drawn, s₁, hpick, htokens⟩⟩
      · exact ⟨_, .refl, .inr ⟨alternatives, hdecl, hpick⟩⟩
      · obtain ⟨before, t, after, d, s₂, hts, hbefore, ht⟩ :=
          Derivation.ofTokens_eq_none_iff.1 htokens
        obtain ⟨c, hcalls, hfails⟩ := ih.1 ht
        exact ⟨c, .head (.token hdecl hpick hts hbefore) hcalls, hfails⟩
    · rintro ⟨c, hcalls, hfails⟩
      rcases ReflTransGen.cases_head_iff.1 hcalls with rfl | ⟨c', hcall, hcalls⟩
      · rcases hfails with hdepth | ⟨alternatives, hdecl, hpick⟩
        · cases hdepth
        · exact ⟨alternatives, hdecl, .inl hpick⟩
      · cases hcall with
        | token hdecl hpick hts hbefore =>
          have ht := ih.2 ⟨c, hcalls, hfails⟩
          exact ⟨_, hdecl, .inr ⟨_, _, _, hpick,
            Derivation.ofTokens_eq_none_iff.2 ⟨_, _, _, _, _, hts, hbefore, ht⟩⟩⟩

/-! ### What is called -/

theorem Calls.mentions {tries : Nat} {c c' : Call σ} (h : g.Calls tries c c') :
    g.Mentions c.symbol c'.symbol := by
  cases h with
  | token declared chosen tokens _ =>
    obtain ⟨i, hi, -⟩ := Choice.pick_eq_some_iff.1 chosen
    refine ⟨_, declared, _, hi ▸ List.get_mem _ i, ?_⟩
    rw [tokens]
    exact List.mem_append_cons_self

theorem HasTree.mentioned_of_mem_tail {t : Tree} (ht : g.HasTree t) {e : Expansion}
    (he : e ∈ t.trace.tail) : ∃ s, g.Mentions s e.symbol := by
  induction ht with
  | leaf _ =>
    rw [Tree.trace_leaf] at he
    cases he
  | @node symbol alternatives p children declared mem tokens _ ih =>
    rw [Tree.trace_node, List.tail_cons] at he
    obtain ⟨c, hc, he⟩ := List.mem_flatMap.1 he
    rcases Tree.root_or_mem_tail he with hroot | htail
    · have htoken := Tree.root_mem_tokens tokens hc
      rw [← hroot] at htoken
      exact ⟨symbol, alternatives, declared, p, mem, htoken⟩
    · exact ih c hc htail

theorem WellFormed.unbroken_of_mentions (hg : g.WellFormed) {s t : Text} (h : g.Mentions s t) :
    ∀ x ∈ t, ¬ Text.isGap x ∧ x ≠ Rule.bar := by
  obtain ⟨alternatives, hdecl, p, hp, ht⟩ := h
  have hwf := hg.production hdecl hp
  intro x hx
  refine ⟨hwf.token_no_gap t ht x hx, ?_⟩
  rintro rfl
  exact hwf.token_no_bar t ht hx

/-- No call of a grammar that was built finds a name without alternatives, and only the first one
can be for a name with a gap or a bar in it. -/
theorem calls_of_constructed (hg : g.Constructed) (lim : Limits) (symbol : Text) (s : σ) :
    g.WellFormed ∧
    (∀ c, ReflTransGen (g.Calls lim.tries) ⟨lim.depth, symbol, s⟩ c →
      g.productions? c.symbol ≠ some []) ∧
    (∀ c, TransGen (g.Calls lim.tries) ⟨lim.depth, symbol, s⟩ c →
      ∀ x ∈ c.symbol, ¬ Text.isGap x ∧ x ≠ Rule.bar) ∧
    (∀ d s', g.derive lim symbol s = .ok (d, s') →
      ∀ e ∈ d.trace.tail, ∀ x ∈ e.symbol, ¬ Text.isGap x ∧ x ≠ Rule.bar) := by
  have hwf := constructed_iff_wellFormed.1 hg
  refine ⟨hwf, ?_, ?_, ?_⟩
  · intro c _ hnone
    exact hwf.alternatives_ne_nil hnone rfl
  · intro c hcalls
    obtain ⟨b, -, hcall⟩ := TransGen.tail'_iff.1 hcalls
    exact hwf.unbroken_of_mentions hcall.mentions
  · intro d s' hderive e he
    obtain ⟨t, ht, -, hfollows⟩ := derive_follows hwf hderive
    rw [hfollows.trace] at he
    obtain ⟨u, hmentions⟩ := ht.mentioned_of_mem_tail he
    exact hwf.unbroken_of_mentions hmentions

/-- The grammar `a|b ::= x a|b |`: its name has a bar in it, its tokens are cut there. -/
def barred : Grammar :=
  ⟨[⟨['a', '|', 'b'], [⟨[['x'], ['a']]⟩, ⟨[['b']]⟩, ⟨[]⟩]⟩]⟩

theorem calls_of_constructed_barred :
    Grammar.ofDeclarations ["a|b ::= x a|b |".toList] = .ok barred ∧
      ∀ c : Call Tape, TransGen (barred.Calls 2) ⟨2, ['a', '|', 'b'], ⟨[]⟩⟩ c →
        c.symbol ≠ ['a', '|', 'b'] := by
  have hbuilt : Grammar.ofDeclarations ["a|b ::= x a|b |".toList] = .ok barred := rfl
  refine ⟨hbuilt, ?_⟩
  intro c hcalls hsymbol
  have hunbroken := (calls_of_constructed (.ofDeclarations hbuilt) ⟨2, 2⟩ _ _).2.2.1 c hcalls
  rw [hsymbol] at hunbroken
  exact (hunbroken '|' (by decide)).2 rfl

end Grammar

end BnfSentences
