import BnfSentences.Proofs.Derivation.Calls

/-!
# Limits that are wide enough

Wider limits do not change a derivation that returns. `depth_le_of_measure`
bounds the depth of all calls by what goes down with each of them, and
`exists_tries` finds one number of tries that is enough for all choices.
-/

namespace BnfSentences

universe u

variable {σ : Type u}

open Relation (ReflTransGen)

/-! ### Wider limits -/

namespace Derivation

theorem ofTokens_mono {expand expand' : Text → σ → Option (Derivation × σ)}
    (hexpand : ∀ t s r, expand t s = some r → expand' t s = some r) {ts : List Text} {s : σ}
    {r : Derivation × σ} (h : ofTokens expand ts s = some r) : ofTokens expand' ts s = some r := by
  induction ts generalizing s r with
  | nil => exact h
  | cons t ts ih =>
    obtain ⟨d, s'⟩ := r
    obtain ⟨d₁, s₁, d₂, hfirst, hothers, hd⟩ := ofTokens_cons_eq_some_iff.1 h
    have hfirst' := hexpand t s _ hfirst
    have hothers' := ih hothers
    exact ofTokens_cons_eq_some_iff.2 ⟨d₁, s₁, d₂, hfirst', hothers', hd⟩

/-- One number of tries is enough for all tokens if each of them has one. -/
theorem exists_ofTokens {expand : Nat → Text → σ → Option (Derivation × σ)}
    (hmono : ∀ m n, m ≤ n → ∀ t s r, expand m t s = some r → expand n t s = some r)
    {ts : List Text} {s : σ}
    (h : ∀ n before t after d s', ts = before ++ t :: after →
      ofTokens (expand n) before s = some (d, s') → ∃ m r, expand m t s' = some r) :
    ∃ n r, ofTokens (expand n) ts s = some r := by
  -- The first token and the others each have a number, and the larger one serves both.
  induction ts generalizing s with
  | nil => exact ⟨0, _, rfl⟩
  | cons t ts ih =>
    obtain ⟨m, ⟨d₁, s₁⟩, hfirst⟩ := h 0 [] t ts .nothing s rfl rfl
    have hothers : ∃ n r, ofTokens (expand n) ts s₁ = some r := by
      apply ih
      intro n before u after d s' hts hbefore
      have hfirst' := hmono m (max m n) (by omega) t s _ hfirst
      have hbefore' := ofTokens_mono (hmono n (max m n) (by omega)) hbefore
      have hderived := ofTokens_cons_eq_some_iff.2 ⟨d₁, s₁, d, hfirst', hbefore', rfl⟩
      exact h (max m n) (t :: before) u after _ s' (by rw [hts]; rfl) hderived
    obtain ⟨n, ⟨d₂, s₂⟩, hothers⟩ := hothers
    have hfirst' := hmono m (max m n) (by omega) t s _ hfirst
    have hothers' := ofTokens_mono (hmono n (max m n) (by omega)) hothers
    exact ⟨max m n, _, ofTokens_cons_eq_some_iff.2 ⟨d₁, s₁, d₂, hfirst', hothers', rfl⟩⟩

end Derivation

namespace Grammar

variable [Source σ] {g : Grammar}

theorem expand_mono (hg : g.WellFormed) {m n : Nat} (hmn : m ≤ n) {depth depth' : Nat}
    (hdepth : depth ≤ depth') {symbol : Text} {s : σ} {r : Derivation × σ}
    (h : g.expand m depth symbol s = some r) : g.expand n depth' symbol s = some r := by
  induction depth generalizing depth' symbol s r with
  | zero => cases h
  | succ depth ih =>
    obtain ⟨deeper, rfl⟩ : ∃ k, depth' = k + 1 := ⟨depth' - 1, by omega⟩
    have hdeeper : depth ≤ deeper := Nat.le_of_succ_le_succ hdepth
    obtain ⟨d, s'⟩ := r
    rw [expand_eq_some_iff hg] at h ⊢
    rcases h with hterm | ⟨alternatives, p, drawn, s₁, e, hdecl, hpick, htokens, hd⟩
    · exact .inl hterm
    · have hpick' := Choice.pick_mono hmn hpick
      have htokens' := Derivation.ofTokens_mono (fun t s r ht => ih hdeeper ht) htokens
      exact .inr ⟨alternatives, p, drawn, s₁, e, hdecl, hpick', htokens', hd⟩

theorem expand_tries_mono (hg : g.WellFormed) {m n : Nat} (hmn : m ≤ n) (depth : Nat) (t : Text)
    (s : σ) (r : Derivation × σ) (h : g.expand m depth t s = some r) :
    g.expand n depth t s = some r :=
  expand_mono hg hmn (Nat.le_refl depth) h

theorem derive_of_expand (hg : g.WellFormed) {symbol : Text} (hsymbol : symbol ≠ [])
    {tries depth : Nat} {s s' : σ} {d : Derivation}
    (h : g.expand tries depth symbol s = some (d, s')) {lim : Limits} (htries : tries ≤ lim.tries)
    (hdepth : depth ≤ lim.depth) : g.derive lim symbol s = .ok (d, s') :=
  derive_eq_ok_iff.2 ⟨hsymbol, expand_mono hg htries hdepth h⟩

theorem Calls.mono (hg : g.WellFormed) {m n : Nat} (hmn : m ≤ n) {c c' : Call σ}
    (h : g.Calls m c c') : g.Calls n c c' := by
  cases h with
  | token declared chosen tokens derived =>
    have chosen' := Choice.pick_mono hmn chosen
    have derived' := Derivation.ofTokens_mono (expand_tries_mono hg hmn _) derived
    exact .token declared chosen' tokens derived'

/-! ### What a call passes on -/

theorem Calls.depth_eq {tries : Nat} {c c' : Call σ} (h : g.Calls tries c c') :
    c.depth = c'.depth + 1 := by
  cases h
  rfl

/-- A call is made some words later: at least one has been drawn for the choice. -/
theorem Calls.source_eq (hg : g.WellFormed) {tries : Nat} {c c' : Call σ}
    (h : g.Calls tries c c') : ∃ k, 0 < k ∧ c'.source = Source.drop k c.source := by
  cases h with
  | @token depth symbol t alternatives p before after drawn d s s₁ s₂ declared chosen tokens
      derived =>
    obtain ⟨i, hi, -, -, hrest⟩ := Choice.pick_eq_some_iff.1 chosen
    have hdrawn := Choice.pos_of_pick chosen
    have hp : p ∈ alternatives := hi ▸ List.get_mem alternatives i
    have hbefore : ∀ t ∈ before, t ≠ [] := by
      intro t ht
      apply (hg.production declared hp).token_ne_nil
      rw [tokens]
      exact List.mem_append_left _ ht
    obtain ⟨cs, -, -, hfollows⟩ :=
      ofTokens_follows hg (fun t s d s' ht => expand_follows hg ht) hbefore derived
    refine ⟨drawn + d.draws, by omega, ?_⟩
    rw [Source.drop_add, ← hrest]
    exact hfollows.rest

theorem depth_le_of_measure {tries : Nat} {inv : Call σ → Prop} {measure : Call σ → Nat}
    (hstep : ∀ c c', inv c → g.Calls tries c c' → inv c' ∧ measure c' < measure c)
    {c c' : Call σ} (hc : inv c) (h : ReflTransGen (g.Calls tries) c c') :
    inv c' ∧ measure c' + c.depth ≤ measure c + c'.depth := by
  induction h with
  | refl => exact ⟨hc, Nat.le_refl _⟩
  | tail _ hcall ih =>
    obtain ⟨hinv, hle⟩ := ih
    obtain ⟨hinv', hlt⟩ := hstep _ _ hinv hcall
    have hdepth := hcall.depth_eq
    exact ⟨hinv', by omega⟩

/-! ### Enough tries -/

theorem exists_tries (hg : g.WellFormed) {depth : Nat} {symbol : Text} {s : σ}
    (h : ∀ tries c, ReflTransGen (g.Calls tries) ⟨depth, symbol, s⟩ c → ∃ n, ¬ g.Fails n c) :
    ∃ tries r, g.expand tries depth symbol s = some r := by
  induction depth generalizing symbol s with
  | zero =>
    obtain ⟨n, hfails⟩ := h 0 _ .refl
    exact absurd (.inl rfl) hfails
  | succ depth ih =>
    cases hdecl : g.productions? symbol with
    | none => exact ⟨0, _, (expand_eq_some_iff hg).2 (.inl ⟨hdecl, rfl, rfl⟩)⟩
    | some alternatives =>
      obtain ⟨m, hfails⟩ := h 0 _ .refl
      have hchooses : Choice.pick m alternatives s ≠ none := by
        intro hnone
        exact hfails (.inr ⟨alternatives, hdecl, hnone⟩)
      obtain ⟨⟨p, drawn, s₁⟩, hpick⟩ := Option.ne_none_iff_exists'.1 hchooses
      have htokens : ∃ n r, Derivation.ofTokens (g.expand n depth) p.tokens s₁ = some r := by
        apply Derivation.exists_ofTokens fun m n hmn => expand_tries_mono hg hmn depth
        intro n before t after d s₂ hts hbefore
        apply ih
        intro k c hcalls
        -- The call for the token, and all that follow it, with as many tries as any of them had.
        obtain ⟨tries, hm, hn, hk⟩ : ∃ tries, m ≤ tries ∧ n ≤ tries ∧ k ≤ tries :=
          ⟨m + n + k, by omega, by omega, by omega⟩
        have hpick' := Choice.pick_mono hm hpick
        have hbefore' := Derivation.ofTokens_mono (expand_tries_mono hg hn depth) hbefore
        have hcalls' := hcalls.lift id fun _ _ => Calls.mono hg hk
        exact h tries c (.head (.token hdecl hpick' hts hbefore') hcalls')
      obtain ⟨n, ⟨e, s₂⟩, htokens⟩ := htokens
      have hpick' := Choice.pick_mono (Nat.le_max_left m n) hpick
      have htokens' := Derivation.ofTokens_mono
        (expand_tries_mono hg (Nat.le_max_right m n) depth) htokens
      exact ⟨max m n, _, (expand_eq_some_iff hg).2
        (.inr ⟨alternatives, p, drawn, s₁, e, hdecl, hpick', htokens', rfl⟩)⟩

end Grammar

end BnfSentences
