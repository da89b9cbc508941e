import BnfSentences.Derivation.Basic
import BnfSentences.Proofs.Grammar.Construction

/-!
# Steps of a derivation

What a call to derive from a symbol does: `expand_eq_some_iff` for one
replacement and `ofTokens_cons_eq_some_iff` for one token.
-/

namespace BnfSentences

universe u

variable {σ : Type u}

namespace Derivation

theorem ofTokens_nil_eq_some_iff {expand : Text → σ → Option (Derivation × σ)} {s s' : σ}
    {d : Derivation} : ofTokens expand [] s = some (d, s') ↔ d = nothing ∧ s' = s := by
  simp [ofTokens, eq_comm]

theorem ofTokens_cons_eq_some_iff {expand : Text → σ → Option (Derivation × σ)} {t : Text}
    {ts : List Text} {s s' : σ} {d : Derivation} :
    ofTokens expand (t :: ts) s = some (d, s') ↔
      ∃ d₁ s₁ d₂, expand t s = some (d₁, s₁) ∧ ofTokens expand ts s₁ = some (d₂, s') ∧
        d = d₁.followedBy d₂ := by
  simp only [ofTokens, Option.bind_eq_bind, Option.bind_eq_some_iff]
  constructor
  · rintro ⟨⟨d₁, s₁⟩, h₁, ⟨d₂, s₂⟩, h₂, h⟩
    obtain ⟨rfl, rfl⟩ := Prod.mk.inj (Option.some.inj h)
    exact ⟨d₁, s₁, d₂, h₁, h₂, rfl⟩
  · rintro ⟨d₁, s₁, d₂, h₁, h₂, rfl⟩
    exact ⟨(d₁, s₁), h₁, (d₂, s'), h₂, rfl⟩

end Derivation

namespace Grammar

variable [Source σ]

theorem expand_eq_some_iff {g : Grammar} (hg : g.WellFormed) {tries depth : Nat} {symbol : Text}
    {s s' : σ} {d : Derivation} :
    g.expand tries (depth + 1) symbol s = some (d, s') ↔
      g.productions? symbol = none ∧ d = .terminal symbol ∧ s' = s ∨
        ∃ alternatives p drawn s₁ e, g.productions? symbol = some alternatives ∧
          Choice.pick tries alternatives s = some (p, drawn, s₁) ∧
          Derivation.ofTokens (g.expand tries depth) p.tokens s₁ = some (e, s') ∧
          d = e.under symbol p drawn := by
  cases hsym : g.productions? symbol with
  | none => simp [expand, hsym, eq_comm]
  | some alternatives =>
    cases alternatives with
    | nil => exact absurd rfl (hg.alternatives_ne_nil hsym)
    | cons q qs =>
      simp only [expand, hsym, Option.bind_eq_bind, Option.bind_eq_some_iff]
      constructor
      · rintro ⟨⟨p, drawn, s₁⟩, hpick, ⟨e, s₂⟩, htokens, h⟩
        obtain ⟨rfl, rfl⟩ := Prod.mk.inj (Option.some.inj h)
        exact .inr ⟨_, p, drawn, s₁, e, rfl, hpick, htokens, rfl⟩
      · rintro (⟨h, -⟩ | ⟨alternatives, p, drawn, s₁, e, h, hpick, htokens, rfl⟩)
        · cases h
        · obtain rfl := Option.some.inj h
          exact ⟨(p, drawn, s₁), hpick, (e, s'), htokens, rfl⟩

theorem derive_eq_ok_iff {g : Grammar} {lim : Limits} {symbol : Text} {s s' : σ}
    {d : Derivation} :
    g.derive lim symbol s = .ok (d, s') ↔
      symbol ≠ [] ∧ g.expand lim.tries lim.depth symbol s = some (d, s') := by
  rw [derive]
  split
  · next h => simp [List.isEmpty_iff.1 h]
  · next h =>
    rw [List.isEmpty_iff] at h
    cases hexp : g.expand lim.tries lim.depth symbol s with
    | none => simp
    | some r =>
      obtain ⟨e, t⟩ := r
      simp [h]

theorem derive_of_undeclared {g : Grammar} {lim : Limits} (hdepth : 0 < lim.depth) {symbol : Text}
    (hsymbol : symbol ≠ []) (h : g.productions? symbol = none) (s : σ) :
    g.derive lim symbol s = .ok (.terminal symbol, s) := by
  obtain ⟨depth, hlim⟩ := Nat.exists_eq_add_one.2 hdepth
  rw [derive_eq_ok_iff, hlim, expand, h]
  exact ⟨hsymbol, rfl⟩

end Grammar

end BnfSentences
