import BnfSentences.Proofs.Derivation.Steps
import BnfSentences.Proofs.Grammar.Table

/-!
# Successive derivations

`generateMany` makes as many calls as asked, each on the generator that the call
before it left, and fails with the first call that does.
-/

namespace BnfSentences.Generator

universe u

variable {σ : Type u} [Source σ] {lim : Limits} {symbol : Text}

/-- Derivations one after another lead from a generator to a generator. -/
inductive Successive (lim : Limits) (symbol : Text) :
    Generator σ → List Derivation → Generator σ → Prop where
  | none (g : Generator σ) : Successive lim symbol g [] g
  | next {g g₁ g₂ : Generator σ} {d : Derivation} {ds : List Derivation}
      (first : g.generate lim symbol = (.ok d, g₁)) (others : Successive lim symbol g₁ ds g₂) :
      Successive lim symbol g (d :: ds) g₂

/-- The next calls return, as many as asked. -/
def Returns (lim : Limits) (symbol : Text) : Nat → Generator σ → Prop
  | 0, _ => True
  | n + 1, g => ∃ d g', g.generate lim symbol = (.ok d, g') ∧ g'.Returns lim symbol n

theorem grammar_generate (lim : Limits) (g : Generator σ) (symbol : Text) :
    (g.generate lim symbol).2.grammar = g.grammar := by
  unfold generate
  split <;> rfl

theorem exists_successive_of_returns {g : Generator σ} {n : Nat} (h : g.Returns lim symbol n) :
    ∃ ds g', Successive lim symbol g ds g' ∧ ds.length = n := by
  induction n generalizing g with
  | zero => exact ⟨[], g, .none g, rfl⟩
  | succ n ih =>
    obtain ⟨d, g₁, hfirst, hothers⟩ := h
    obtain ⟨ds, g₂, hsuccessive, hlength⟩ := ih hothers
    exact ⟨d :: ds, g₂, .next hfirst hsuccessive, congrArg Nat.succ hlength⟩

theorem Successive.returns {g g' : Generator σ} {ds : List Derivation}
    (h : Successive lim symbol g ds g') : g.Returns lim symbol ds.length := by
  induction h with
  | none => trivial
  | next hfirst _ ih => exact ⟨_, _, hfirst, ih⟩

theorem successive_append_iff {g g' : Generator σ} {ds es : List Derivation} :
    Successive lim symbol g (ds ++ es) g' ↔
      ∃ g₁, Successive lim symbol g ds g₁ ∧ Successive lim symbol g₁ es g' := by
  induction ds generalizing g with
  | nil =>
    constructor
    · intro h
      exact ⟨g, .none g, h⟩
    · rintro ⟨g₁, hnone, h⟩
      cases hnone
      exact h
  | cons d ds ih =>
    constructor
    · intro h
      cases h with
      | next hfirst hothers =>
        obtain ⟨g₁, hds, hes⟩ := ih.1 hothers
        exact ⟨g₁, .next hfirst hds, hes⟩
    · rintro ⟨g₁, hds, hes⟩
      cases hds with
      | next hfirst hothers => exact .next hfirst (ih.2 ⟨g₁, hothers, hes⟩)

/-! ### One call -/

theorem generate_eq_error_iff {g g' : Generator σ} {e : Error} :
    g.generate lim symbol = (.error e, g') ↔
      g.grammar.derive lim symbol g.source = .error e ∧ g' = g := by
  unfold generate
  split
  · next h => simp [h, eq_comm]
  · next h => simp [h]

theorem eq_limitReached_of_generate {g g' : Generator σ} {e : Error} (hsymbol : symbol ≠ [])
    (h : g.generate lim symbol = (.error e, g')) : e = .limitReached := by
  have hderive := (generate_eq_error_iff.1 h).1
  unfold Grammar.derive at hderive
  split at hderive
  · next hempty => exact absurd (List.isEmpty_iff.1 hempty) hsymbol
  · split at hderive
    · exact (Except.error.inj hderive).symm
    · cases hderive

/-! ### Many calls -/

theorem generateMany_zero (g : Generator σ) : g.generateMany lim symbol 0 = (.ok [], g) :=
  rfl

theorem generateMany_succ (g : Generator σ) (n : Nat) :
    g.generateMany lim symbol (n + 1) =
      match g.generate lim symbol with
      | (.error e, _) => (.error e, g)
      | (.ok d, g₁) =>
        match g₁.generateMany lim symbol n with
        | (.error e, _) => (.error e, g)
        | (.ok ds, g₂) => (.ok (d :: ds), g₂) := by
  unfold generateMany generate
  rw [Grammar.deriveMany]
  cases hfirst : g.grammar.derive lim symbol g.source with
  | error e => rfl
  | ok r =>
    obtain ⟨d, s⟩ := r
    cases hothers : g.grammar.deriveMany lim symbol n s with
    | error e => simp [bind, Except.bind, hothers]
    | ok r => simp [bind, Except.bind, hothers, pure, Except.pure]

theorem generateMany_eq_ok_iff {g g' : Generator σ} {n : Nat} {ds : List Derivation} :
    g.generateMany lim symbol n = (.ok ds, g') ↔
      ds.length = n ∧ Successive lim symbol g ds g' := by
  induction n generalizing g ds with
  | zero =>
    rw [generateMany_zero]
    constructor
    · intro h
      obtain ⟨rfl, rfl⟩ : [] = ds ∧ g = g' := by simpa using h
      exact ⟨rfl, .none g⟩
    · rintro ⟨hlength, h⟩
      obtain rfl := List.length_eq_zero_iff.1 hlength
      cases h
      rfl
  | succ n ih =>
    rw [generateMany_succ]
    constructor
    · intro h
      split at h
      · cases h
      · next d g₁ hfirst =>
        split at h
        · cases h
        · next ds' g₂ hothers =>
          obtain ⟨rfl, rfl⟩ : d :: ds' = ds ∧ g₂ = g' := by simpa using h
          obtain ⟨hlength, hsuccessive⟩ := ih.1 hothers
          exact ⟨congrArg Nat.succ hlength, .next hfirst hsuccessive⟩
    · rintro ⟨hlength, h⟩
      cases h with
      | none => cases hlength
      | next hfirst hsuccessive =>
        have hothers := ih.2 ⟨Nat.succ.inj hlength, hsuccessive⟩
        simp [hfirst, hothers]

theorem Successive.unique {g g₁ g₂ : Generator σ} {ds es : List Derivation}
    (h : Successive lim symbol g ds g₁) (h' : Successive lim symbol g es g₂)
    (hlength : ds.length = es.length) : ds = es ∧ g₁ = g₂ := by
  have hds := generateMany_eq_ok_iff.2 ⟨hlength, h⟩
  have hes := generateMany_eq_ok_iff.2 ⟨rfl, h'⟩
  simpa using hds.symm.trans hes

theorem exists_of_generateMany_eq_error {g g' : Generator σ} {n : Nat} {e : Error}
    (h : g.generateMany lim symbol n = (.error e, g')) :
    g' = g ∧ ∃ ds g₁, ds.length < n ∧ Successive lim symbol g ds g₁ ∧
      g₁.generate lim symbol = (.error e, g₁) := by
  induction n generalizing g g' with
  | zero => cases h
  | succ n ih =>
    rw [generateMany_succ] at h
    split at h
    · next e' g₁ hfirst =>
      obtain ⟨rfl, rfl⟩ : e' = e ∧ g = g' := by simpa using h
      obtain ⟨-, rfl⟩ := generate_eq_error_iff.1 hfirst
      exact ⟨rfl, [], g₁, Nat.succ_pos n, .none g₁, hfirst⟩
    · next d g₁ hfirst =>
      split at h
      · next e' g₂ hothers =>
        obtain ⟨rfl, rfl⟩ : e' = e ∧ g = g' := by simpa using h
        obtain ⟨-, ds, g₃, hlength, hsuccessive, hfails⟩ := ih hothers
        exact ⟨rfl, d :: ds, g₃, Nat.succ_lt_succ hlength, .next hfirst hsuccessive, hfails⟩
      · cases h

end BnfSentences.Generator
