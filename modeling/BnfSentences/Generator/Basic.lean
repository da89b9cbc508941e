import BnfSentences.Config
import BnfSentences.Derivation.Basic
import BnfSentences.Grammar.Loading
import BnfSentences.Source.ChaCha

/-!
# Generators

A generator is a grammar with a source of its own. Every successful derivation
moves that source on, so a run of calls continues where the last one stopped.
-/

namespace BnfSentences

universe u

structure Generator (σ : Type u) where
  grammar : Grammar
  source : σ

namespace Generator

/-- The generator of some declarations, with a source that the seed of the
configuration fixes or, without a seed, a fresh key. -/
def ofConfig (fresh : ChaCha.Key) (declarations : List Text) (c : Config) :
    Except Error (Generator ChaCha) := do
  let g ← Grammar.ofDeclarations declarations
  return ⟨g, match c.seed with
    | none => .ofKey fresh
    | some seed => .ofSeed seed⟩

variable {σ : Type u} [Source σ]

/-- One derivation from a symbol. A call that fails does not touch the source. -/
def generate (lim : Limits) (g : Generator σ) (symbol : Text) :
    Except Error Derivation × Generator σ :=
  match g.grammar.derive lim symbol g.source with
  | .error e => (.error e, g)
  | .ok (d, s) => (.ok d, { g with source := s })

/-- Derivations from a symbol one after another, or the error of the first that fails. -/
def generateMany (lim : Limits) (g : Generator σ) (symbol : Text) (times : Nat) :
    Except Error (List Derivation) × Generator σ :=
  match g.grammar.deriveMany lim symbol times g.source with
  | .error e => (.error e, g)
  | .ok (ds, s) => (.ok ds, { g with source := s })

end Generator

end BnfSentences
