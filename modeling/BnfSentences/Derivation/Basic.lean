import BnfSentences.Grammar.Basic
import BnfSentences.Source.Choice

/-!
# Derivations

`Grammar.derive` derives a sentence from a symbol: it replaces non-terminals by
alternatives that a source of words chooses, from left to right, until only
terminals are left. It reports every replacement and counts the words drawn.

A grammar may be cyclic and a source may reject for ever, so `Limits` bound the
depth of the replacements and the words drawn for one choice.
-/

namespace BnfSentences

/-- How deep a derivation may go, and how many words one choice may draw. -/
structure Limits where
  depth : Nat
  tries : Nat

/-- Limits that no derivation on a real machine comes near. -/
def Limits.ample : Limits := ⟨1 <<< 62, 1 <<< 62⟩

/-- The replacement of a non-terminal by one of its alternatives. -/
structure Expansion where
  symbol : Text
  production : Production
  deriving DecidableEq, Repr

/-- What derives from tokens: the terminals joined by single spaces, the
replacements in the order they were made, and how many words were drawn. -/
structure Derivation where
  sentence : Text
  trace : List Expansion
  draws : Nat
  deriving DecidableEq, Repr

namespace Derivation

def nothing : Derivation := ⟨[], [], 0⟩

def terminal (symbol : Text) : Derivation := ⟨symbol, [], 0⟩

def followedBy (d e : Derivation) : Derivation :=
  ⟨Text.spaced d.sentence e.sentence, d.trace ++ e.trace, d.draws + e.draws⟩

/-- What derives from a symbol if `d` derives from its alternative. -/
def under (d : Derivation) (symbol : Text) (p : Production) (drawn : Nat) : Derivation :=
  ⟨d.sentence, ⟨symbol, p⟩ :: d.trace, drawn + d.draws⟩

def totalDraws (ds : List Derivation) : Nat :=
  ds.foldl (fun n d => n + d.draws) 0

end Derivation

universe u

variable {σ : Type u}

/-- What derives from tokens in a row, given how each of them is expanded. -/
def Derivation.ofTokens (expand : Text → σ → Option (Derivation × σ)) :
    List Text → σ → Option (Derivation × σ)
  | [], s => some (.nothing, s)
  | t :: ts, s => do
    let (d, s) ← expand t s
    let (e, s) ← ofTokens expand ts s
    return (d.followedBy e, s)

variable [Source σ]

namespace Grammar

/-- What derives from a symbol, and the source after it, unless a limit is
reached. A terminal stands for itself. -/
def expand (g : Grammar) (tries : Nat) : Nat → Text → σ → Option (Derivation × σ)
  | 0, _, _ => none
  | depth + 1, symbol, s =>
    match g.productions? symbol with
    | none => some (.terminal symbol, s)
    | some [] => some (.nothing, s)
    | some alternatives => do
      let (p, drawn, s) ← Choice.pick tries alternatives s
      let (d, s) ← Derivation.ofTokens (g.expand tries depth) p.tokens s
      return (d.under symbol p drawn, s)

/-- The derivation that a source chooses. The empty text is no symbol. -/
def derive (g : Grammar) (lim : Limits) (symbol : Text) (s : σ) : Except Error (Derivation × σ) :=
  if symbol.isEmpty then .error .emptySymbol
  else
    match g.expand lim.tries lim.depth symbol s with
    | none => .error .limitReached
    | some (d, s) => .ok (d, s)

def deriveMany (g : Grammar) (lim : Limits) (symbol : Text) :
    Nat → σ → Except Error (List Derivation × σ)
  | 0, s => return ([], s)
  | n + 1, s => do
    let (d, s) ← g.derive lim symbol s
    let (ds, s) ← g.deriveMany lim symbol n s
    return (d :: ds, s)

end Grammar

end BnfSentences
