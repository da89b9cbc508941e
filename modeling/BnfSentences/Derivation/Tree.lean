import BnfSentences.Derivation.Basic

/-!
# Derivation trees

A tree says how a sentence derives from a symbol, apart from any source of words.
Its leaves are the terminals from left to right, its trace lists the replacements
in the order in which a derivation makes them.
-/

namespace BnfSentences

/-- A terminal that stands for itself, or a non-terminal with the alternative that
replaces it and a tree for each token of that. -/
inductive Tree where
  | leaf (symbol : Text)
  | node (symbol : Text) (production : Production) (children : List Tree)

namespace Tree

def root : Tree → Text
  | .leaf s => s
  | .node s _ _ => s

mutual

def leaves : Tree → List Text
  | .leaf s => [s]
  | .node _ _ ts => leavesOf ts

def leavesOf : List Tree → List Text
  | [] => []
  | t :: ts => leaves t ++ leavesOf ts

end

mutual

/-- The replacements in a tree, a node before its children. -/
def trace : Tree → List Expansion
  | .leaf _ => []
  | .node s p ts => ⟨s, p⟩ :: traceOf ts

def traceOf : List Tree → List Expansion
  | [] => []
  | t :: ts => trace t ++ traceOf ts

end

mutual

def height : Tree → Nat
  | .leaf _ => 1
  | .node _ _ ts => heightOf ts + 1

def heightOf : List Tree → Nat
  | [] => 0
  | t :: ts => max (height t) (heightOf ts)

end

def sentence (t : Tree) : Text :=
  [' '].intercalate t.leaves

end Tree

/-- A tree of a grammar: what it replaces is declared with the alternative it takes
and has a child for each token in order, and what it leaves is not declared. -/
inductive Grammar.HasTree (g : Grammar) : Tree → Prop where
  | leaf {symbol : Text} (h : g.productions? symbol = none) : HasTree g (.leaf symbol)
  | node {symbol : Text} {alternatives : List Production} {p : Production} {children : List Tree}
      (declared : g.productions? symbol = some alternatives) (mem : p ∈ alternatives)
      (tokens : children.map Tree.root = p.tokens) (trees : ∀ t ∈ children, HasTree g t) :
      HasTree g (.node symbol p children)

end BnfSentences
