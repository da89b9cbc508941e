import BnfSentences.Grammar.Rule
import BnfSentences.Text.Order

/-!
# Grammars

A grammar is the table of its rules, sorted by name. `ofDeclarations` builds it
and refuses the first declaration that is no rule or names one again.
-/

namespace BnfSentences

/-- The rules of a grammar, in the order of their names. -/
structure Grammar where
  rules : List Rule
  deriving DecidableEq, Repr

namespace Grammar

/-! ### Building -/

/-- A sorted table with one rule more, unless the table has a rule of that name. -/
def insert (r : Rule) : List Rule → Option (List Rule)
  | [] => some [r]
  | q :: qs =>
    if Text.precedes r.name q.name then some (r :: q :: qs)
    else if r.name = q.name then none
    else (insert r qs).map (q :: ·)

def declare (table : List Rule) (declaration : Text) : Except Error (List Rule) := do
  let r ← Rule.parse declaration
  match insert r table with
  | none => throw (.duplicateName r.name)
  | some table => pure table

/-- The grammar of some declarations, or the first fault among them. -/
def ofDeclarations (declarations : List Text) : Except Error Grammar := do
  let table ← declarations.foldlM declare []
  if table.isEmpty then throw .noDeclarations else pure ⟨table⟩

/-! ### Queries -/

def rule? (g : Grammar) (name : Text) : Option Rule :=
  g.rules.find? (·.name == name)

/-- The alternatives of a non-terminal; a terminal has none. -/
def productions? (g : Grammar) (symbol : Text) : Option (List Production) :=
  (g.rule? symbol).map Rule.alternatives

def symbols (g : Grammar) : List Text :=
  g.rules.map Rule.name

/-- Whether a symbol is a non-terminal. The empty text is no symbol. -/
def contains (g : Grammar) (symbol : Text) : Except Error Bool :=
  if symbol.isEmpty then .error .emptySymbol else .ok (g.rule? symbol).isSome

def json (g : Grammar) : Json :=
  .object [("rules".toList,
    .object (g.rules.map fun r => (r.name, .arr (r.alternatives.map Production.json))))]

end Grammar

end BnfSentences
