import BnfSentences.Generator.Threads

/-!
# Workspaces

A workspace holds a generator and the sources that callers keep beside it, each
under a name. `answer` answers one request and says what the workspace is after it.
-/

namespace BnfSentences

universe u v

/-- A source that a caller keeps, and how many words were drawn from it so far. -/
structure CallerSource (τ : Type v) where
  source : τ
  drawn : Nat := 0

structure Workspace (σ : Type u) (τ : Type v) where
  generator : Generator σ
  callers : List (Text × CallerSource τ) := []

inductive Request (τ : Type v) where
  | contains (symbol : Text)
  | symbols
  | productions (symbol : Text)
  | rules
  | json (layout : Json.Layout)
  | generate (symbol : Text) (times : Nat)
  | define (name : Text) (source : τ)
  | generateWith (name symbol : Text) (times : Nat)
  /-- Derivations that threads ask for at the same time. -/
  | concurrent (symbol : Text) (threads times : Nat)

inductive Answer where
  | contains (declared : Bool)
  | symbols (names : List Text)
  | productions (alternatives : Option (List Production))
  | rules (table : List Rule)
  | json (text : Text)
  | generated (derivations : List Derivation)
  | defined
  /-- Derivations, and the number of words drawn from the source since it was defined. -/
  | generatedWith (derivations : List Derivation) (drawn : Nat)
  | concurrent (sentences : List Text)
  | undefinedSource
  | failed (error : Error)

namespace Workspace

variable {σ : Type u} {τ : Type v} [Source σ] [Source τ]

def caller? (w : Workspace σ τ) (name : Text) : Option (CallerSource τ) :=
  (w.callers.find? (·.1 == name)).map Prod.snd

def setCaller (w : Workspace σ τ) (name : Text) (c : CallerSource τ) : Workspace σ τ :=
  { w with callers := (name, c) :: w.callers.filter (·.1 != name) }

/-- The sentences of the calls that threads make at the same time, sorted since
the order of the calls is open, and the generator after them. -/
def concurrently (lim : Limits) (g : Generator σ) (symbol : Text) (threads times : Nat) :
    Except Error (List Text) × Generator σ :=
  let (answers, t) := (Threads.calling g symbol threads times).run lim (Threads.turns threads times)
  let sentences := answers.mapM fun answer => answer.map Derivation.sentence
  (sentences.map Text.sort, t.generator)

def answer (lim : Limits) (w : Workspace σ τ) : Request τ → Answer × Workspace σ τ
  | .contains symbol =>
    match w.generator.grammar.contains symbol with
    | .error e => (.failed e, w)
    | .ok b => (.contains b, w)
  | .symbols => (.symbols w.generator.grammar.symbols, w)
  | .productions symbol => (.productions (w.generator.grammar.productions? symbol), w)
  | .rules => (.rules w.generator.grammar.rules, w)
  | .json layout => (.json (w.generator.grammar.json.write layout 0), w)
  | .generate symbol times =>
    match w.generator.generateMany lim symbol times with
    | (.error e, g) => (.failed e, { w with generator := g })
    | (.ok ds, g) => (.generated ds, { w with generator := g })
  | .define name source => (.defined, w.setCaller name ⟨source, 0⟩)
  | .generateWith name symbol times =>
    match w.caller? name with
    | none => (.undefinedSource, w)
    | some c =>
      match w.generator.grammar.deriveMany lim symbol times c.source with
      | .error e => (.failed e, w)
      | .ok (ds, s) =>
        let drawn := c.drawn + Derivation.totalDraws ds
        (.generatedWith ds drawn, w.setCaller name ⟨s, drawn⟩)
  | .concurrent symbol threads times =>
    match concurrently lim w.generator symbol threads times with
    | (.error e, g) => (.failed e, { w with generator := g })
    | (.ok sentences, g) => (.concurrent sentences, { w with generator := g })

def answerAll (lim : Limits) : List (Request τ) → Workspace σ τ → List Answer × Workspace σ τ
  | [], w => ([], w)
  | r :: rs, w =>
    let (a, w) := w.answer lim r
    let (as, w) := answerAll lim rs w
    (a :: as, w)

end Workspace

end BnfSentences
