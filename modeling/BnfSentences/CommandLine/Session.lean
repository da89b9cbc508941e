import BnfSentences.Generator.Basic

/-!
# Sessions

A session asks for a symbol and for a count, line by line, and answers with as
many sentences. `react` is the answer to one line, `converse` to all of them.
-/

namespace BnfSentences

universe u

/-- Sentences on lines of their own, numbered from `first`. -/
def numbered (first : Nat) : List Derivation → Text
  | [] => []
  | d :: ds =>
    Numeral.print first ++ ['.', ' '] ++ d.sentence ++ '\n' :: numbered (first + 1) ds

inductive Stage where
  | symbol
  | count (symbol : Text)

/-- A generator in conversation with a user. -/
structure Session (σ : Type u) where
  generator : Generator σ
  stage : Stage := .symbol

namespace Session

inductive Ending where
  | finished
  | unreadable
  | failed (error : Error)

/-- The answer to a line: an end, or some output and the session after it. -/
inductive Reaction (σ : Type u) where
  | stop (ending : Ending)
  | go (output : Text) (next : Session σ)

/-! ### What a session says -/

def askSymbol : Text :=
  "What do you want to generate (Enter to quit)? ".toList

def askCount : Text :=
  "How many do you want me to generate? ".toList

def notANumber (answer : Text) : Text :=
  "Not a number: ".toList ++ answer ++ ['\n']

def opening (g : Grammar) : Text :=
  "Available symbols to generate are:\n[".toList ++ [',', ' '].intercalate g.symbols ++
    "]\n".toList ++ askSymbol

/-! ### Line by line -/

variable {σ : Type u} [Source σ]

/-- The answer to a line in words. A blank symbol ends the session; a count that
is no number brings the question for a symbol back. -/
def reactTo (lim : Limits) (s : Session σ) (line : Text) : Reaction σ :=
  match s.stage with
  | .symbol =>
    if line.isEmpty then .stop .finished else .go askCount { s with stage := .count line }
  | .count symbol =>
    match Numeral.readCount line with
    | none => .go (notANumber line ++ askSymbol) { s with stage := .symbol }
    | some n =>
      match s.generator.generateMany lim symbol n.toNat with
      | (.error e, _) => .stop (.failed e)
      | (.ok ds, g) => .go (numbered 1 ds ++ '\n' :: askSymbol) ⟨g, .symbol⟩

/-- The answer to a line as it was read, with the newline that ends it. -/
def react (lim : Limits) (s : Session σ) (line : Bytes) : Reaction σ :=
  match Utf8.decode line with
  | none => .stop .unreadable
  | some line => s.reactTo lim (Text.trim line)

/-- What a session says to lines, and how it ends: with them, if not before. -/
def converse (lim : Limits) : Session σ → List Bytes → Text × Ending
  | _, [] => ([], .finished)
  | s, line :: lines =>
    match s.react lim line with
    | .stop ending => ([], ending)
    | .go output next =>
      let (rest, ending) := next.converse lim lines
      (output ++ rest, ending)

end Session

end BnfSentences
