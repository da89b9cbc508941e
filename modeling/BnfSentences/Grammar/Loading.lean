import BnfSentences.Grammar.Basic
import BnfSentences.Text.Lines
import BnfSentences.Text.Utf8

/-!
# Loading grammars

A grammar text has one declaration on a line; blank lines and lines that start
with `#` are left out. A text is cut into lines as a whole, a file octet by
octet with every line decoded on its own.
-/

namespace BnfSentences

inductive FileContent where
  | missing
  | directory
  | bytes (content : Bytes)

namespace Grammar

/-- Whether a line declares a rule: it is not blank and not a comment. -/
def isDeclaration (line : Text) : Bool :=
  let trimmed := Text.trim line
  !trimmed.isEmpty && trimmed.head? != some '#'

/-! ### Texts -/

def declarationsOfText (s : Text) : List Text :=
  (Text.lines s).filter isDeclaration

def ofText (s : Text) : Except Error Grammar :=
  ofDeclarations (declarationsOfText s)

/-! ### Files -/

/-- A line as it was read, without the newline that ends it and a return before that. -/
def stripEnd (line : Text) : Text :=
  match line.reverse with
  | '\n' :: '\r' :: s => s.reverse
  | '\n' :: s => s.reverse
  | _ => line

/-- The lines of a file that declare rules. Every line has to be UTF-8, also one
that declares none. -/
def declarationsOfBytes (bs : Bytes) : Except Error (List Text) := do
  let lines ← (Utf8.cutLines bs).mapM fun piece =>
    match Utf8.decode piece with
    | none => throw (.unreadable .notUtf8)
    | some line => pure (stripEnd line)
  pure (lines.filter isDeclaration)

def declarationsOfFile : FileContent → Except Error (List Text)
  | .missing => .error (.unreadable .notFound)
  | .directory => .error (.unreadable .isDirectory)
  | .bytes bs => declarationsOfBytes bs

def ofFile (file : FileContent) : Except Error Grammar := do
  ofDeclarations (← declarationsOfFile file)

end Grammar

end BnfSentences
