import BnfSentences.Json.Basic
import BnfSentences.Text.Blank

/-!
# Productions

A production is one alternative of a non-terminal: the tokens it puts in its
place. `ofText` cuts a text into tokens and `text` writes them with single spaces.
-/

namespace BnfSentences

/-- The tokens of an alternative, in order; each is a non-terminal or a terminal. -/
structure Production where
  tokens : List Text
  deriving DecidableEq, Repr

namespace Production

/-- The alternative that a text describes. A blank text has no tokens. -/
def ofText (s : Text) : Production :=
  ⟨Text.words (Text.trim s)⟩

def isEmpty (p : Production) : Bool :=
  p.tokens.isEmpty

def text (p : Production) : Text :=
  [' '].intercalate p.tokens

def json (p : Production) : Json :=
  .arr (p.tokens.map Json.text)

end Production

end BnfSentences
