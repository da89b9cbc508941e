import BnfSentences.Text.Quoted

/-!
# Errors

What can go wrong, as causes. `message` is the sentence a caller shows, and
`report` the line that the command line prints before it fails.
-/

namespace BnfSentences

/-- Why a file or an input stream cannot be read as text. -/
inductive ReadFault where
  | notFound
  | isDirectory
  | notUtf8
  deriving DecidableEq, Repr

inductive Error where
  | missingSeparator (declaration : Text)
  | missingName (declaration : Text)
  | duplicateName (name : Text)
  | noDeclarations
  | emptySymbol
  | unreadable (fault : ReadFault)
  /-- A derivation that goes deeper, or a choice that rejects more words, than allowed. -/
  | limitReached
  deriving DecidableEq, Repr

namespace ReadFault

def message : ReadFault → Text
  | .notFound => "No such file or directory (os error 2)".toList
  | .isDirectory => "Is a directory (os error 21)".toList
  | .notUtf8 => "stream did not contain valid UTF-8".toList

def report : ReadFault → Text
  | .notFound =>
    "Os \x7b code: 2, kind: NotFound, message: \"No such file or directory\" \x7d".toList
  | .isDirectory =>
    "Os \x7b code: 21, kind: IsADirectory, message: \"Is a directory\" \x7d".toList
  | .notUtf8 =>
    "Error \x7b kind: InvalidData, message: \"stream did not contain valid UTF-8\" \x7d".toList

end ReadFault

namespace Error

/-- Whether the caller's input is at fault, and not the file or stream it is read from. -/
def isInvalidArgument : Error → Bool
  | .unreadable _ => false
  | _ => true

section

variable (h : Text.Hiding)

def detailIn : Error → Text
  | .missingSeparator d => "declaration has no `::=`: ".toList ++ h.quote d
  | .missingName d => "declaration has no non-terminal: ".toList ++ h.quote d
  | .duplicateName n => "duplicate non-terminal: ".toList ++ n
  | .noDeclarations => "rule list must not be empty".toList
  | .emptySymbol => "symbol must not be empty".toList
  | .unreadable fault => fault.message
  | .limitReached => "derivation limit reached".toList

/-- The message of an error, if `h` has the hidden characters. -/
def messageIn (e : Error) : Text :=
  (if e.isInvalidArgument then "Invalid argument: ".toList else "IO error: ".toList) ++
    e.detailIn h

/-- The cause as a report shows it, the words of an invalid argument quoted. -/
def reportIn : Error → Text
  | .unreadable fault => "Io(".toList ++ fault.report ++ [')']
  | e => "InvalidArgument(".toList ++ h.quote (e.detailIn h) ++ [')']

end

def message (e : Error) : Text :=
  e.messageIn .unicode

def report (e : Error) : Text :=
  e.reportIn .unicode

end Error

end BnfSentences
