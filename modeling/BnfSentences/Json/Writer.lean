import BnfSentences.Json.Basic

/-!
# Writing JSON

A `Layout` says what stands around the elements of arrays and objects. There are
two, `compact` without blanks and `pretty` with one element on a line.
-/

namespace BnfSentences.Json

/-- The blanks of a written value: `before depth` in front of the elements at that
depth and of the bracket after them, `afterColon` between a key and its value. -/
structure Layout where
  before : Nat → Text
  afterColon : Text

def Layout.compact : Layout := ⟨fun _ => [], []⟩

/-- A line for each element, indented by two spaces for each depth. -/
def Layout.pretty : Layout := ⟨fun depth => '\n' :: List.replicate (2 * depth) ' ', [' ']⟩

def hexUnit (n : Nat) : Text :=
  [n / 0x1000 % 16, n / 0x100 % 16, n / 0x10 % 16, n % 16].map Nat.digitChar

/-- The characters that stand for a code point in a string. Only quotation marks,
backslashes, control characters below the space and surrogates are escaped. -/
def writeCodePoint (n : Nat) : Text :=
  if n = 0x22 then ['\\', '"']
  else if n = 0x5C then ['\\', '\\']
  else if n = 0x08 then ['\\', 'b']
  else if n = 0x0C then ['\\', 'f']
  else if n = 0x0A then ['\\', 'n']
  else if n = 0x0D then ['\\', 'r']
  else if n = 0x09 then ['\\', 't']
  else if n < 0x20 ∨ ¬ n.isValidChar then ['\\', 'u'] ++ hexUnit n
  else [Char.ofNat n]

def writeString (s : CodePoints) : Text :=
  '"' :: s.flatMap writeCodePoint ++ ['"']

mutual

def write (l : Layout) (depth : Nat) : Json → Text
  | .null => "null".toList
  | .bool true => "true".toList
  | .bool false => "false".toList
  | .num literal => literal
  | .str s => writeString s
  | .arr [] => ['[', ']']
  | .arr (v :: vs) =>
    '[' :: l.before (depth + 1) ++ write l (depth + 1) v ++ writeElements l depth vs
  | .obj [] => ['\x7b', '\x7d']
  | .obj ((key, v) :: ms) =>
    '\x7b' :: l.before (depth + 1) ++ writeString key ++ ':' :: l.afterColon ++
      write l (depth + 1) v ++ writeMembers l depth ms

/-- The elements after the first of an array at a depth, and its end. -/
def writeElements (l : Layout) (depth : Nat) : List Json → Text
  | [] => l.before depth ++ [']']
  | v :: vs =>
    ',' :: l.before (depth + 1) ++ write l (depth + 1) v ++ writeElements l depth vs

def writeMembers (l : Layout) (depth : Nat) : List (CodePoints × Json) → Text
  | [] => l.before depth ++ ['\x7d']
  | (key, v) :: ms =>
    ',' :: l.before (depth + 1) ++ writeString key ++ ':' :: l.afterColon ++
      write l (depth + 1) v ++ writeMembers l depth ms

end

def compact (v : Json) : Text :=
  write .compact 0 v

def pretty (v : Json) : Text :=
  write .pretty 0 v

end BnfSentences.Json
