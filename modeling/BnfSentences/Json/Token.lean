import BnfSentences.Json.Basic

/-!
# Tokens of JSON

`lex` cuts a text into tokens, character by character, and leaves out the
blanks between them. It refuses every token that JSON does not have.
-/

namespace BnfSentences.Json

inductive Token where
  | openArray
  | closeArray
  | openObject
  | closeObject
  | comma
  | colon
  | null
  | bool (value : Bool)
  | num (literal : Text)
  | str (value : CodePoints)

/-! ### Numbers -/

def isExponent : Text → Bool
  | [] => true
  | e :: s =>
    let digits := match s with
      | '+' :: r => r
      | '-' :: r => r
      | r => r
    (e == 'e' || e == 'E') && !digits.isEmpty && digits.all Char.isDigit

def isFraction : Text → Bool
  | '.' :: s => !(s.takeWhile Char.isDigit).isEmpty && isExponent (s.dropWhile Char.isDigit)
  | s => isExponent s

/-- Whether a run of characters is a number: no plus sign, no leading zero, and
a digit on each side of a point. -/
def isNumber (s : Text) : Bool :=
  let unsigned := match s with
    | '-' :: r => r
    | r => r
  let whole := unsigned.takeWhile Char.isDigit
  !whole.isEmpty && (whole == ['0'] || whole.head? != some '0') &&
    isFraction (unsigned.dropWhile Char.isDigit)

namespace Token

def mark? : Char → Option Token
  | '[' => some .openArray
  | ']' => some .closeArray
  | '\x7b' => some .openObject
  | '\x7d' => some .closeObject
  | ',' => some .comma
  | ':' => some .colon
  | _ => none

def ofRun (run : Text) : Option Token :=
  if run = "null".toList then some .null
  else if run = "true".toList then some (.bool true)
  else if run = "false".toList then some (.bool false)
  else if isNumber run then some (.num run)
  else none

end Token

/-! ### Strings -/

def escaped? : Char → Option Nat
  | '"' => some 0x22
  | '\\' => some 0x5C
  | '/' => some 0x2F
  | 'b' => some 0x08
  | 'f' => some 0x0C
  | 'n' => some 0x0A
  | 'r' => some 0x0D
  | 't' => some 0x09
  | _ => none

def hexDigit? (c : Char) : Option Nat :=
  let n := c.toNat
  if 0x30 ≤ n ∧ n ≤ 0x39 then some (n - 0x30)
  else if 0x41 ≤ n ∧ n ≤ 0x46 then some (n - 0x37)
  else if 0x61 ≤ n ∧ n ≤ 0x66 then some (n - 0x57)
  else none

def isHighSurrogate (n : Nat) : Bool :=
  0xD800 ≤ n && n ≤ 0xDBFF

def isLowSurrogate (n : Nat) : Bool :=
  0xDC00 ≤ n && n ≤ 0xDFFF

/-- The code points of a string in which each surrogate pair is one. -/
def joinPairs : CodePoints → CodePoints
  | high :: low :: ns =>
    if isHighSurrogate high && isLowSurrogate low then
      (0x10000 + (high - 0xD800) * 0x400 + (low - 0xDC00)) :: joinPairs ns
    else high :: joinPairs (low :: ns)
  | ns => ns

/-! ### Cutting a text into tokens -/

def isSpace (c : Char) : Bool :=
  c == ' ' || c == '\t' || c == '\n' || c == '\r'

/-- Where the cutting of a text stands. What a token has so far is in reverse. -/
inductive Mode where
  | between
  | inRun (run : Text)
  | inString (read : CodePoints)
  | inEscape (read : CodePoints)
  /-- In a string, in a `\u` escape, with `left` digits to come after the next. -/
  | inUnit (read : CodePoints) (unit : Nat) (left : Nat)

def start (c : Char) : List Token × Mode :=
  if c = '"' then ([], .inString [])
  else if isSpace c then ([], .between)
  else
    match Token.mark? c with
    | some t => ([t], .between)
    | none => ([], .inRun [c])

def isBare (c : Char) : Bool :=
  c != '"' && !isSpace c && (Token.mark? c).isNone

/-- The tokens that a character completes, and the mode after it. -/
def step : Mode → Char → Option (List Token × Mode)
  | .between, c => some (start c)
  | .inRun run, c =>
    if isBare c then some ([], .inRun (c :: run))
    else (Token.ofRun run.reverse).map fun t => (t :: (start c).1, (start c).2)
  | .inString read, c =>
    if c = '"' then some ([.str (joinPairs read.reverse)], .between)
    else if c = '\\' then some ([], .inEscape read)
    else if c.toNat < 0x20 then none
    else some ([], .inString (c.toNat :: read))
  | .inEscape read, c =>
    if c = 'u' then some ([], .inUnit read 0 3)
    else (escaped? c).map fun n => ([], .inString (n :: read))
  | .inUnit read unit left, c =>
    (hexDigit? c).map fun d =>
      match left with
      | 0 => ([], .inString ((unit * 16 + d) :: read))
      | k + 1 => ([], .inUnit read (unit * 16 + d) k)

def lexFrom : Mode → Text → Option (List Token)
  | .between, [] => some []
  | .inRun run, [] => (Token.ofRun run.reverse).map ([·])
  | _, [] => none
  | mode, c :: s =>
    match step mode c with
    | none => none
    | some (ts, next) => (lexFrom next s).map (ts ++ ·)

def lex (s : Text) : Option (List Token) :=
  lexFrom .between s

end BnfSentences.Json
