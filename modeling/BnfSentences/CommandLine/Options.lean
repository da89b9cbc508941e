import BnfSentences.Text.Numeral

/-!
# Command lines

`Options.parse` reads the arguments from left to right, one step for each. It
ends early at a request for help or for the version, or at the first misuse.
-/

namespace BnfSentences

structure Options where
  file : Text
  symbol : Option Text
  count : UInt64
  seed : Option UInt64
  list : Bool
  json : Bool
  deriving DecidableEq, Repr

namespace Options

inductive Misuse where
  | unknownArgument (argument : Text)
  | repeatedOption (name : Text)
  | missingValue (name : Text)
  | invalidValue (name value : Text)
  | unexpectedValue (name value : Text)
  | missingFile
  deriving DecidableEq, Repr

/-- Why the reading of a command line ends before it is followed. -/
inductive Stop where
  | help
  | version
  | misuse (why : Misuse)
  deriving DecidableEq, Repr

inductive Setting where
  | count
  | seed
  deriving DecidableEq, Repr

structure Progress where
  file : Option Text := none
  symbol : Option Text := none
  count : Option UInt64 := none
  seed : Option UInt64 := none
  list : Bool := false
  json : Bool := false
  /-- The option whose number the next argument has to be. -/
  awaiting : Option Setting := none
  /-- Whether all further arguments are operands. -/
  operandsOnly : Bool := false
  deriving DecidableEq, Repr

/-! ### Names -/

def Setting.name : Setting → Text
  | .count => "count".toList
  | .seed => "seed".toList

def listName : Text := "list".toList

def jsonName : Text := "json".toList

def helpName : Text := "help".toList

def versionName : Text := "version".toList

/-- The argument after which all others are operands. -/
def terminator : Text := "--".toList

/-! ### One argument -/

namespace Progress

def assign (p : Progress) (setting : Setting) (value : Text) : Except Stop Progress :=
  match Numeral.readCount value with
  | none => .error (.misuse (.invalidValue setting.name value))
  | some n =>
    match setting with
    | .count =>
      if p.count.isSome then .error (.misuse (.repeatedOption setting.name))
      else .ok { p with count := some n }
    | .seed =>
      if p.seed.isSome then .error (.misuse (.repeatedOption setting.name))
      else .ok { p with seed := some n }

def assignOrAwait (p : Progress) (setting : Setting) : Option Text → Except Stop Progress
  | some value => p.assign setting value
  | none => .ok { p with awaiting := some setting }

/-- An argument that is no option: the first is the file, the second the symbol. -/
def operand (p : Progress) (argument : Text) : Except Stop Progress :=
  match p.file, p.symbol with
  | none, _ =>
    if argument.isEmpty then .error (.misuse (.invalidValue "file".toList argument))
    else .ok { p with file := some argument }
  | some _, none => .ok { p with symbol := some argument }
  | some _, some _ => .error (.misuse (.unknownArgument argument))

def long (p : Progress) (name : Text) (value : Option Text) : Except Stop Progress :=
  if name = Setting.count.name then p.assignOrAwait .count value
  else if name = Setting.seed.name then p.assignOrAwait .seed value
  else if name ∈ [listName, jsonName, helpName, versionName] then
    match value with
    | some value => .error (.misuse (.unexpectedValue name value))
    | none =>
      if name = helpName then .error .help
      else if name = versionName then .error .version
      else if name = listName then
        if p.list then .error (.misuse (.repeatedOption name)) else .ok { p with list := true }
      else if p.json then .error (.misuse (.repeatedOption name))
      else .ok { p with json := true }
  else .error (.misuse (.unknownArgument name))

/-- A short option, and the rest of its argument. Help and version end the reading
at once; a count takes the rest, from which an equals sign is left out. -/
def short (p : Progress) (name : Char) (rest : Text) : Except Stop Progress :=
  if name = 'h' then .error .help
  else if name = 'V' then .error .version
  else if name = 'n' then
    match rest with
    | [] => p.assignOrAwait .count none
    | '=' :: value => p.assign .count value
    | value => p.assign .count value
  else .error (.misuse (.unknownArgument (name :: rest)))

/-- The next argument. What an option awaits is never taken for an option itself,
and since no number starts with a hyphen such an argument is a misuse there. -/
def step (p : Progress) (argument : Text) : Except Stop Progress :=
  match p.awaiting with
  | some setting => { p with awaiting := none }.assign setting argument
  | none =>
    if p.operandsOnly then p.operand argument
    else if argument = terminator then .ok { p with operandsOnly := true }
    else
      match argument with
      | '-' :: '-' :: long =>
        match Text.cutFirst ['='] long with
        | some (name, value) => p.long name (some value)
        | none => p.long long none
      | '-' :: name :: rest => p.short name rest
      | _ => p.operand argument

def finish (p : Progress) : Except Stop Options :=
  match p.awaiting, p.file with
  | some setting, _ => .error (.misuse (.missingValue setting.name))
  | none, none => .error (.misuse .missingFile)
  | none, some file => .ok
    { file, symbol := p.symbol, count := p.count.getD 1, seed := p.seed
      list := p.list, json := p.json }

end Progress

def parse (arguments : List Text) : Except Stop Options := do
  (← arguments.foldlM Progress.step {}).finish

/-! ### Messages -/

def Misuse.message : Misuse → Text
  | .unknownArgument a => "unexpected argument ".toList ++ a
  | .repeatedOption n => "repeated option --".toList ++ n
  | .missingValue n => "missing value of --".toList ++ n
  | .invalidValue n v => "invalid value of ".toList ++ n ++ ": ".toList ++ v
  | .unexpectedValue n v => "unexpected value of --".toList ++ n ++ ": ".toList ++ v
  | .missingFile => "missing grammar file".toList

def versionText : Text :=
  "grammar-solver 0.1.0\n".toList

def helpText : Text :=
  "Random sentence generator for context-free grammars written in BNF notation

Usage: grammar-solver [OPTIONS] <GRAMMAR_FILE> [SYMBOL]

Arguments:
  <GRAMMAR_FILE>  Path to the grammar file, one declaration per line
  [SYMBOL]        Symbol to generate; prompts interactively when omitted

Options:
  -n, --count <COUNT>  Number of sentences to generate [default: 1]
      --seed <SEED>    Seed for reproducible output
      --list           Print the grammar's non-terminals and exit
      --json           Print the grammar's symbol table as JSON and exit
  -h, --help           Print help
  -V, --version        Print version
".toList

end Options

end BnfSentences
