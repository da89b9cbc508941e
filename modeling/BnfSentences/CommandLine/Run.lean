import BnfSentences.CommandLine.Options
import BnfSentences.CommandLine.Session

/-!
# Runs of the program

What the program writes, and the status it exits with, for its arguments, the
files it finds and the octets it reads from its input.
-/

namespace BnfSentences

universe u

structure Report where
  status : Nat
  stdout : Text
  stderr : Text
  deriving DecidableEq, Repr

namespace Report

def success (stdout : Text) : Report := ⟨0, stdout, []⟩

def failure (stdout cause : Text) : Report :=
  ⟨1, stdout, "Error: ".toList ++ cause ++ ['\n']⟩

def ofStop : Options.Stop → Report
  | .help => success Options.helpText
  | .version => success Options.versionText
  | .misuse why => ⟨2, [], "error: ".toList ++ why.message ++ ['\n']⟩

def ofConversation (output : Text) : Session.Ending → Report
  | .finished => success output
  | .unreadable => failure output ReadFault.notUtf8.report
  | .failed e => failure output e.report

end Report

namespace Options

def load (o : Options) (fresh : ChaCha.Key) (file : FileContent) :
    Except Error (Generator ChaCha) := do
  Generator.ofConfig fresh (← Grammar.declarationsOfFile file) ⟨o.seed⟩

variable {σ : Type u} [Source σ]

def sentences (o : Options) (lim : Limits) (g : Generator σ) (symbol : Text) : Report :=
  match (g.generateMany lim symbol o.count.toNat).1 with
  | .error e => .failure [] e.report
  | .ok ds => .success (numbered 1 ds)

/-- What a command line does with its generator: a report, or without a symbol a
session. JSON goes before the list, and both before sentences. -/
def follow (o : Options) (lim : Limits) (g : Generator σ) : Report ⊕ Session σ :=
  if o.json then .inl (.success (g.grammar.json.pretty ++ ['\n']))
  else if o.list then .inl (.success (g.grammar.symbols.flatMap (· ++ ['\n'])))
  else
    match o.symbol with
    | some symbol => .inl (o.sentences lim g symbol)
    | none => .inr { generator := g }

def start (o : Options) (lim : Limits) (fresh : ChaCha.Key) (file : FileContent) :
    Report ⊕ Session ChaCha :=
  match o.load fresh file with
  | .error e => .inl (.failure [] e.report)
  | .ok g => o.follow lim g

end Options

namespace Session

variable {σ : Type u} [Source σ]

def report (lim : Limits) (s : Session σ) (stdin : Bytes) : Report :=
  let (output, ending) := s.converse lim (Utf8.cutLines stdin)
  .ofConversation (opening s.generator.grammar ++ output) ending

end Session

/-- The report of a run, for the arguments, what stands under each path, a fresh
key, and all that the input holds. -/
def Report.ofRun (lim : Limits) (arguments : List Text) (files : Text → FileContent)
    (fresh : ChaCha.Key) (stdin : Bytes) : Report :=
  match Options.parse arguments with
  | .error stop => .ofStop stop
  | .ok o =>
    match o.start lim fresh (files o.file) with
    | .inl report => report
    | .inr session => session.report lim stdin

end BnfSentences
