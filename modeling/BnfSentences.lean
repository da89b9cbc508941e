import BnfSentences.CommandLine.Options
import BnfSentences.CommandLine.Run
import BnfSentences.CommandLine.Session
import BnfSentences.Config
import BnfSentences.Derivation.Basic
import BnfSentences.Derivation.Tree
import BnfSentences.Error
import BnfSentences.Generator.Basic
import BnfSentences.Generator.Threads
import BnfSentences.Generator.Workspace
import BnfSentences.Grammar.Basic
import BnfSentences.Grammar.Loading
import BnfSentences.Grammar.Production
import BnfSentences.Grammar.Reachable
import BnfSentences.Grammar.Rule
import BnfSentences.Grammar.WellFormed
import BnfSentences.Json.Basic
import BnfSentences.Json.Reader
import BnfSentences.Json.Token
import BnfSentences.Json.Writer
import BnfSentences.Main
import BnfSentences.Proofs.CommandLine.Arguments
import BnfSentences.Proofs.CommandLine.Batch
import BnfSentences.Proofs.CommandLine.Listing
import BnfSentences.Proofs.CommandLine.Refusals
import BnfSentences.Proofs.CommandLine.Rounds
import BnfSentences.Proofs.CommandLine.Sentences
import BnfSentences.Proofs.CommandLine.Status
import BnfSentences.Proofs.Derivation.Calls
import BnfSentences.Proofs.Derivation.Completeness
import BnfSentences.Proofs.Derivation.Limits
import BnfSentences.Proofs.Derivation.Locality
import BnfSentences.Proofs.Derivation.Prefixes
import BnfSentences.Proofs.Derivation.Queries
import BnfSentences.Proofs.Derivation.Replay
import BnfSentences.Proofs.Derivation.Soundness
import BnfSentences.Proofs.Derivation.Spacing
import BnfSentences.Proofs.Derivation.Steps
import BnfSentences.Proofs.Derivation.Termination
import BnfSentences.Proofs.Derivation.Traces
import BnfSentences.Proofs.Derivation.Trees
import BnfSentences.Proofs.Generator.Schedules
import BnfSentences.Proofs.Generator.Successive
import BnfSentences.Proofs.Generator.Workspaces
import BnfSentences.Proofs.Grammar.Accepted
import BnfSentences.Proofs.Grammar.Composition
import BnfSentences.Proofs.Grammar.Construction
import BnfSentences.Proofs.Grammar.Declarations
import BnfSentences.Proofs.Grammar.Faults
import BnfSentences.Proofs.Grammar.Files
import BnfSentences.Proofs.Grammar.Layout
import BnfSentences.Proofs.Grammar.Presentation
import BnfSentences.Proofs.Grammar.Ranks
import BnfSentences.Proofs.Grammar.RoundTrip
import BnfSentences.Proofs.Grammar.SymbolTable
import BnfSentences.Proofs.Grammar.Table
import BnfSentences.Proofs.Grammar.Tokens
import BnfSentences.Proofs.Json.Configuration
import BnfSentences.Proofs.Json.Lexemes
import BnfSentences.Proofs.Json.Pieces
import BnfSentences.Proofs.Json.Spelling
import BnfSentences.Proofs.Json.Tokens
import BnfSentences.Proofs.Json.Writing
import BnfSentences.Proofs.Source.Choice
import BnfSentences.Proofs.Source.Uniform
import BnfSentences.Proofs.Text.Lines
import BnfSentences.Proofs.Text.Numeral
import BnfSentences.Proofs.Text.Order
import BnfSentences.Proofs.Text.Runs
import BnfSentences.Proofs.Text.Separators
import BnfSentences.Proofs.Text.Trimming
import BnfSentences.Proofs.Text.Utf8
import BnfSentences.Proofs.Text.Words
import BnfSentences.Source.Basic
import BnfSentences.Source.ChaCha
import BnfSentences.Source.Choice
import BnfSentences.Source.Tape
import BnfSentences.Text.Basic
import BnfSentences.Text.Blank
import BnfSentences.Text.Hidden
import BnfSentences.Text.Lines
import BnfSentences.Text.Numeral
import BnfSentences.Text.Order
import BnfSentences.Text.Quoted
import BnfSentences.Text.Utf8
