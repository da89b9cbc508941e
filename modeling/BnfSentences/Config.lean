import BnfSentences.Json.Reader
import BnfSentences.Json.Writer
import BnfSentences.Text.Numeral

/-!
# Configuration

A configuration is an optional seed. `Config.parse` reads it from JSON, as an
object or as an array of one element, and `Config.json` writes it.
-/

namespace BnfSentences

/-- The seed of the source, if derivations are to be reproducible. -/
structure Config where
  seed : Option UInt64 := none
  deriving DecidableEq, Repr

namespace Config

def seedKey : Text := "seed".toList

/-! ### Reading -/

/-- The seed that a JSON value is: none, or a 64-bit number written in digits alone. -/
def seed? : Json → Option (Option UInt64)
  | .null => some none
  | .num literal => (Numeral.readWord literal).map some
  | _ => none

/-- The configuration that an object or an array is. An object may have other
members, but no key that is not a text, and one seed at most. -/
def ofJson? : Json → Option Config
  | .arr [v] => (seed? v).map (⟨·⟩)
  | .obj ms => do
    let keys ← ms.mapM fun m => CodePoints.text? m.1
    match ((keys.zip (ms.map Prod.snd)).filter (·.1 == seedKey)).map Prod.snd with
    | [] => return ⟨none⟩
    | [v] => return ⟨← seed? v⟩
    | _ => none
  | _ => none

def parse (s : Text) : Option Config :=
  (Json.read s).bind ofJson?

/-! ### Writing -/

def json (c : Config) : Json :=
  .object [(seedKey,
    match c.seed with
    | none => .null
    | some n => .num (Numeral.print n.toNat))]

def describe (c : Config) : Text :=
  "GrammarConfig \x7b seed: ".toList ++
    (match c.seed with
    | none => "None".toList
    | some n => "Some(".toList ++ Numeral.print n.toNat ++ [')']) ++
    " \x7d".toList

end Config

end BnfSentences
