import BnfSentences.Json.Token

/-!
# Reading JSON

`Json.read` reads a whole text as one value, nested to any depth, by recursive
descent over its tokens. Each call takes a token or starts one below it, so a
budget of two calls for a token never runs out.
-/

namespace BnfSentences.Json

mutual

/-- The value at the front of the tokens, and the tokens after it. -/
def readValue : Nat → List Token → Option (Json × List Token)
  | 0, _ => none
  | _ + 1, .null :: ts => some (.null, ts)
  | _ + 1, .bool b :: ts => some (.bool b, ts)
  | _ + 1, .num literal :: ts => some (.num literal, ts)
  | _ + 1, .str s :: ts => some (.str s, ts)
  | _ + 1, .openArray :: .closeArray :: ts => some (.arr [], ts)
  | n + 1, .openArray :: ts => (readElements n ts).map fun (vs, rest) => (.arr vs, rest)
  | _ + 1, .openObject :: .closeObject :: ts => some (.obj [], ts)
  | n + 1, .openObject :: ts => (readMembers n ts).map fun (ms, rest) => (.obj ms, rest)
  | _ + 1, _ => none

/-- The elements up to the end of an array, at least one, and the tokens after it. -/
def readElements : Nat → List Token → Option (List Json × List Token)
  | 0, _ => none
  | n + 1, ts =>
    match readValue n ts with
    | some (v, .closeArray :: rest) => some ([v], rest)
    | some (v, .comma :: rest) =>
      (readElements n rest).map fun (vs, rest) => (v :: vs, rest)
    | _ => none

def readMembers : Nat → List Token → Option (List (CodePoints × Json) × List Token)
  | 0, _ => none
  | n + 1, .str key :: .colon :: ts =>
    match readValue n ts with
    | some (v, .closeObject :: rest) => some ([(key, v)], rest)
    | some (v, .comma :: rest) =>
      (readMembers n rest).map fun (ms, rest) => ((key, v) :: ms, rest)
    | _ => none
  | _ + 1, _ => none

end

def ofTokens? (ts : List Token) : Option Json :=
  match readValue (2 * ts.length + 1) ts with
  | some (v, []) => some v
  | _ => none

def read (s : Text) : Option Json :=
  (lex s).bind ofTokens?

end BnfSentences.Json
