import BnfSentences.Text.Basic

/-!
# JSON values

A string of JSON is a list of code points, since an escape can name half of a
surrogate pair. `Json.text?` gives back the text that `Json.text` put into it.
-/

namespace BnfSentences

/-- The code points of a JSON string; surrogates may be among them. -/
abbrev CodePoints := List Nat

namespace CodePoints

def ofText (s : Text) : CodePoints :=
  s.map Char.toNat

/-- The text with these code points, if none of them is a surrogate. -/
def text? (ns : CodePoints) : Option Text :=
  ns.mapM fun n => if n.isValidChar then some (Char.ofNat n) else none

theorem text?_ofText (s : Text) : text? (ofText s) = some s := by
  induction s with
  | nil => rfl
  | cons c s ih =>
    have hc : c.toNat.isValidChar := c.valid
    simp only [text?, ofText, List.map_cons, List.mapM_cons] at ih ⊢
    simp [hc, ih]

end CodePoints

/-- A JSON value. Numbers keep the characters they were written with, objects
keep the order of their members and may repeat a key. -/
inductive Json where
  | null
  | bool (value : Bool)
  | num (literal : Text)
  | str (value : CodePoints)
  | arr (elements : List Json)
  | obj (members : List (CodePoints × Json))

namespace Json

def text (s : Text) : Json :=
  .str (CodePoints.ofText s)

def object (members : List (Text × Json)) : Json :=
  .obj (members.map fun (key, value) => (CodePoints.ofText key, value))

end Json

end BnfSentences
