import BnfSentences.Proofs.Json.Writing
import BnfSentences.Text.Quoted
import Mathlib.Data.List.Basic

/-!
# Quoted texts are read back

Which characters are hidden depends on the edition of the tables. Here the set is arbitrary as
long as it holds the control characters, and a quoted text is read back without it:
`readQuoted_quote`. A quoted text has no control characters: `not_isControl_of_mem_quote`.
-/

namespace BnfSentences.Text

/-! ### Digits -/

theorem exists_digits (n : Nat) :
    ∃ ds : List Nat, hexadecimal n = ds.map Nat.digitChar ∧ (∀ d ∈ ds, d < 16) ∧
      ds.foldl (16 * · + ·) 0 = n := by
  induction n using Nat.strongRecOn with
  | ind n ih =>
    by_cases hn : n < 16
    · exact ⟨[n], Nat.toDigits_of_lt_base hn, by simpa using hn, by simp⟩
    · obtain ⟨ds, hds, hlt, hvalue⟩ := ih (n / 16) (by omega)
      refine ⟨ds ++ [n % 16], ?_, ?_, ?_⟩
      · rw [hexadecimal, Nat.toDigits_of_base_le (by decide) (by omega), List.map_append, ← hds]
        rfl
      · intro d hd
        rcases List.mem_append.1 hd with hd | hd
        · exact hlt d hd
        · rw [List.mem_singleton.1 hd]
          exact Nat.mod_lt n (by decide)
      · rw [List.foldl_append, hvalue]
        exact Nat.div_add_mod n 16

/-! ### Reading -/

inductive Place where
  | plain
  | escaped
  /-- After the mark of a code point, before its digits. -/
  | brace
  | code (n : Nat)

def unescape? : Char → Option Char
  | '0' => some '\x00'
  | 't' => some '\t'
  | 'n' => some '\n'
  | 'r' => some '\r'
  | '"' => some '"'
  | '\\' => some '\\'
  | _ => none

/-- The text up to the closing quotation mark, and what comes after it. -/
def readFrom : Place → Text → Option (Text × Text)
  | _, [] => none
  | .plain, c :: s =>
    if c = '"' then some ([], s)
    else if c = '\\' then readFrom .escaped s
    else (readFrom .plain s).map (.map (c :: ·) id)
  | .escaped, c :: s =>
    if c = 'u' then readFrom .brace s
    else
      match unescape? c with
      | none => none
      | some d => (readFrom .plain s).map (.map (d :: ·) id)
  | .brace, c :: s => if c = '\x7b' then readFrom (.code 0) s else none
  | .code n, c :: s =>
    if c = '\x7d' then (readFrom .plain s).map (.map (.ofNat n :: ·) id)
    else
      match Json.hexDigit? c with
      | none => none
      | some d => readFrom (.code (16 * n + d)) s

def readQuoted : Text → Option (Text × Text)
  | '"' :: s => readFrom .plain s
  | _ => none

def quotedBetween? (front back s : Text) : Option Text :=
  match (s.dropPrefix? front).bind readQuoted with
  | some (t, rest) => if rest = back then some t else none
  | none => none

theorem dropPrefix?_append (front s : Text) : (front ++ s).dropPrefix? front = some s :=
  List.dropPrefix?_append_of_beq s (beq_self_eq_true front)

theorem readFrom_digits {ds : List Nat} (hlt : ∀ d ∈ ds, d < 16) (n : Nat) (s : Text) :
    readFrom (.code n) (ds.map Nat.digitChar ++ s) =
      readFrom (.code (ds.foldl (16 * · + ·) n)) s := by
  induction ds generalizing n with
  | nil => rfl
  | cons d ds ih =>
    obtain ⟨hd, hds⟩ := List.forall_mem_cons.1 hlt
    have hdigit := Json.hexDigit?_digitChar hd
    have hbrace : d.digitChar ≠ '\x7d' := by
      intro heq
      rw [heq] at hdigit
      cases hdigit
    rw [List.map_cons, List.cons_append, readFrom, if_neg hbrace, hdigit]
    exact ih hds (16 * n + d)

theorem readFrom_hexadecimal (c : Char) (s : Text) :
    readFrom .plain (['\\', 'u', '\x7b'] ++ hexadecimal c.toNat ++ ['\x7d'] ++ s) =
      (readFrom .plain s).map (.map (c :: ·) id) := by
  obtain ⟨ds, hds, hlt, hvalue⟩ := exists_digits c.toNat
  have hdigits := readFrom_digits hlt 0 ('\x7d' :: s)
  rw [hvalue, readFrom, if_pos rfl, Char.ofNat_toNat] at hdigits
  rw [hds, List.append_assoc, List.append_assoc]
  exact hdigits

namespace Hiding

variable (h : Hiding)

theorem readFrom_escape (c : Char) (s : Text) :
    readFrom .plain (h.escape c ++ s) = (readFrom .plain s).map (.map (c :: ·) id) := by
  unfold escape
  -- the four escapes with a letter or a digit of their own
  iterate 4
    split
    · next hc =>
      rw [hc]
      rfl
  split
  · next hmark =>
    rcases hmark with rfl | rfl <;> rfl
  next hmark =>
  split
  · exact readFrom_hexadecimal c s
  · rw [not_or] at hmark
    rw [List.singleton_append, readFrom, if_neg hmark.1, if_neg hmark.2]

theorem readFrom_escapes (t s : Text) :
    readFrom .plain (t.flatMap h.escape ++ '"' :: s) = some (t, s) := by
  induction t with
  | nil => rfl
  | cons c t ih =>
    rw [List.flatMap_cons, List.append_assoc, readFrom_escape, ih]
    rfl

/-- Whatever is hidden, a quoted text is read back, and what follows it is left. -/
theorem readQuoted_quote (t s : Text) : readQuoted (h.quote t ++ s) = some (t, s) := by
  rw [quote, List.cons_append, List.cons_append, List.append_assoc]
  exact h.readFrom_escapes t s

theorem quotedBetween?_quote (front back t : Text) :
    quotedBetween? front back (front ++ h.quote t ++ back) = some t := by
  rw [quotedBetween?, List.append_assoc, dropPrefix?_append, Option.bind_some,
    h.readQuoted_quote t back]
  exact if_pos rfl

/-! ### Control characters -/

theorem not_isControl_of_mem_hexadecimal {n : Nat} {c : Char} (hc : c ∈ hexadecimal n) :
    ¬ isControl c := by
  obtain ⟨ds, hds, hlt, -⟩ := exists_digits n
  rw [hds] at hc
  obtain ⟨d, hd, rfl⟩ := List.mem_map.1 hc
  have hall : ∀ d < 16, ¬ isControl (Nat.digitChar d) := by decide
  exact hall d (hlt d hd)

theorem not_isControl_of_mem_escape {c d : Char} (hd : d ∈ h.escape c) : ¬ isControl d := by
  have hshown : ∀ t : Text, t.all (!isControl ·) → d ∈ t → ¬ isControl d := by
    intro t ht hdt
    simpa using List.all_eq_true.1 ht d hdt
  unfold escape at hd
  iterate 4
    split at hd
    · exact hshown _ rfl hd
  split at hd
  · next hmark =>
    rcases hmark with rfl | rfl <;> exact hshown _ rfl hd
  split at hd
  · rcases List.mem_append.1 hd with hd | hd
    · rcases List.mem_append.1 hd with hd | hd
      · exact hshown _ rfl hd
      · exact not_isControl_of_mem_hexadecimal hd
    · exact hshown _ rfl hd
  · next hhides =>
    rw [List.mem_singleton.1 hd]
    exact fun hcontrol => hhides (h.hides_control c hcontrol)

theorem not_isControl_of_mem_quote {t : Text} {c : Char} (hc : c ∈ h.quote t) :
    ¬ isControl c := by
  rw [quote, List.mem_append, List.mem_cons, List.mem_singleton] at hc
  rcases hc with (rfl | hc) | rfl
  · decide
  · obtain ⟨d, -, hd⟩ := List.mem_flatMap.1 hc
    exact h.not_isControl_of_mem_escape hd
  · decide

end Hiding

end BnfSentences.Text
