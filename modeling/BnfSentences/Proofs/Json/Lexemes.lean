import BnfSentences.Proofs.Json.Spelling
import Mathlib.Data.List.Forall2

/-!
# Texts as rows of tokens

A text of JSON is a row of lexemes, one for each token of its value, with blanks spread
among them. The reader accepts exactly these texts: `read_eq_some_iff`.
-/

namespace BnfSentences.Json

/-! ### Blanks among the pieces of a text -/

/-- The pieces one after another, with any blanks before, between and after them. -/
inductive Spread : List Text → Text → Prop where
  | none : Spread [] []
  | blank {c : Char} {pieces : List Text} {s : Text} (space : isSpace c)
      (others : Spread pieces s) : Spread pieces (c :: s)
  | piece {first s : Text} {pieces : List Text} (others : Spread pieces s) :
      Spread (first :: pieces) (first ++ s)

theorem isBlank_cons {c : Char} {s : Text} (hc : isSpace c) (hs : IsBlank s) : IsBlank (c :: s) :=
  List.forall_mem_cons.2 ⟨hc, hs⟩

theorem isBlank_of_spread {pieces : List Text} {s : Text} (h : Spread pieces s)
    (hnil : pieces = []) : IsBlank s := by
  induction h with
  | none => exact isBlank_nil
  | blank space _ ih => exact isBlank_cons space (ih hnil)
  | piece => cases hnil

theorem exists_of_spread {pieces others : List Text} {first s : Text} (h : Spread pieces s)
    (hcons : pieces = first :: others) :
    ∃ blank rest, s = blank ++ (first ++ rest) ∧ IsBlank blank ∧ Spread others rest := by
  induction h with
  | none => cases hcons
  | @blank c _ _ space _ ih =>
    obtain ⟨blank, rest, rfl, hblank, hrest⟩ := ih hcons
    exact ⟨c :: blank, rest, rfl, isBlank_cons space hblank, hrest⟩
  | piece hothers =>
    cases hcons
    exact ⟨[], _, rfl, isBlank_nil, hothers⟩

/-! ### Rows of lexemes -/

/-- How a token may be written. -/
inductive Lexeme : Token → Text → Prop where
  | openArray : Lexeme .openArray ['[']
  | closeArray : Lexeme .closeArray [']']
  | openObject : Lexeme .openObject ['\x7b']
  | closeObject : Lexeme .closeObject ['\x7d']
  | comma : Lexeme .comma [',']
  | colon : Lexeme .colon [':']
  | null : Lexeme .null "null".toList
  | true : Lexeme (.bool .true) "true".toList
  | false : Lexeme (.bool .false) "false".toList
  | num {literal : Text} (number : isNumber literal) : Lexeme (.num literal) literal
  | str {ns : CodePoints} {s : Text} (characters : Characters ns s) :
      Lexeme (.str (joinPairs ns)) ('"' :: (s ++ ['"']))

/-- The tokens are written one after another, with blanks among them. -/
def Row (ts : List Token) (s : Text) : Prop :=
  ∃ pieces, List.Forall₂ Lexeme ts pieces ∧ Spread pieces s

variable {t : Token} {ts us : List Token} {s l : Text}

theorem row_nil : Row [] [] :=
  ⟨[], .nil, .none⟩

theorem Row.blank {c : Char} (hc : isSpace c) (h : Row ts s) : Row ts (c :: s) := by
  obtain ⟨pieces, hpieces, hspread⟩ := h
  exact ⟨pieces, hpieces, .blank hc hspread⟩

theorem Row.cons (hl : Lexeme t l) (h : Row ts s) : Row (t :: ts) (l ++ s) := by
  obtain ⟨pieces, hpieces, hspread⟩ := h
  exact ⟨l :: pieces, .cons hl hpieces, .piece hspread⟩

theorem Row.isBlank (h : Row [] s) : IsBlank s := by
  obtain ⟨pieces, hpieces, hspread⟩ := h
  cases hpieces
  exact isBlank_of_spread hspread rfl

theorem Row.exists_lexeme (h : Row (t :: ts) s) :
    ∃ blank l rest, s = blank ++ (l ++ rest) ∧ IsBlank blank ∧ Lexeme t l ∧ Row ts rest := by
  obtain ⟨pieces, hpieces, hspread⟩ := h
  cases hpieces with
  | @cons _ l _ pieces hl hpieces =>
    obtain ⟨blank, rest, rfl, hblank, hrest⟩ := exists_of_spread hspread rfl
    exact ⟨blank, l, rest, rfl, hblank, hl, pieces, hpieces, hrest⟩

/-! ### The value of a row -/

/-- A text starts with a spelling of a phrase behind blanks, and the other tokens follow. -/
def Opens (p : Phrase) (ts : List Token) (s : Text) : Prop :=
  ∃ blank t rest, s = blank ++ (t ++ rest) ∧ IsBlank blank ∧ Spells p t ∧ Row ts rest

theorem Row.opens {p : Phrase} (h : Row (t :: ts) s) (hp : ∀ l, Lexeme t l → Spells p l) :
    Opens p ts s := by
  obtain ⟨blank, l, rest, rfl, hblank, hl, hrest⟩ := h.exists_lexeme
  exact ⟨blank, l, rest, rfl, hblank, hp l hl, hrest⟩

/-- A text starts with a value between blanks and a spelling of a phrase right behind it, and
the other tokens follow. -/
def OpensPair (v : Json) (p : Phrase) (ts : List Token) (s : Text) : Prop :=
  ∃ a b rest, s = a ++ (b ++ rest) ∧ Spells (.padded v) a ∧ Spells p b ∧ Row ts rest

theorem Opens.pair {v : Json} {p : Phrase} (h : Opens (.value v) us s)
    (hnext : ∀ rest, Row us rest → Opens p ts rest) : OpensPair v p ts s := by
  obtain ⟨before, a, rest, rfl, hbefore, ha, hrest⟩ := h
  obtain ⟨after, b, rest, rfl, hafter, hb, hrest⟩ := hnext rest hrest
  exact ⟨before ++ (a ++ after), b, rest, by simp, .padded hbefore ha hafter, hb, hrest⟩

theorem Row.exists_member {key : CodePoints} {v : Json} {p : Phrase}
    (h : Row (.str key :: .colon :: us) s) (hvalue : ∀ rest, Row us rest → OpensPair v p ts rest) :
    ∃ k a b rest, s = k ++ ':' :: (a ++ (b ++ rest)) ∧ Spells (.padded (.str key)) k ∧
      Spells (.padded v) a ∧ Spells p b ∧ Row ts rest := by
  obtain ⟨before, k, t, rfl, hbefore, hk, ht⟩ := h.exists_lexeme
  obtain ⟨after, colon, u, rfl, hafter, hcolon, hu⟩ := ht.exists_lexeme
  obtain ⟨a, b, rest, rfl, ha, hb, hrest⟩ := hvalue u hu
  cases hcolon
  cases hk with
  | str characters =>
    exact ⟨_, a, b, rest, by simp, .padded hbefore (.str characters) hafter, ha, hb, hrest⟩

-- In the grammar the blanks before a comma or a closing bracket belong to the value in front
-- of them. So every phrase is found behind blanks, and `Opens.pair` hands them over.

mutual

theorem opens_value : ∀ (v : Json) {ts : List Token} {s : Text}, Row (v.tokens ++ ts) s →
    Opens (.value v) ts s
  | .null, ts, s, h => by
    refine h.opens fun l hl => ?_
    cases hl
    exact .null
  | .bool value, ts, s, h => by
    refine h.opens fun l hl => ?_
    cases hl with
    | true => exact .true
    | false => exact .false
  | .num literal, ts, s, h => by
    refine h.opens fun l hl => ?_
    cases hl with
    | num number => exact .num number
  | .str value, ts, s, h => by
    refine h.opens fun l hl => ?_
    cases hl with
    | str characters => exact .str characters
  | .arr [], ts, s, h => by
    obtain ⟨blank, l, t, rfl, hblank, hl, ht⟩ := h.exists_lexeme
    obtain ⟨inner, l', rest, rfl, hinner, hl', hrest⟩ := ht.exists_lexeme
    cases hl
    cases hl'
    exact ⟨blank, _, rest, by simp, hblank, .emptyArray hinner, hrest⟩
  | .arr (v :: vs), ts, s, h => by
    rw [tokens, List.cons_append, List.append_assoc] at h
    obtain ⟨blank, l, rest, rfl, hblank, hl, hrest⟩ := h.exists_lexeme
    obtain ⟨a, b, rest, rfl, ha, hb, hrest⟩ :=
      (opens_value v hrest).pair fun _ => opens_elements vs
    cases hl
    exact ⟨blank, _, rest, by simp, hblank, .array ha hb, hrest⟩
  | .obj [], ts, s, h => by
    obtain ⟨blank, l, t, rfl, hblank, hl, ht⟩ := h.exists_lexeme
    obtain ⟨inner, l', rest, rfl, hinner, hl', hrest⟩ := ht.exists_lexeme
    cases hl
    cases hl'
    exact ⟨blank, _, rest, by simp, hblank, .emptyObject hinner, hrest⟩
  | .obj ((key, v) :: ms), ts, s, h => by
    simp only [tokens, List.cons_append, List.append_assoc] at h
    obtain ⟨blank, l, rest, rfl, hblank, hl, hrest⟩ := h.exists_lexeme
    obtain ⟨k, a, b, rest, rfl, hk, ha, hb, hrest⟩ := hrest.exists_member fun _ h =>
      (opens_value v h).pair fun _ => opens_members ms
    cases hl
    exact ⟨blank, _, rest, by simp, hblank, .object hk ha hb, hrest⟩

theorem opens_elements : ∀ (vs : List Json) {ts : List Token} {s : Text},
    Row (elementTokens vs ++ ts) s → Opens (.elements vs) ts s
  | [], ts, s, h => by
    refine h.opens fun l hl => ?_
    cases hl
    exact .noElement
  | v :: vs, ts, s, h => by
    rw [elementTokens, List.cons_append, List.append_assoc] at h
    obtain ⟨blank, l, rest, rfl, hblank, hl, hrest⟩ := h.exists_lexeme
    obtain ⟨a, b, rest, rfl, ha, hb, hrest⟩ :=
      (opens_value v hrest).pair fun _ => opens_elements vs
    cases hl
    exact ⟨blank, _, rest, by simp, hblank, .element ha hb, hrest⟩

theorem opens_members : ∀ (ms : List (CodePoints × Json)) {ts : List Token} {s : Text},
    Row (memberTokens ms ++ ts) s → Opens (.members ms) ts s
  | [], ts, s, h => by
    refine h.opens fun l hl => ?_
    cases hl
    exact .noMember
  | (key, v) :: ms, ts, s, h => by
    simp only [memberTokens, List.cons_append, List.append_assoc] at h
    obtain ⟨blank, l, rest, rfl, hblank, hl, hrest⟩ := h.exists_lexeme
    obtain ⟨k, a, b, rest, rfl, hk, ha, hb, hrest⟩ := hrest.exists_member fun _ h =>
      (opens_value v h).pair fun _ => opens_members ms
    cases hl
    exact ⟨blank, _, rest, by simp, hblank, .member hk ha hb, hrest⟩

end

theorem isText_of_row {v : Json} (h : Row v.tokens s) : IsText v s := by
  rw [← List.append_nil v.tokens] at h
  obtain ⟨before, t, after, rfl, hbefore, ht, hafter⟩ := opens_value v h
  exact .padded hbefore ht hafter.isBlank

/-! ### What is cut off -/

/-- The digits of a `\u` escape as far as they are read: their value, how many are to come
after the next, and how they are written. -/
inductive Digits : Nat → Nat → Text → Prop where
  | none : Digits 0 3 []
  | next {unit left d : Nat} {c : Char} {s : Text} (before : Digits unit (left + 1) s)
      (digit : hexDigit? c = some d) : Digits (unit * 16 + d) left (s ++ [c])

theorem Digits.left_le {unit left : Nat} {s : Text} (h : Digits unit left s) : left ≤ 3 := by
  induction h with
  | none => exact Nat.le_refl 3
  | next _ _ ih => omega

theorem Digits.character {unit d : Nat} {c : Char} {s : Text} (h : Digits unit 0 s)
    (hd : hexDigit? c = some d) : Character (unit * 16 + d) ('\\' :: 'u' :: (s ++ [c])) := by
  cases h with
  | @next _ _ k _ _ h hk =>
    cases h with
    | @next _ _ j _ _ h hj =>
      cases h with
      | @next _ _ i _ _ h hi =>
        cases h with
        | next h _ => exact absurd h.left_le (by decide)
        | none =>
          have hvalue : i * 0x1000 + j * 0x100 + k * 0x10 + d =
              (((0 * 16 + i) * 16 + j) * 16 + k) * 16 + d := by
            omega
          rw [← hvalue]
          exact .unit hi hj hk hd

theorem Characters.concat {n : Nat} {ns : CodePoints} {s t : Text} (h : Characters ns s)
    (hn : Character n t) : Characters (ns ++ [n]) (s ++ t) := by
  induction h with
  | none =>
    have hone := Characters.next hn .none
    rwa [List.append_nil] at hone
  | next first _ ih =>
    rw [List.append_assoc]
    exact .next first ih

/-- What a mode has read of a token that is not complete. -/
inductive Pending : Mode → Text → Prop where
  | between : Pending .between []
  | inRun {run : Text} : Pending (.inRun run) run.reverse
  | inString {read : CodePoints} {s : Text} (characters : Characters read.reverse s) :
      Pending (.inString read) ('"' :: s)
  | inEscape {read : CodePoints} {s : Text} (characters : Characters read.reverse s) :
      Pending (.inEscape read) ('"' :: (s ++ ['\\']))
  | inUnit {read : CodePoints} {unit left : Nat} {s t : Text}
      (characters : Characters read.reverse s) (digits : Digits unit left t) :
      Pending (.inUnit read unit left) ('"' :: (s ++ '\\' :: 'u' :: t))

theorem Pending.character {read : CodePoints} {n : Nat} {s t : Text}
    (h : Characters read.reverse s) (hn : Character n t) :
    Pending (.inString (n :: read)) ('"' :: (s ++ t)) := by
  have hread := h.concat hn
  rw [← List.reverse_cons] at hread
  exact .inString hread

theorem lexeme_of_mark {c : Char} (h : Token.mark? c = some t) : Lexeme t [c] := by
  unfold Token.mark? at h
  split at h <;> cases h <;> constructor

theorem lexeme_of_ofRun {run : Text} (h : Token.ofRun run = some t) : Lexeme t run := by
  unfold Token.ofRun at h
  split at h
  · next hrun =>
    cases h
    rw [hrun]
    exact .null
  split at h
  · next hrun =>
    cases h
    rw [hrun]
    exact .true
  split at h
  · next hrun =>
    cases h
    rw [hrun]
    exact .false
  split at h
  · next hrun =>
    cases h
    exact .num hrun
  · cases h

/-- A row that starts with what is pending after a character becomes a row that starts with the
character, and with the tokens that it completes. -/
theorem exists_pending_start (c : Char) :
    ∃ t, Pending (start c).2 t ∧
      ∀ us s, Row us (t ++ s) → Row ((start c).1 ++ us) (c :: s) := by
  unfold start
  split
  · next hc =>
    rw [hc]
    exact ⟨['"'], .inString .none, fun us s h => h⟩
  split
  · next hc => exact ⟨[], .between, fun us s h => h.blank hc⟩
  split
  · next hc => exact ⟨[], .between, fun us s h => .cons (lexeme_of_mark hc) h⟩
  · exact ⟨[c], @Pending.inRun [c], fun us s h => h⟩

theorem exists_pending_step {mode next : Mode} {c : Char} {p : Text} (hp : Pending mode p)
    (h : step mode c = some (ts, next)) :
    ∃ q, Pending next q ∧ ∀ us s, Row us (q ++ s) → Row (ts ++ us) (p ++ c :: s) := by
  cases hp with
  | between =>
    have hstart := exists_pending_start c
    rwa [Option.some.inj h] at hstart
  | @inRun run =>
    simp only [step] at h
    split at h
    · cases h
      refine ⟨(c :: run).reverse, .inRun, fun us s hrow => ?_⟩
      simpa using hrow
    · obtain ⟨t, ht, heq⟩ := Option.map_eq_some_iff.1 h
      cases heq
      obtain ⟨q, hq, hstart⟩ := exists_pending_start c
      exact ⟨q, hq, fun us s hrow => .cons (lexeme_of_ofRun ht) (hstart us s hrow)⟩
  | @inString read s characters =>
    simp only [step] at h
    split at h
    · next hc =>
      cases h
      refine ⟨[], .between, fun us t hrow => ?_⟩
      have hcons := Row.cons (.str characters) hrow
      rw [hc]
      simpa using hcons
    split at h
    · next hc =>
      cases h
      refine ⟨_, .inEscape characters, fun us t hrow => ?_⟩
      rw [hc]
      simpa using hrow
    split at h
    · cases h
    · next hquote hbackslash hcontrol =>
      cases h
      have hplain := Character.plain hquote hbackslash (Nat.not_lt.1 hcontrol)
      refine ⟨_, .character characters hplain, fun us t hrow => ?_⟩
      simpa using hrow
  | @inEscape read s characters =>
    simp only [step] at h
    split at h
    · next hc =>
      cases h
      refine ⟨_, .inUnit characters .none, fun us t hrow => ?_⟩
      rw [hc]
      simpa using hrow
    · obtain ⟨n, hn, heq⟩ := Option.map_eq_some_iff.1 h
      cases heq
      refine ⟨_, .character characters (.escape hn), fun us t hrow => ?_⟩
      simpa using hrow
  | @inUnit read unit left s u characters digits =>
    simp only [step] at h
    obtain ⟨d, hd, heq⟩ := Option.map_eq_some_iff.1 h
    cases left with
    | zero =>
      cases heq
      refine ⟨_, .character characters (digits.character hd), fun us t hrow => ?_⟩
      simpa using hrow
    | succ left =>
      cases heq
      refine ⟨_, .inUnit characters (.next digits hd), fun us t hrow => ?_⟩
      simpa using hrow

theorem row_of_lexFrom {mode : Mode} {p : Text} (hp : Pending mode p)
    (h : lexFrom mode s = some ts) : Row ts (p ++ s) := by
  induction s generalizing mode p ts with
  | nil =>
    cases hp with
    | between =>
      cases h
      exact row_nil
    | inRun =>
      obtain ⟨t, ht, heq⟩ := Option.map_eq_some_iff.1 h
      cases heq
      exact .cons (lexeme_of_ofRun ht) row_nil
    | inString | inEscape | inUnit => cases h
  | cons c s ih =>
    rw [lexFrom] at h
    split at h
    · cases h
    · next us next hstep =>
      obtain ⟨vs, hvs, rfl⟩ := Option.map_eq_some_iff.1 h
      obtain ⟨q, hq, hrow⟩ := exists_pending_step hp hstep
      exact hrow vs s (ih hq hvs)

theorem row_of_lex (h : lex s = some ts) : Row ts s :=
  row_of_lexFrom .between h

/-! ### Whole texts -/

theorem isText_iff_lex {v : Json} : IsText v s ↔ lex s = some v.tokens :=
  ⟨lex_of_isText, fun h => isText_of_row (row_of_lex h)⟩

theorem read_eq_some_iff {v : Json} : read s = some v ↔ IsText v s := by
  constructor
  · intro h
    obtain ⟨ts, hlex, hts⟩ := Option.bind_eq_some_iff.1 h
    rw [ofTokens?_eq_some_iff.1 hts] at hlex
    exact isText_iff_lex.2 hlex
  · exact read_eq_some_of_isText

end BnfSentences.Json
