import BnfSentences.Proofs.Json.Tokens

/-!
# How values are spelled

`Spells` is the grammar of JSON. A value has many spellings, with blanks between its
tokens and with characters escaped or not; `read_eq_some_of_isText` says that each of
them is read as that value, so no text is a spelling of two.
-/

namespace BnfSentences.Json

/-! ### The grammar -/

/-- A character in a string or an escape for one, and its code point. -/
inductive Character : Nat → Text → Prop where
  | plain {c : Char} (noQuote : c ≠ '"') (noBackslash : c ≠ '\\') (noControl : 0x20 ≤ c.toNat) :
      Character c.toNat [c]
  | escape {c : Char} {n : Nat} (known : escaped? c = some n) : Character n ['\\', c]
  | unit {a b c d : Char} {i j k l : Nat} (first : hexDigit? a = some i)
      (second : hexDigit? b = some j) (third : hexDigit? c = some k)
      (fourth : hexDigit? d = some l) :
      Character (i * 0x1000 + j * 0x100 + k * 0x10 + l) ['\\', 'u', a, b, c, d]

inductive Characters : CodePoints → Text → Prop where
  | none : Characters [] []
  | next {n : Nat} {ns : CodePoints} {s t : Text} (first : Character n s)
      (others : Characters ns t) : Characters (n :: ns) (s ++ t)

def IsBlank (s : Text) : Prop :=
  ∀ c ∈ s, isSpace c

/-- What the grammar has a rule for: values, values between blanks, and what follows
the first element of an array or the first member of an object. -/
inductive Phrase where
  | value (v : Json)
  | padded (v : Json)
  | elements (vs : List Json)
  | members (ms : List (CodePoints × Json))

/-- How a phrase is written. The elements and members after the first each bring the comma
before them, and the last rule of the two closes the bracket. -/
inductive Spells : Phrase → Text → Prop where
  | null : Spells (.value .null) "null".toList
  | true : Spells (.value (.bool .true)) "true".toList
  | false : Spells (.value (.bool .false)) "false".toList
  | num {literal : Text} (number : isNumber literal) : Spells (.value (.num literal)) literal
  | str {ns : CodePoints} {s : Text} (characters : Characters ns s) :
      Spells (.value (.str (joinPairs ns))) ('"' :: (s ++ ['"']))
  | emptyArray {s : Text} (blank : IsBlank s) : Spells (.value (.arr [])) ('[' :: (s ++ [']']))
  | array {v : Json} {vs : List Json} {s t : Text} (first : Spells (.padded v) s)
      (others : Spells (.elements vs) t) : Spells (.value (.arr (v :: vs))) ('[' :: (s ++ t))
  | emptyObject {s : Text} (blank : IsBlank s) :
      Spells (.value (.obj [])) ('\x7b' :: (s ++ ['\x7d']))
  | object {key : CodePoints} {v : Json} {ms : List (CodePoints × Json)} {k s t : Text}
      (name : Spells (.padded (.str key)) k) (first : Spells (.padded v) s)
      (others : Spells (.members ms) t) :
      Spells (.value (.obj ((key, v) :: ms))) ('\x7b' :: (k ++ ':' :: (s ++ t)))
  | padded {v : Json} {before s after : Text} (blankBefore : IsBlank before)
      (inner : Spells (.value v) s) (blankAfter : IsBlank after) :
      Spells (.padded v) (before ++ (s ++ after))
  | noElement : Spells (.elements []) [']']
  | element {v : Json} {vs : List Json} {s t : Text} (first : Spells (.padded v) s)
      (others : Spells (.elements vs) t) : Spells (.elements (v :: vs)) (',' :: (s ++ t))
  | noMember : Spells (.members []) ['\x7d']
  | member {key : CodePoints} {v : Json} {ms : List (CodePoints × Json)} {k s t : Text}
      (name : Spells (.padded (.str key)) k) (first : Spells (.padded v) s)
      (others : Spells (.members ms) t) :
      Spells (.members ((key, v) :: ms)) (',' :: (k ++ ':' :: (s ++ t)))

/-- A text is well-formed JSON, and this is its value. -/
def IsText (v : Json) (s : Text) : Prop :=
  Spells (.padded v) s

def Phrase.tokens : Phrase → List Token
  | .value v => v.tokens
  | .padded v => v.tokens
  | .elements vs => elementTokens vs
  | .members ms => memberTokens ms

theorem isBlank_nil : IsBlank [] :=
  nofun

/-! ### Bare characters -/

theorem not_isBare_of_mark {c : Char} {t : Token} (h : Token.mark? c = some t) : ¬ isBare c := by
  simp [isBare, h]

theorem not_isBare_of_isSpace {c : Char} (h : isSpace c) : ¬ isBare c := by
  simp [isBare, h]

theorem isBare_of_notMem {c : Char}
    (h : c ∉ ['"', ' ', '\t', '\n', '\r', '[', ']', '\x7b', '\x7d', ',', ':']) : isBare c := by
  have hmark : Token.mark? c = none := by
    unfold Token.mark?
    split <;> simp_all
  simp_all [isBare, isSpace]

def IsNumeric (c : Char) : Prop :=
  c.isDigit ∨ c ∈ ['-', '+', '.', 'e', 'E']

theorem isBare_of_isNumeric {c : Char} (h : IsNumeric c) : isBare c := by
  apply isBare_of_notMem
  intro hmem
  simp only [List.mem_cons, List.not_mem_nil, or_false] at hmem
  rcases hmem with rfl | rfl | rfl | rfl | rfl | rfl | rfl | rfl | rfl | rfl | rfl <;>
    exact absurd h (by simp [IsNumeric, Char.isDigit])

theorem isNumeric_of_mem_digits {s : Text} {c : Char} (h : c ∈ s.takeWhile Char.isDigit) :
    IsNumeric c :=
  .inl (List.all_eq_true.1 List.all_takeWhile c h)

theorem isNumeric_of_isExponent {s : Text} (h : isExponent s) : ∀ c ∈ s, IsNumeric c := by
  cases s with
  | nil => exact nofun
  | cons e s =>
    simp only [isExponent, Bool.and_eq_true, Bool.or_eq_true, beq_iff_eq, List.all_eq_true] at h
    obtain ⟨⟨hmark, -⟩, hdigits⟩ := h
    have hrest : ∀ c ∈ s, IsNumeric c := by
      intro c hc
      split at hdigits
      · rcases List.mem_cons.1 hc with rfl | hc
        · exact .inr (by decide)
        · exact .inl (hdigits c hc)
      · rcases List.mem_cons.1 hc with rfl | hc
        · exact .inr (by decide)
        · exact .inl (hdigits c hc)
      · exact .inl (hdigits c hc)
    intro c hc
    rcases List.mem_cons.1 hc with rfl | hc
    · rcases hmark with rfl | rfl <;> exact .inr (by decide)
    · exact hrest c hc

theorem isNumeric_of_isFraction {s : Text} (h : isFraction s) : ∀ c ∈ s, IsNumeric c := by
  unfold isFraction at h
  split at h
  · next s =>
    rw [Bool.and_eq_true] at h
    intro c hc
    rw [← List.takeWhile_append_dropWhile (p := Char.isDigit) (l := s), List.mem_cons,
      List.mem_append] at hc
    rcases hc with rfl | hc | hc
    · exact .inr (by decide)
    · exact isNumeric_of_mem_digits hc
    · exact isNumeric_of_isExponent h.2 c hc
  · exact isNumeric_of_isExponent h

theorem isNumeric_of_isNumber {s : Text} (h : isNumber s) : ∀ c ∈ s, IsNumeric c := by
  have hunsigned : ∀ t : Text, isFraction (t.dropWhile Char.isDigit) → ∀ c ∈ t, IsNumeric c := by
    intro t ht c hc
    rw [← List.takeWhile_append_dropWhile (p := Char.isDigit) (l := t), List.mem_append] at hc
    rcases hc with hc | hc
    · exact isNumeric_of_mem_digits hc
    · exact isNumeric_of_isFraction ht c hc
  simp only [isNumber, Bool.and_eq_true] at h
  have hfraction := h.2
  split at hfraction
  · next s =>
    intro c hc
    rcases List.mem_cons.1 hc with rfl | hc
    · exact .inr (by decide)
    · exact hunsigned s hfraction c hc
  · exact hunsigned s hfraction

/-! ### Cutting one token off -/

/-- Whatever cannot be part of a run may follow the text, and does not change how it is cut
into these tokens. -/
def Lexes (s : Text) (ts : List Token) : Prop :=
  ∀ rest : Text, (∀ c ∈ rest.head?, ¬ isBare c) →
    lexFrom .between (s ++ rest) = (lexFrom .between rest).map (ts ++ ·)

theorem lexFrom_blank {s : Text} (h : IsBlank s) (rest : Text) :
    lexFrom .between (s ++ rest) = lexFrom .between rest := by
  induction s with
  | nil => rfl
  | cons c s ih =>
    have hc : isSpace c := h c List.mem_cons_self
    have hquote : c ≠ '"' := by
      rintro rfl
      cases hc
    rw [List.cons_append, lexFrom]
    simp [step, start, hquote, hc, ih fun d hd => h d (List.mem_cons_of_mem c hd)]

theorem lexFrom_mark {c : Char} {t : Token} (h : Token.mark? c = some t) (rest : Text) :
    lexFrom .between (c :: rest) = (lexFrom .between rest).map (t :: ·) := by
  have hquote : c ≠ '"' := by
    rintro rfl
    cases h
  have hspace : isSpace c = false := by
    unfold Token.mark? at h
    split at h <;> first | rfl | cases h
  simp [lexFrom, step, start, hquote, hspace, h]

theorem lexFrom_inRun {s : Text} (h : ∀ c ∈ s, isBare c) (run rest : Text) :
    lexFrom (.inRun run) (s ++ rest) = lexFrom (.inRun (s.reverse ++ run)) rest := by
  induction s generalizing run with
  | nil => rfl
  | cons c s ih =>
    have hc : isBare c := h c List.mem_cons_self
    rw [List.cons_append, lexFrom]
    simp [step, hc, ih fun d hd => h d (List.mem_cons_of_mem c hd)]

theorem lexFrom_run_end {run rest : Text} {t : Token} (h : Token.ofRun run.reverse = some t)
    (hrest : ∀ c ∈ rest.head?, ¬ isBare c) :
    lexFrom (.inRun run) rest = (lexFrom .between rest).map (t :: ·) := by
  cases rest with
  | nil => simp [lexFrom, h]
  | cons c rest =>
    have hc : ¬ isBare c := hrest c rfl
    simp [lexFrom, step, hc, h, Function.comp_def]

theorem lexes_run {run : Text} {t : Token} (hne : run ≠ []) (hbare : ∀ c ∈ run, isBare c)
    (h : Token.ofRun run = some t) : Lexes run [t] := by
  intro rest hrest
  obtain ⟨c, run, rfl⟩ := List.exists_cons_of_ne_nil hne
  have hstart : lexFrom .between (c :: (run ++ rest)) = lexFrom (.inRun [c]) (run ++ rest) := by
    have hc : isBare c := hbare c List.mem_cons_self
    simp only [isBare, Bool.and_eq_true, bne_iff_ne, Bool.not_eq_true', Option.isNone_iff_eq_none]
      at hc
    simp [lexFrom, step, start, hc]
  have hreverse : Token.ofRun (run.reverse ++ [c]).reverse = some t := by simpa using h
  rw [List.cons_append, hstart, lexFrom_inRun fun d hd => hbare d (List.mem_cons_of_mem c hd)]
  exact lexFrom_run_end hreverse hrest

/-! ### Strings -/

theorem lexFrom_character {n : Nat} {s : Text} (h : Character n s) (read : CodePoints)
    (rest : Text) :
    lexFrom (.inString read) (s ++ rest) = lexFrom (.inString (n :: read)) rest := by
  cases h with
  | plain noQuote noBackslash noControl =>
    have hcontrol := Nat.not_lt.2 noControl
    simp [lexFrom, step, noQuote, noBackslash, hcontrol]
  | @escape c n known =>
    have hunit : c ≠ 'u' := by
      rintro rfl
      cases known
    simp [lexFrom, step, hunit, known]
  | @unit a b c d i j k l first second third fourth =>
    have hvalue : ((i * 16 + j) * 16 + k) * 16 + l = i * 0x1000 + j * 0x100 + k * 0x10 + l := by
      omega
    simp [lexFrom, step, first, second, third, fourth, hvalue]

theorem lexFrom_characters {ns : CodePoints} {s : Text} (h : Characters ns s) (read : CodePoints)
    (rest : Text) :
    lexFrom (.inString read) (s ++ rest) = lexFrom (.inString (ns.reverse ++ read)) rest := by
  induction h generalizing read with
  | none => rfl
  | next first _ ih =>
    rw [List.append_assoc, lexFrom_character first, ih]
    simp

theorem lexes_string {ns : CodePoints} {s : Text} (h : Characters ns s) :
    Lexes ('"' :: (s ++ ['"'])) [.str (joinPairs ns)] := by
  intro rest _
  have hstart : lexFrom .between ('"' :: (s ++ '"' :: rest)) =
      lexFrom (.inString []) (s ++ '"' :: rest) := by
    simp [lexFrom, step, start]
  have hclose : lexFrom (.inString ns.reverse) ('"' :: rest) =
      (lexFrom .between rest).map (.str (joinPairs ns) :: ·) := by
    simp [lexFrom, step]
  rw [List.cons_append, List.append_assoc, List.singleton_append, hstart, lexFrom_characters h,
    List.append_nil, hclose]
  rfl

/-! ### Several tokens -/

theorem lexes_mark {c : Char} {t : Token} (h : Token.mark? c = some t) : Lexes [c] [t] :=
  fun rest _ => lexFrom_mark h rest

theorem Lexes.cons {c : Char} {t : Token} {s : Text} {ts : List Token}
    (hmark : Token.mark? c = some t) (h : Lexes s ts) : Lexes (c :: s) (t :: ts) := by
  intro rest hrest
  rw [List.cons_append, lexFrom_mark hmark, h rest hrest, Option.map_map]
  rfl

/-- A text that can follow a run without being part of it. -/
def Cuts (s : Text) : Prop :=
  ∃ c rest, s = c :: rest ∧ ¬ isBare c

theorem cuts_of_mark {c : Char} {t : Token} (h : Token.mark? c = some t) (rest : Text) :
    Cuts (c :: rest) :=
  ⟨c, rest, rfl, not_isBare_of_mark h⟩

theorem cuts_of_elements {vs : List Json} {s : Text} (h : Spells (.elements vs) s) : Cuts s := by
  cases h with
  | noElement => exact cuts_of_mark rfl _
  | element => exact cuts_of_mark rfl _

theorem cuts_of_members {ms : List (CodePoints × Json)} {s : Text} (h : Spells (.members ms) s) :
    Cuts s := by
  cases h with
  | noMember => exact cuts_of_mark rfl _
  | member => exact cuts_of_mark rfl _

theorem Lexes.append {s t : Text} {ts us : List Token} (h : Lexes s ts) (hcuts : Cuts t)
    (hother : Lexes t us) : Lexes (s ++ t) (ts ++ us) := by
  obtain ⟨c, u, rfl, hbare⟩ := hcuts
  intro rest hrest
  have hopens : ∀ d ∈ (c :: u ++ rest).head?, ¬ isBare d := by
    rintro d ⟨⟩
    exact hbare
  rw [List.append_assoc, h _ hopens, hother rest hrest, Option.map_map]
  simp [Function.comp_def]

theorem Lexes.padded {before s after : Text} {ts : List Token} (hbefore : IsBlank before)
    (h : Lexes s ts) (hafter : IsBlank after) : Lexes (before ++ (s ++ after)) ts := by
  intro rest hrest
  have hopens : ∀ d ∈ (after ++ rest).head?, ¬ isBare d := by
    cases after with
    | nil => exact hrest
    | cons c after =>
      rintro d ⟨⟩
      exact not_isBare_of_isSpace (hafter c List.mem_cons_self)
  rw [List.append_assoc, List.append_assoc, lexFrom_blank hbefore, h _ hopens, lexFrom_blank hafter]

theorem lexes_blank_mark {s : Text} {c : Char} {t : Token} (hblank : IsBlank s)
    (hmark : Token.mark? c = some t) : Lexes (s ++ [c]) [t] := by
  have hlexes := Lexes.padded hblank (lexes_mark hmark) isBlank_nil
  rwa [List.append_nil] at hlexes

theorem lexes_member {k s t : Text} {key : CodePoints} {ts us : List Token}
    (hkey : Lexes k [.str key]) (hvalue : Lexes s ts) (hcuts : Cuts t) (hothers : Lexes t us) :
    Lexes (k ++ ':' :: (s ++ t)) (.str key :: .colon :: (ts ++ us)) :=
  hkey.append (cuts_of_mark rfl _) (.cons rfl (hvalue.append hcuts hothers))

theorem ofRun_of_isNumber {literal : Text} (h : isNumber literal) :
    Token.ofRun literal = some (.num literal) := by
  have hword : ∀ word : Text, isNumber word = false → literal ≠ word := by
    rintro word hword rfl
    rw [h] at hword
    cases hword
  rw [Token.ofRun, if_neg (hword _ rfl), if_neg (hword _ rfl), if_neg (hword _ rfl), if_pos h]

theorem lexes_of_spells {p : Phrase} {s : Text} (h : Spells p s) : Lexes s p.tokens := by
  -- A value may end in a run, so wherever text follows one it has to be shown to cut it off.
  induction h with
  | null => exact lexes_run (by decide) (List.all_eq_true.1 rfl) rfl
  | true => exact lexes_run (by decide) (List.all_eq_true.1 rfl) rfl
  | false => exact lexes_run (by decide) (List.all_eq_true.1 rfl) rfl
  | @num literal number =>
    have hne : literal ≠ [] := by
      rintro rfl
      cases number
    have hbare : ∀ c ∈ literal, isBare c :=
      fun c hc => isBare_of_isNumeric (isNumeric_of_isNumber number c hc)
    exact lexes_run hne hbare (ofRun_of_isNumber number)
  | str characters => exact lexes_string characters
  | emptyArray blank => exact .cons rfl (lexes_blank_mark blank rfl)
  | array _ others ihfirst ihothers =>
    exact .cons rfl (ihfirst.append (cuts_of_elements others) ihothers)
  | emptyObject blank => exact .cons rfl (lexes_blank_mark blank rfl)
  | object _ _ others ihname ihfirst ihothers =>
    exact .cons rfl (lexes_member ihname ihfirst (cuts_of_members others) ihothers)
  | padded blankBefore _ blankAfter ih => exact .padded blankBefore ih blankAfter
  | noElement => exact lexes_mark rfl
  | element _ others ihfirst ihothers =>
    exact .cons rfl (ihfirst.append (cuts_of_elements others) ihothers)
  | noMember => exact lexes_mark rfl
  | member _ _ others ihname ihfirst ihothers =>
    exact .cons rfl (lexes_member ihname ihfirst (cuts_of_members others) ihothers)

/-! ### Whole texts -/

theorem lex_of_isText {v : Json} {s : Text} (h : IsText v s) : lex s = some v.tokens := by
  have hlexes := lexes_of_spells h [] nofun
  rw [List.append_nil] at hlexes
  rw [lex, hlexes]
  simp [lexFrom, Phrase.tokens]

theorem read_eq_some_of_isText {v : Json} {s : Text} (h : IsText v s) : read s = some v := by
  rw [read, lex_of_isText h]
  exact ofTokens?_tokens v

theorem eq_of_isText {v w : Json} {s : Text} (hv : IsText v s) (hw : IsText w s) : v = w :=
  Option.some.inj ((read_eq_some_of_isText hv).symm.trans (read_eq_some_of_isText hw))

end BnfSentences.Json
