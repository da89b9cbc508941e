import BnfSentences.Proofs.CommandLine.Status
import BnfSentences.Proofs.Text.Quoting

/-!
# Refusals

A message quotes the declaration that is refused, and the line of a report quotes the message.
`refusal_is_read_back` says that both can be undone, whichever characters are hidden.
-/

namespace BnfSentences

namespace Error

/-- The line that shows an error, without its end, if `h` has the hidden characters. -/
def lineIn (h : Text.Hiding) (e : Error) : Text :=
  "Error: ".toList ++ e.reportIn h

/-! ### What is read -/

/-- The invalid argument that is told in the words `s`. -/
def ofDetail? (s : Text) : Option Error :=
  (Text.quotedBetween? "declaration has no `::=`: ".toList [] s).map .missingSeparator <|>
    (Text.quotedBetween? "declaration has no non-terminal: ".toList [] s).map .missingName <|>
    (s.dropPrefix? "duplicate non-terminal: ".toList).map .duplicateName <|>
    [noDeclarations, emptySymbol, limitReached].find? (·.detailIn .unicode = s)

def ofMessage? (s : Text) : Option Error :=
  (s.dropPrefix? "Invalid argument: ".toList).bind ofDetail?

def messageOfLine? (line : Text) : Option Text :=
  (Text.quotedBetween? "Error: InvalidArgument(".toList [')'] line).map
    ("Invalid argument: ".toList ++ ·)

def declaration? : Error → Option Text
  | .missingSeparator d => some d
  | .missingName d => some d
  | _ => none

def declarationOfLine? (line : Text) : Option Text :=
  ((messageOfLine? line).bind ofMessage?).bind declaration?

variable (h : Text.Hiding) {e : Error}

theorem ofDetail?_detailIn (he : e.isInvalidArgument) : ofDetail? (e.detailIn h) = some e := by
  cases e with
  | missingSeparator d =>
    have hread := h.quotedBetween?_quote "declaration has no `::=`: ".toList [] d
    rw [List.append_nil] at hread
    unfold ofDetail? detailIn
    rw [hread]
    rfl
  | missingName d =>
    have hread := h.quotedBetween?_quote "declaration has no non-terminal: ".toList [] d
    rw [List.append_nil] at hread
    have hother : Text.quotedBetween? "declaration has no `::=`: ".toList []
        ("declaration has no non-terminal: ".toList ++ h.quote d) = none := rfl
    unfold ofDetail? detailIn
    rw [hother, hread]
    rfl
  | duplicateName n =>
    have hread := Text.dropPrefix?_append "duplicate non-terminal: ".toList n
    have hseparator : Text.quotedBetween? "declaration has no `::=`: ".toList []
        ("duplicate non-terminal: ".toList ++ n) = none := rfl
    have hname : Text.quotedBetween? "declaration has no non-terminal: ".toList []
        ("duplicate non-terminal: ".toList ++ n) = none := rfl
    unfold ofDetail? detailIn
    rw [hseparator, hname, hread]
    rfl
  | noDeclarations => rfl
  | emptySymbol => rfl
  | limitReached => rfl
  | unreadable fault => cases he

theorem messageIn_of_isInvalidArgument (he : e.isInvalidArgument) :
    e.messageIn h = "Invalid argument: ".toList ++ e.detailIn h := by
  rw [messageIn, if_pos he]

theorem ofMessage?_messageIn (he : e.isInvalidArgument) :
    ofMessage? (e.messageIn h) = some e := by
  rw [messageIn_of_isInvalidArgument h he, ofMessage?, Text.dropPrefix?_append]
  exact ofDetail?_detailIn h he

theorem lineIn_of_isInvalidArgument (he : e.isInvalidArgument) :
    e.lineIn h = "Error: InvalidArgument(".toList ++ h.quote (e.detailIn h) ++ [')'] := by
  cases e with
  | unreadable fault => cases he
  | _ => rfl

theorem messageOfLine?_lineIn (he : e.isInvalidArgument) :
    messageOfLine? (e.lineIn h) = some (e.messageIn h) := by
  rw [lineIn_of_isInvalidArgument h he, messageOfLine?, h.quotedBetween?_quote,
    messageIn_of_isInvalidArgument h he]
  rfl

theorem declarationOfLine?_lineIn (he : e.isInvalidArgument) :
    declarationOfLine? (e.lineIn h) = e.declaration? := by
  rw [declarationOfLine?, messageOfLine?_lineIn h he, Option.bind_some, ofMessage?_messageIn h he]
  rfl

/-! ### Control characters -/

theorem not_isControl_of_mem_append {s t : Text} {c : Char} (hs : s.all (!Text.isControl ·))
    (ht : c ∈ t → ¬ Text.isControl c) (hc : c ∈ s ++ t) : ¬ Text.isControl c := by
  rcases List.mem_append.1 hc with hc | hc
  · simpa using List.all_eq_true.1 hs c hc
  · exact ht hc

theorem not_isControl_of_mem_lineIn (he : e.isInvalidArgument) {c : Char} (hc : c ∈ e.lineIn h) :
    ¬ Text.isControl c := by
  rw [lineIn_of_isInvalidArgument h he, List.append_assoc] at hc
  refine not_isControl_of_mem_append rfl ?_ hc
  intro hc
  rcases List.mem_append.1 hc with hc | hc
  · exact h.not_isControl_of_mem_quote hc
  · rw [List.mem_singleton.1 hc]
    decide

end Error

/-! ### Declarations -/

namespace Rule

variable (h : Text.Hiding) {d : Text} {e : Error}

theorem isInvalidArgument_of_parse (hparse : parse d = .error e) : e.isInvalidArgument := by
  rcases parse_eq_error_iff.1 hparse with ⟨-, rfl⟩ | ⟨-, -, -, -, rfl⟩ <;> rfl

theorem declaration?_of_parse (hparse : parse d = .error e) : e.declaration? = some d := by
  rcases parse_eq_error_iff.1 hparse with ⟨-, rfl⟩ | ⟨-, -, -, -, rfl⟩ <;> rfl

theorem not_isControl_of_mem_messageIn (hparse : parse d = .error e) {c : Char}
    (hc : c ∈ e.messageIn h) : ¬ Text.isControl c := by
  rw [Error.messageIn_of_isInvalidArgument h (isInvalidArgument_of_parse hparse)] at hc
  refine Error.not_isControl_of_mem_append rfl ?_ hc
  intro hc
  rcases parse_eq_error_iff.1 hparse with ⟨-, rfl⟩ | ⟨-, -, -, -, rfl⟩
  · exact Error.not_isControl_of_mem_append rfl h.not_isControl_of_mem_quote hc
  · exact Error.not_isControl_of_mem_append rfl h.not_isControl_of_mem_quote hc

end Rule

namespace Grammar

theorem declaration?_iff_of_ofDeclarations {ds : List Text} {e : Error}
    (h : ofDeclarations ds = .error e) {d : Text} :
    e.declaration? = some d ↔ d ∈ ds ∧ Rule.parse d = .error e := by
  constructor
  · intro hd
    rcases ofDeclarations_eq_error_iff.1 h with ⟨-, rfl⟩ | ⟨i, hfault, -⟩
    · cases hd
    · cases hfault with
      | refused here refused =>
        obtain rfl := Option.some.inj ((Rule.declaration?_of_parse refused).symm.trans hd)
        exact ⟨List.mem_of_getElem? here, refused⟩
      | repeated => cases hd
  · rintro ⟨-, hparse⟩
    exact Rule.declaration?_of_parse hparse

end Grammar

/-! ### Runs -/

namespace Report

variable {lim : Limits} {arguments : List Text} {files : Text → FileContent} {fresh : ChaCha.Key}
  {stdin : Bytes} {o : Options}

theorem stderr_ofRun_of_refused (hparse : Options.parse arguments = .ok o) {ds : List Text}
    (hread : Grammar.declarationsOfFile (files o.file) = .ok ds) {e : Error}
    (hrefused : Grammar.ofDeclarations ds = .error e) :
    (ofRun lim arguments files fresh stdin).stderr = e.lineIn .unicode ++ ['\n'] := by
  have hfile : Grammar.ofFile (files o.file) = .error e := by
    rw [Grammar.ofFile, hread]
    exact hrefused
  rw [ofRun_of_refused hparse (Options.load_eq_error hfile o fresh)]
  rfl

/-- The message and the declaration are read back out of the line that refuses them, whichever
characters are hidden, and there is no control character in it. -/
theorem refusal_is_read_back (h : Text.Hiding) :
    (∀ d e, Rule.parse d = .error e →
      (∀ c ∈ e.messageIn h, ¬ Text.isControl c) ∧
      ∀ d' e', Rule.parse d' = .error e' → e.messageIn h = e'.messageIn h → d = d' ∧ e = e') ∧
    (∀ ds e, Grammar.ofDeclarations ds = .error e →
      (∀ c ∈ e.lineIn h, ¬ Text.isControl c) ∧
      Error.messageOfLine? (e.lineIn h) = some (e.messageIn h) ∧
      ∀ d, Error.declarationOfLine? (e.lineIn h) = some d ↔ d ∈ ds ∧ Rule.parse d = .error e) ∧
    (∀ e : Error, e.messageIn .unicode = e.message) ∧
    ∀ (lim : Limits) (arguments : List Text) (files : Text → FileContent) (fresh : ChaCha.Key)
      (stdin : Bytes) (o : Options) (ds : List Text) (e : Error),
      Options.parse arguments = .ok o → Grammar.declarationsOfFile (files o.file) = .ok ds →
        Grammar.ofDeclarations ds = .error e →
          (ofRun lim arguments files fresh stdin).stderr = e.lineIn .unicode ++ ['\n'] := by
  refine ⟨?_, ?_, fun _ => rfl, ?_⟩
  · intro d e hparse
    refine ⟨fun c hc => Rule.not_isControl_of_mem_messageIn h hparse hc, ?_⟩
    intro d' e' hparse' hsame
    have hread := Error.ofMessage?_messageIn h (Rule.isInvalidArgument_of_parse hparse)
    rw [hsame, Error.ofMessage?_messageIn h (Rule.isInvalidArgument_of_parse hparse')] at hread
    obtain rfl := Option.some.inj hread
    have hd := Rule.declaration?_of_parse hparse
    rw [Rule.declaration?_of_parse hparse'] at hd
    exact ⟨(Option.some.inj hd).symm, rfl⟩
  · intro ds e hrefused
    have hinvalid := Grammar.isInvalidArgument_of_ofDeclarations hrefused
    refine ⟨fun c hc => Error.not_isControl_of_mem_lineIn h hinvalid hc,
      Error.messageOfLine?_lineIn h hinvalid, ?_⟩
    intro d
    rw [Error.declarationOfLine?_lineIn h hinvalid]
    exact Grammar.declaration?_iff_of_ofDeclarations hrefused
  · intro lim arguments files fresh stdin o ds e hparse hread hrefused
    exact stderr_ofRun_of_refused hparse hread hrefused

/-- A declaration with a delete character, and one that looks like the first one quoted. -/
theorem refusal_is_read_back_escapes :
    (Error.missingSeparator ['a', '\x7f']).messageIn .unicode ≠
        (Error.missingSeparator "a\\u\x7b7f\x7d".toList).messageIn .unicode ∧
      Error.declarationOfLine? ((Error.missingSeparator ['a', '\x7f']).lineIn .unicode) =
        some ['a', '\x7f'] ∧
      (ofRun ⟨40, 40⟩ ["g".toList] (fun _ => .bytes (Utf8.encode ['a', '\x7f'])) (.replicate 8 0)
          []).stderr =
        (Error.missingSeparator ['a', '\x7f']).lineIn .unicode ++ ['\n'] := by
  have hdelete : Rule.parse ['a', '\x7f'] = .error (.missingSeparator ['a', '\x7f']) := rfl
  have hlike : Rule.parse "a\\u\x7b7f\x7d".toList =
      .error (.missingSeparator "a\\u\x7b7f\x7d".toList) := rfl
  have hrefused : Grammar.ofDeclarations [['a', '\x7f']] =
      .error (.missingSeparator ['a', '\x7f']) := rfl
  obtain ⟨hmessages, hlines, -, hruns⟩ := refusal_is_read_back .unicode
  refine ⟨?_, ?_, ?_⟩
  · intro hsame
    obtain ⟨hdeclarations, -⟩ := (hmessages _ _ hdelete).2 _ _ hlike hsame
    simp at hdeclarations
  · obtain ⟨-, -, hdeclaration⟩ := hlines _ _ hrefused
    exact (hdeclaration _).2 ⟨List.mem_singleton.2 rfl, hdelete⟩
  · exact hruns ⟨40, 40⟩ ["g".toList] (fun _ => .bytes (Utf8.encode ['a', '\x7f']))
      (.replicate 8 0) [] ⟨"g".toList, none, 1, none, false, false⟩ _ _ rfl rfl hrefused

end Report

end BnfSentences
