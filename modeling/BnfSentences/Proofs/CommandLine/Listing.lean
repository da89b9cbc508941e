import BnfSentences.Proofs.CommandLine.Status
import BnfSentences.Proofs.Derivation.Queries

/-!
# Symbols listed and typed

The list of a grammar has one symbol on each line, and each of these lines can be typed where a
session asks for a symbol. `listed_can_be_selected` says that neither white space around it nor
the end of the line or of the input has a part in which symbol is meant.
-/

namespace BnfSentences

universe u

namespace Session

/-! ### Typed lines -/

def Padding (s : Text) : Prop :=
  Text.isBlank s ∧ '\n' ∉ s

/-- An input that begins with this line, however that is ended, and the rest of it. -/
inductive Typed (line : Text) : Bytes → Bytes → Prop where
  | ended (e : Text.LineEnd) (rest : Bytes) : Typed line (Utf8.encode (line ++ e.text) ++ rest) rest
  | atEnd : Typed line (Utf8.encode line) []

theorem Padding.append {s t : Text} (hs : Padding s) (ht : Padding t) : Padding (s ++ t) :=
  ⟨Text.isBlank_append.2 ⟨hs.1, ht.1⟩, fun h => (List.mem_append.1 h).elim hs.2 ht.2⟩

/-- A return before the newline is one more blank behind the line. -/
theorem exists_padding_lineEnd (e : Text.LineEnd) : ∃ s, Padding s ∧ e.text = s ++ ['\n'] := by
  cases e with
  | newline => exact ⟨[], ⟨rfl, List.not_mem_nil⟩, rfl⟩
  | returnNewline => exact ⟨['\r'], ⟨by decide, by decide⟩, rfl⟩

theorem cutLines_line {s : Text} (h : '\n' ∉ s) (rest : Bytes) :
    Utf8.cutLines (Utf8.encode (s ++ ['\n']) ++ rest) =
      Utf8.encode (s ++ ['\n']) :: Utf8.cutLines rest := by
  have hline : Utf8.encode (s ++ ['\n']) = Utf8.encode s ++ [Utf8.newline] := List.flatMap_append
  rw [hline, List.append_assoc, List.singleton_append,
    Utf8.cutLines_append (Utf8.newline_notMem_encode h)]

theorem cutLines_atEnd {s : Text} (hne : s ≠ []) (h : '\n' ∉ s) :
    Utf8.cutLines (Utf8.encode s) = [Utf8.encode s] := by
  refine Utf8.cutLines_eq_singleton ?_ (Utf8.newline_notMem_encode h)
  intro hnil
  have hdecode := Utf8.decode_encode s
  rw [hnil] at hdecode
  exact hne (Option.some.inj hdecode).symm

section Padded

variable {before after name : Text} (hbefore : Padding before) (hafter : Padding after)

include hbefore hafter

theorem newline_notMem_padded (hname : '\n' ∉ name) : '\n' ∉ before ++ name ++ after := by
  simp only [List.mem_append, not_or]
  exact ⟨⟨hbefore.2, hname⟩, hafter.2⟩

theorem reads_typed (hne : name ≠ []) (htrimmed : Text.IsTrimmed name) (hname : '\n' ∉ name)
    {stdin rest : Bytes} (h : Typed (before ++ name ++ after) stdin rest) :
    ∃ line, Utf8.cutLines stdin = line :: Utf8.cutLines rest ∧ Reads line name := by
  cases h with
  | ended e =>
    obtain ⟨s, hs, he⟩ := exists_padding_lineEnd e
    have hend := hafter.append hs
    have hblank : Text.isBlank (after ++ s ++ ['\n']) := Text.isBlank_append.2 ⟨hend.1, by decide⟩
    have hline : before ++ name ++ after ++ e.text = before ++ name ++ (after ++ s) ++ ['\n'] := by
      simp [he]
    have hread : before ++ name ++ (after ++ s) ++ ['\n'] =
        before ++ name ++ (after ++ s ++ ['\n']) := by
      simp
    rw [hline]
    refine ⟨_, cutLines_line (newline_notMem_padded hbefore hend hname) rest, _, rfl, ?_⟩
    rw [hread, Text.trim_append hbefore.1 hblank]
    exact htrimmed
  | atEnd =>
    have hline : before ++ name ++ after ≠ [] := by simp [hne]
    refine ⟨_, cutLines_atEnd hline (newline_notMem_padded hbefore hafter hname), _, rfl, ?_⟩
    rw [Text.trim_append hbefore.1 hafter.1]
    exact htrimmed

end Padded

/-! ### Symbols that are typed -/

variable {σ : Type u} [Source σ] {lim : Limits} {symbol : Text}

theorem react_symbol {line : Bytes} (h : Reads line symbol) (hne : symbol ≠ [])
    (g : Generator σ) :
    react lim ⟨g, .symbol⟩ line = .go askCount ⟨g, .count symbol⟩ := by
  rw [react_of_reads h, reactTo_symbol hne]

theorem exists_react_count {g : Generator σ} (hg : g.grammar.WellFormed)
    (hsymbol : symbol ∈ g.grammar.symbols) {second : Bytes} {answer : Text} {n : Nat}
    (hanswer : Reads second answer) (hnumber : Numeral.Denotes answer n)
    (hreturns : g.Returns lim symbol n) :
    ∃ ds g', g.Successive lim symbol ds g' ∧ ds.length = n ∧
      react lim ⟨g, .count symbol⟩ second =
        .go (sentenceLines ds ++ '\n' :: askSymbol) ⟨g', .symbol⟩ ∧
      ∀ d ∈ ds, ∃ p es, d.trace = ⟨symbol, p⟩ :: es := by
  obtain ⟨ds, g', hcalls, rfl⟩ := Generator.exists_successive_of_returns hreturns
  refine ⟨ds, g', hcalls, rfl, ?_, ?_⟩
  · rw [react_of_reads hanswer, reactTo_of_successive hcalls hnumber]
    rfl
  · intro d hd
    obtain ⟨s, s', hderive⟩ := hcalls.exists_derive hd
    exact (Grammar.derive_of_declared hg hsymbol hderive).1

end Session

/-! ### Symbols that are listed -/

namespace Grammar

theorem newline_notMem_of_mem_symbols {g : Grammar} (hone : ∀ r ∈ g.rules, r.OneLine) {name : Text}
    (h : name ∈ g.symbols) : '\n' ∉ name := by
  obtain ⟨r, hr, rfl⟩ := List.mem_map.1 h
  exact (hone r hr).name_no_newline

theorem WellFormed.isTrimmed_of_mem_symbols {g : Grammar} (hg : g.WellFormed) {name : Text}
    (h : name ∈ g.symbols) : name ≠ [] ∧ Text.IsTrimmed name := by
  obtain ⟨r, hr, rfl⟩ := List.mem_map.1 h
  exact ⟨(hg.rule r hr).name_ne_nil, (hg.rule r hr).name_trimmed⟩

end Grammar

namespace Report

open Session

variable {σ : Type u} [Source σ]

/-- The symbols of a file are listed one on each line, and each of these lines, typed with any
blanks around it, makes a session derive from that very symbol. -/
theorem listed_can_be_selected {file : FileContent} {g : Grammar}
    (hfile : Grammar.ofFile file = .ok g) :
    (∀ (lim : Limits) (arguments : List Text) (files : Text → FileContent) (fresh : ChaCha.Key)
      (stdin : Bytes) (o : Options), Options.parse arguments = .ok o → files o.file = file →
        o.list → ¬ o.json →
          (ofRun lim arguments files fresh stdin).stdout.splitOn '\n' = g.symbols ++ [[]]) ∧
    (∀ name ∈ g.symbols, name ≠ [] ∧ '\n' ∉ name) ∧
    ∀ name ∈ g.symbols, ∀ (lim : Limits) (gen : Generator σ), gen.grammar = g →
      (∀ before after, Padding before → Padding after → ∀ stdin rest,
        Typed (before ++ name ++ after) stdin rest →
          ∃ line, Utf8.cutLines stdin = line :: Utf8.cutLines rest ∧
            react lim ⟨gen, .symbol⟩ line = .go askCount ⟨gen, .count name⟩) ∧
      ∀ second answer n, Reads second answer → Numeral.Denotes answer n →
        gen.Returns lim name n →
          ∃ ds gen', gen.Successive lim name ds gen' ∧ ds.length = n ∧
            react lim ⟨gen, .count name⟩ second =
              .go (sentenceLines ds ++ '\n' :: askSymbol) ⟨gen', .symbol⟩ ∧
            ∀ d ∈ ds, ∃ p es, d.trace = ⟨name, p⟩ :: es := by
  have hwf := Grammar.constructed_iff_wellFormed.1 (.ofFile hfile)
  have hone := Grammar.oneLine_of_ofFile hfile
  have hnewline : ∀ name ∈ g.symbols, '\n' ∉ name :=
    fun name hname => Grammar.newline_notMem_of_mem_symbols hone hname
  refine ⟨?_, ?_, ?_⟩
  · rintro lim arguments files fresh stdin o hparse rfl hlist hjson
    rw [ofRun_of_listing hparse hfile (.inr hlist), if_neg hjson]
    exact Text.splitOn_ended hnewline
  · intro name hname
    exact ⟨(hwf.isTrimmed_of_mem_symbols hname).1, hnewline name hname⟩
  · rintro name hname lim gen rfl
    obtain ⟨hne, htrimmed⟩ := hwf.isTrimmed_of_mem_symbols hname
    constructor
    · intro before after hbefore hafter stdin rest htyped
      obtain ⟨line, hline, hreads⟩ :=
        reads_typed hbefore hafter hne htrimmed (hnewline name hname) htyped
      exact ⟨line, hline, react_symbol hreads hne gen⟩
    · intro second answer n hanswer hnumber hreturns
      exact exists_react_count hwf hname hanswer hnumber hreturns

/-- The grammar whose symbols are `a`, a return and `b`, and a zero-width space. -/
def unusual : Grammar :=
  ⟨[⟨['a', '\r', 'b'], [⟨[['x']]⟩]⟩, ⟨['\u200B'], [⟨[['a', '\r', 'b']]⟩, ⟨[]⟩]⟩]⟩

theorem listed_can_be_selected_unusual :
    Grammar.ofFile (.bytes (Utf8.encode "a\rb ::= x\n\u200B ::= a\rb |".toList)) = .ok unusual ∧
      (ofRun ⟨1, 1⟩ ["--list".toList, "g".toList]
        (fun _ => .bytes (Utf8.encode "a\rb ::= x\n\u200B ::= a\rb |".toList)) (.replicate 8 0)
        []).stdout.splitOn '\n' = [['a', '\r', 'b'], ['\u200B'], []] ∧
      (∃ line, Utf8.cutLines (Utf8.encode "\t\u200B\u00A0\r\n 1".toList) =
          line :: Utf8.cutLines (Utf8.encode [' ', '1']) ∧
        react ⟨3, 1⟩ ⟨⟨unusual, (⟨[0, 0, 7]⟩ : Tape)⟩, .symbol⟩ line =
          .go askCount ⟨⟨unusual, ⟨[0, 0, 7]⟩⟩, .count ['\u200B']⟩) ∧
      ∃ ds gen', Generator.Successive ⟨3, 1⟩ ['\u200B'] ⟨unusual, (⟨[0, 0, 7]⟩ : Tape)⟩ ds gen' ∧
        ds.length = 1 ∧
        react ⟨3, 1⟩ ⟨⟨unusual, (⟨[0, 0, 7]⟩ : Tape)⟩, .count ['\u200B']⟩
            (Utf8.encode [' ', '1']) =
          .go (sentenceLines ds ++ '\n' :: askSymbol) ⟨gen', .symbol⟩ ∧
        ∀ d ∈ ds, ∃ p es, d.trace = ⟨['\u200B'], p⟩ :: es := by
  have hfile : Grammar.ofFile (.bytes (Utf8.encode "a\rb ::= x\n\u200B ::= a\rb |".toList)) =
      .ok unusual := rfl
  have hparse : Options.parse ["--list".toList, "g".toList] =
      .ok ⟨"g".toList, none, 1, none, true, false⟩ := rfl
  have hpadding : ∀ c, Text.isWhite c → c ≠ '\n' → Padding [c] := by
    intro c hwhite hne
    exact ⟨by simpa [Text.isBlank] using hwhite, by simpa using hne.symm⟩
  have htyped : Typed (['\t'] ++ ['\u200B'] ++ ['\u00A0'])
      (Utf8.encode "\t\u200B\u00A0\r\n 1".toList) (Utf8.encode [' ', '1']) :=
    .ended .returnNewline _
  have hanswer : Reads (Utf8.encode [' ', '1']) ['1'] := ⟨_, rfl, rfl⟩
  have hnumber : Numeral.Denotes ['1'] 1 :=
    ⟨['1'], .inl rfl, by decide, List.all_eq_true.1 rfl, rfl, by decide⟩
  have hreturns : Generator.Returns ⟨3, 1⟩ ['\u200B'] 1
      (⟨unusual, ⟨[0, 0, 7]⟩⟩ : Generator Tape) :=
    ⟨_, _, rfl, trivial⟩
  obtain ⟨hlisted, -, hselected⟩ := listed_can_be_selected (σ := Tape) hfile
  obtain ⟨hselects, hcounts⟩ := hselected ['\u200B'] (by decide) ⟨3, 1⟩
    ⟨unusual, ⟨[0, 0, 7]⟩⟩ rfl
  exact ⟨hfile, hlisted _ _ _ _ _ _ hparse rfl rfl Bool.false_ne_true,
    hselects _ _ (hpadding '\t' rfl (by decide)) (hpadding '\u00A0' rfl (by decide)) _ _ htyped,
    hcounts _ _ _ hanswer hnumber hreturns⟩

end Report

end BnfSentences
