import BnfSentences.Proofs.CommandLine.Batch
import BnfSentences.Proofs.Derivation.Spacing
import BnfSentences.Proofs.Grammar.Files

/-!
# Sentences printed one by one

A program that prints each sentence as soon as it is derived cannot fail halfway: only the
empty symbol fails, and that with the first call. `print_all_or_nothing` says so, and that the
lines of a grammar from a file tell their numbers and their sentences.
-/

namespace BnfSentences

universe u

variable {σ : Type u} [Source σ] {lim : Limits} {symbol : Text}

/-! ### Successive calls -/

namespace Generator

theorem derive_of_generate {g g' : Generator σ} {d : Derivation}
    (h : g.generate lim symbol = (.ok d, g')) :
    g.grammar.derive lim symbol g.source = .ok (d, g'.source) := by
  unfold generate at h
  split at h
  · cases h
  · next hderive =>
    obtain ⟨hd, rfl⟩ := Prod.mk.inj h
    rw [hderive, Except.ok.inj hd]

theorem Successive.exists_derive {g g' : Generator σ} {ds : List Derivation}
    (h : Successive lim symbol g ds g') {d : Derivation} (hd : d ∈ ds) :
    ∃ s s' : σ, g.grammar.derive lim symbol s = .ok (d, s') := by
  induction h with
  | none => cases hd
  | @next g _ _ _ _ first _ ih =>
    rcases List.mem_cons.1 hd with rfl | hd
    · exact ⟨_, _, derive_of_generate first⟩
    · have hgrammar := grammar_generate lim g symbol
      rw [first] at hgrammar
      rw [← hgrammar]
      exact ih hd

theorem generate_nil (g : Generator σ) : g.generate lim [] = (.error .emptySymbol, g) :=
  rfl

theorem generateMany_nil {count : UInt64} (hcount : 0 < count) (g : Generator σ) :
    g.generateMany lim [] count.toNat = (.error .emptySymbol, g) := by
  obtain ⟨n, hn⟩ := Nat.exists_eq_add_one.2 (UInt64.lt_iff_toNat_lt.1 hcount)
  rw [hn, generateMany_succ, generate_nil]

end Generator

/-! ### Printing -/

/-- The lines that were printed, the error that ended the calls, and the generator. -/
structure Printout (σ : Type u) where
  lines : Text
  error : Option Error
  generator : Generator σ

namespace Generator

/-- Calls that are still left to do, the line of each printed before the next is made. The number
on a line is computed in a machine word. -/
def printFrom (lim : Limits) (symbol : Text) : Nat → UInt64 → Generator σ → Printout σ
  | 0, _, g => ⟨[], none, g⟩
  | left + 1, i, g =>
    match g.generate lim symbol with
    | (.error e, g) => ⟨[], some e, g⟩
    | (.ok d, g) =>
      let others := printFrom lim symbol left (i + 1) g
      ⟨Session.numberedLine d (i + 1).toNat ++ others.lines, others.error, others.generator⟩

def print (g : Generator σ) (lim : Limits) (symbol : Text) (count : UInt64) : Printout σ :=
  printFrom lim symbol count.toNat 0 g

theorem toNat_succ_of_fits {i : UInt64} {n : Nat} (h : i.toNat + (n + 1) < UInt64.size) :
    (i + 1).toNat = i.toNat + 1 := by
  have hone : i.toNat + (1 : UInt64).toNat < UInt64.size := by
    rw [UInt64.toNat_one]
    omega
  rw [UInt64.toNat_add, UInt64.toNat_one]
  exact Nat.mod_eq_of_lt hone

theorem printFrom_of_successive {g g' : Generator σ} {ds : List Derivation}
    (h : Successive lim symbol g ds g') {i : UInt64} (hfits : i.toNat + ds.length < UInt64.size) :
    printFrom lim symbol ds.length i g = ⟨numbered (i.toNat + 1) ds, none, g'⟩ := by
  induction h generalizing i with
  | none => rfl
  | @next g g₁ g₂ d ds first _ ih =>
    have hnumber := toNat_succ_of_fits hfits
    have hothers := ih (i := i + 1) (by rw [hnumber]; rw [List.length_cons] at hfits; omega)
    rw [List.length_cons, printFrom, first]
    simp only [hothers, hnumber]
    simp [numbered, Session.numberedLine]

theorem print_of_successive {g g' : Generator σ} {ds : List Derivation} {count : UInt64}
    (h : Successive lim symbol g ds g') (hlength : ds.length = count.toNat) :
    g.print lim symbol count = ⟨Session.sentenceLines ds, none, g'⟩ := by
  have hfits : (0 : UInt64).toNat + ds.length < UInt64.size := by
    rw [UInt64.toNat_zero, Nat.zero_add, hlength]
    exact count.toNat_lt_size
  rw [print, ← hlength, printFrom_of_successive h hfits, Session.sentenceLines,
    ← Session.numbered_eq]
  rfl

theorem print_nil {count : UInt64} (hcount : 0 < count) (g : Generator σ) :
    g.print lim [] count = ⟨[], some .emptySymbol, g⟩ := by
  obtain ⟨n, hn⟩ := Nat.exists_eq_add_one.2 (UInt64.lt_iff_toNat_lt.1 hcount)
  rw [print, hn, printFrom, generate_nil]

theorem empty_or_exists_successive (g : Generator σ) {count : UInt64}
    (hreturns : symbol ≠ [] → g.Returns lim symbol count.toNat) :
    symbol = [] ∧ 0 < count ∨
      ¬ (symbol = [] ∧ 0 < count) ∧
        ∃ ds g', g.Successive lim symbol ds g' ∧ ds.length = count.toNat := by
  by_cases hempty : symbol = [] ∧ 0 < count
  · exact .inl hempty
  · have hmany : g.Returns lim symbol count.toNat := by
      by_cases hsymbol : symbol = []
      · have hzero : count = 0 := by
          by_contra hne
          exact hempty ⟨hsymbol, UInt64.pos_iff_ne_zero.2 hne⟩
        rw [hzero]
        trivial
      · exact hreturns hsymbol
    exact .inr ⟨hempty, exists_successive_of_returns hmany⟩

end Generator

/-! ### What runs and sessions make of it -/

theorem Error.report_emptySymbol :
    Error.emptySymbol.report = "InvalidArgument(\"symbol must not be empty\")".toList := by
  decide +kernel

theorem Options.sentences_nil {o : Options} (hcount : 0 < o.count) (g : Generator σ) :
    o.sentences lim g [] =
      ⟨1, [], "Error: ".toList ++ "InvalidArgument(\"symbol must not be empty\")".toList ++
        ['\n']⟩ := by
  rw [Options.sentences, Generator.generateMany_nil hcount, ← Error.report_emptySymbol]
  rfl

theorem Session.reactTo_nil {answer : Text} {count : UInt64} (hcount : 0 < count)
    (hanswer : Numeral.Denotes answer count.toNat) (g : Generator σ) :
    Session.reactTo lim ⟨g, .count []⟩ answer = .stop (.failed .emptySymbol) := by
  rw [Session.reactTo, Numeral.readCount_eq_some_iff.2 hanswer]
  simp only [Generator.generateMany_nil hcount]

/-! ### Lines that are read back -/

namespace Grammar

variable {g : Grammar}

theorem HasTree.newline_notMem_sentence (hone : ∀ r ∈ g.rules, r.OneLine) {t : Tree}
    (ht : g.HasTree t) (hdecl : g.productions? t.root ≠ none) : '\n' ∉ t.sentence := by
  intro hnewline
  rcases Text.mem_intercalate hnewline with hspace | ⟨l, hl, hnewline⟩
  · exact absurd hspace (by decide)
  · obtain ⟨hterm, rfl | ⟨s, alternatives, hs, p, hp, htoken⟩⟩ := ht.of_mem_leaves hl
    · exact hdecl hterm
    · obtain ⟨r, hr, -, rfl⟩ := exists_rule_of_productions? hs
      exact (hone r hr).token_no_newline p hp l htoken hnewline

theorem newline_notMem_of_derive (hg : g.WellFormed) (hone : ∀ r ∈ g.rules, r.OneLine)
    (hsymbol : symbol ∈ g.symbols) {s s' : σ} {d : Derivation}
    (h : g.derive lim symbol s = .ok (d, s')) : '\n' ∉ d.sentence := by
  obtain ⟨t, ht, rfl, hfollows⟩ := derive_follows hg h
  obtain ⟨alternatives, hdecl⟩ := mem_symbols_iff.1 hsymbol
  have hsentence : d.sentence = t.sentence := hfollows.sentence
  rw [hsentence]
  apply ht.newline_notMem_sentence hone
  rw [hdecl]
  exact Option.some_ne_none _

end Grammar

namespace Session

/-- The number and the sentence that a line shows. -/
def readNumbered (line : Text) : Option (Nat × Text) :=
  (Text.cutFirst ['.', ' '] line).bind fun (number, sentence) =>
    (Numeral.read number).map fun n => (n, sentence)

/-- What lines show that are all ended by newlines. -/
def readSentences (s : Text) : Option (List (Nat × Text)) :=
  (s.splitOn '\n').dropLast.mapM readNumbered

theorem readNumbered_line (n : Nat) (sentence : Text) :
    readNumbered (Numeral.print n ++ ['.', ' '] ++ sentence) = some (n, sentence) := by
  have hfirst : ¬ ['.', ' '] <:+: Numeral.print n ++ ['.', ' '].dropLast := by
    intro hin
    have hspace : ' ' ∈ Numeral.print n ++ ['.'] := hin.subset (by decide)
    rcases List.mem_append.1 hspace with hspace | hspace
    · exact absurd (Numeral.isDigit_of_mem_print hspace) (by decide)
    · exact absurd hspace (by decide)
  rw [readNumbered, Text.cutFirst_append (by decide) hfirst]
  simp [Numeral.read_print]

def linesFrom (ds : List Derivation) (first : Nat) : List Text :=
  (ds.zipIdx first).map fun (d, i) => Numeral.print i ++ ['.', ' '] ++ d.sentence

theorem sentenceLines_eq (ds : List Derivation) :
    sentenceLines ds = (linesFrom ds 1).flatMap (· ++ ['\n']) := by
  rw [sentenceLines, linesFrom, List.flatMap_map]
  rfl

theorem newline_notMem_linesFrom {ds : List Derivation} (h : ∀ d ∈ ds, '\n' ∉ d.sentence)
    (first : Nat) : ∀ l ∈ linesFrom ds first, '\n' ∉ l := by
  intro l hl hnewline
  obtain ⟨⟨d, i⟩, hd, rfl⟩ := List.mem_map.1 hl
  rcases List.mem_append.1 hnewline with hnewline | hnewline
  · rcases List.mem_append.1 hnewline with hnewline | hnewline
    · exact absurd (Numeral.isDigit_of_mem_print hnewline) (by decide)
    · exact absurd hnewline (by decide)
  · exact h d (List.fst_mem_of_mem_zipIdx hd) hnewline

theorem mapM_readNumbered_linesFrom (ds : List Derivation) (first : Nat) :
    (linesFrom ds first).mapM readNumbered =
      some ((ds.zipIdx first).map fun (d, i) => (i, d.sentence)) := by
  induction ds generalizing first with
  | nil => rfl
  | cons d ds ih =>
    have hothers := ih (first + 1)
    rw [linesFrom] at hothers ⊢
    rw [List.zipIdx_cons, List.map_cons, List.mapM_cons, readNumbered_line, hothers]
    rfl

theorem lines_sentenceLines {ds : List Derivation} (h : ∀ d ∈ ds, '\n' ∉ d.sentence) :
    (sentenceLines ds).splitOn '\n' = linesFrom ds 1 ++ [[]] := by
  rw [sentenceLines_eq]
  exact Text.splitOn_ended (newline_notMem_linesFrom h 1)

theorem readSentences_sentenceLines {ds : List Derivation} (h : ∀ d ∈ ds, '\n' ∉ d.sentence) :
    readSentences (sentenceLines ds) = some ((ds.zipIdx 1).map fun (d, i) => (i, d.sentence)) := by
  rw [readSentences, lines_sentenceLines h, List.dropLast_concat, mapM_readNumbered_linesFrom]

end Session

/-! ### All or nothing -/

namespace Generator

variable {g : Generator σ} {count : UInt64}

theorem toNat_succ_of_lt {i : UInt64} (h : i < count) : (i + 1).toNat = i.toNat + 1 := by
  apply toNat_succ_of_fits (n := 0)
  have hlt := UInt64.lt_iff_toNat_lt.1 h
  have hcount : count.toNat < UInt64.size := count.toNat_lt_size
  omega

theorem newline_notMem_of_successive {file : FileContent}
    (hfile : Grammar.ofFile file = .ok g.grammar) (hsymbol : symbol ∈ g.grammar.symbols)
    {g' : Generator σ} {ds : List Derivation} (hcalls : g.Successive lim symbol ds g') :
    ∀ d ∈ ds, '\n' ∉ d.sentence := by
  intro d hd
  have hwf := Grammar.constructed_iff_wellFormed.1 (.ofFile hfile)
  obtain ⟨s, s', hderive⟩ := hcalls.exists_derive hd
  exact Grammar.newline_notMem_of_derive hwf (Grammar.oneLine_of_ofFile hfile) hsymbol hderive

/-- Printing fails only for the empty symbol, with nothing printed or drawn, if the derivations
return. Otherwise it is line by line what successive calls give. -/
theorem print_all_or_nothing (hreturns : symbol ≠ [] → g.Returns lim symbol count.toNat)
    {p : Printout σ} (hprint : g.print lim symbol count = p) :
    (p.error ≠ none ↔ symbol = [] ∧ 0 < count) ∧
    (p.error ≠ none → p = ⟨[], some .emptySymbol, g⟩) ∧
    (p.error = none → ∃ ds, g.Successive lim symbol ds p.generator ∧ ds.length = count.toNat ∧
      p.lines = ((ds.zipIdx 1).flatMap fun (d, i) =>
        Numeral.print i ++ ['.', ' '] ++ d.sentence ++ ['\n']) ∧
      ∀ file, Grammar.ofFile file = .ok g.grammar → symbol ∈ g.grammar.symbols →
        (∀ d ∈ ds, '\n' ∉ d.sentence) ∧
        (∃ ls, p.lines.splitOn '\n' = ls ++ [[]] ∧ ls.length = count.toNat) ∧
        Session.readSentences p.lines = some ((ds.zipIdx 1).map fun (d, i) => (i, d.sentence))) ∧
    (∀ i < count, (i + 1).toNat = i.toNat + 1) ∧
    (∀ (o : Options) r, o.count = count → o.sentences lim g symbol = r →
      r.stdout = p.lines ∧ (p.error = none → r.status = 0 ∧ r.stderr = []) ∧
      (p.error ≠ none → r.status = 1 ∧
        r.stderr = "Error: ".toList ++
          "InvalidArgument(\"symbol must not be empty\")".toList ++ ['\n'])) ∧
    ∀ answer, Numeral.Denotes answer count.toNat →
      (p.error = none →
        Session.reactTo lim ⟨g, .count symbol⟩ answer =
          .go (p.lines ++ '\n' :: "What do you want to generate (Enter to quit)? ".toList)
            ⟨p.generator, .symbol⟩) ∧
      ∀ e, p.error = some e →
        Session.reactTo lim ⟨g, .count symbol⟩ answer = .stop (.failed e) := by
  rcases empty_or_exists_successive g hreturns with
    ⟨rfl, hcount⟩ | ⟨hnonempty, ds, g', hcalls, hlength⟩
  · obtain rfl := (print_nil hcount g).symm.trans hprint
    refine ⟨?_, fun _ => rfl, nofun, fun i hi => toNat_succ_of_lt hi, ?_, ?_⟩
    · exact ⟨fun _ => ⟨rfl, hcount⟩, fun _ => Option.some_ne_none _⟩
    · rintro o r rfl hr
      obtain rfl := (Options.sentences_nil hcount g).symm.trans hr
      exact ⟨rfl, nofun, fun _ => ⟨rfl, rfl⟩⟩
    · intro answer hanswer
      refine ⟨nofun, ?_⟩
      rintro e he
      obtain rfl := Option.some.inj he
      exact Session.reactTo_nil hcount hanswer g
  · obtain rfl := (print_of_successive hcalls hlength).symm.trans hprint
    refine ⟨⟨fun h => absurd rfl h, fun h => absurd h hnonempty⟩, fun h => absurd rfl h, ?_,
      fun i hi => toNat_succ_of_lt hi, ?_, ?_⟩
    · intro _
      refine ⟨ds, hcalls, hlength, rfl, ?_⟩
      intro file hfile hsymbol
      have hnewline := newline_notMem_of_successive hfile hsymbol hcalls
      refine ⟨hnewline, ⟨Session.linesFrom ds 1, Session.lines_sentenceLines hnewline, ?_⟩,
        Session.readSentences_sentenceLines hnewline⟩
      rw [Session.linesFrom, List.length_map, List.length_zipIdx, hlength]
    · rintro o r rfl hr
      obtain rfl := (Options.sentences_of_successive hcalls hlength).symm.trans hr
      exact ⟨rfl, fun _ => ⟨rfl, rfl⟩, fun h => absurd rfl h⟩
    · intro answer hanswer
      rw [← hlength] at hanswer
      exact ⟨fun _ => Session.reactTo_of_successive hcalls hanswer, nofun⟩

/-- Two sentences of a grammar from a file, the second of them empty, and three of no symbol. -/
theorem print_all_or_nothing_nested :
    Grammar.ofFile (.bytes (Utf8.encode "s ::= x s y |".toList)) = .ok Grammar.nested ∧
      (∃ ds p, print (⟨Grammar.nested, ⟨[0, 0x80000000, 0x80000000]⟩⟩ : Generator Tape) ⟨3, 1⟩
            ['s'] 2 = p ∧
          Successive ⟨3, 1⟩ ['s'] ⟨Grammar.nested, ⟨[0, 0x80000000, 0x80000000]⟩⟩ ds p.generator ∧
          ds.length = 2 ∧ p.lines = "1. x y\n2. \n".toList ∧
          Session.readSentences p.lines = some ((ds.zipIdx 1).map fun (d, i) => (i, d.sentence))) ∧
      print ⟨Grammar.nested, (⟨[7]⟩ : Tape)⟩ ⟨3, 1⟩ [] 3 =
        ⟨[], some .emptySymbol, ⟨Grammar.nested, ⟨[7]⟩⟩⟩ := by
  have hfile : Grammar.ofFile (.bytes (Utf8.encode "s ::= x s y |".toList)) =
      .ok Grammar.nested := rfl
  have hreturns : Returns ⟨3, 1⟩ ['s'] (2 : UInt64).toNat
      (⟨Grammar.nested, ⟨[0, 0x80000000, 0x80000000]⟩⟩ : Generator Tape) :=
    ⟨_, _, rfl, _, _, rfl, trivial⟩
  have hlines : Printout.lines (print (⟨Grammar.nested, ⟨[0, 0x80000000, 0x80000000]⟩⟩ :
      Generator Tape) ⟨3, 1⟩ ['s'] 2) = "1. x y\n2. \n".toList := by
    decide +kernel
  obtain ⟨hfails, -, hprinted, -⟩ := print_all_or_nothing (fun _ => hreturns) rfl
  obtain ⟨ds, hcalls, hlength, -, hloaded⟩ := hprinted (not_not.1 (mt hfails.1 (by decide)))
  obtain ⟨-, -, hread⟩ := hloaded _ hfile (by decide)
  obtain ⟨hfails', hnothing, -⟩ := @print_all_or_nothing Tape _ ⟨3, 1⟩ []
    ⟨Grammar.nested, ⟨[7]⟩⟩ 3 (fun h => absurd rfl h) _ rfl
  exact ⟨hfile, ⟨ds, _, rfl, hcalls, hlength, hlines, hread⟩, hnothing (hfails'.2 ⟨rfl, by decide⟩)⟩

end Generator

end BnfSentences
