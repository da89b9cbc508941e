import BnfSentences.CommandLine.Run
import BnfSentences.Proofs.Generator.Successive
import BnfSentences.Proofs.Text.Numeral
import BnfSentences.Proofs.Text.Utf8
import BnfSentences.Source.Tape
import Mathlib.Data.List.Induction

/-!
# Rounds of a session

A session goes in rounds of two lines, a symbol and a count, until its input runs
out or it stops at a line. `report_rounds` says what it prints, and that the lines
after the one at which it stops are never looked at.
-/

namespace BnfSentences.Session

universe u

variable {σ : Type u} [Source σ] {lim : Limits}

/-! ### Lines -/

/-- A line that is UTF-8, and what it says between white space. -/
def Reads (line : Bytes) (s : Text) : Prop :=
  ∃ u, line = Utf8.encode u ∧ Text.trim u = s

def Unreadable (line : Bytes) : Prop :=
  ∀ u, line ≠ Utf8.encode u

theorem unreadable_or_reads (line : Bytes) : Unreadable line ∨ ∃ s, Reads line s := by
  by_cases h : Unreadable line
  · exact .inl h
  · obtain ⟨u, hu⟩ := not_forall_not.1 h
    exact .inr ⟨_, u, hu, rfl⟩

theorem react_of_unreadable {line : Bytes} (h : Unreadable line) (s : Session σ) :
    s.react lim line = .stop .unreadable := by
  rw [react, Utf8.decode_eq_none_iff.2 h]

theorem react_of_reads {line : Bytes} {text : Text} (h : Reads line text) (s : Session σ) :
    s.react lim line = s.reactTo lim text := by
  obtain ⟨u, hline, rfl⟩ := h
  rw [react, Utf8.decode_eq_some_iff.2 hline]

/-! ### Rounds -/

def numberedLine (d : Derivation) (number : Nat) : Text :=
  Numeral.print number ++ ['.', ' '] ++ d.sentence ++ ['\n']

/-- Two lines that ask for sentences: a symbol, and an answer to how many. -/
structure Asks (pair : Bytes × Bytes) (symbol answer : Text) : Prop where
  symbol_line : Reads pair.1 symbol
  symbol_ne : symbol ≠ []
  answer_line : Reads pair.2 answer

/-- One round: its two lines, what is said after the symbol, and the generator after it. -/
inductive Round (lim : Limits) (g : Generator σ) (pair : Bytes × Bytes) :
    Text → Generator σ → Prop where
  | answered {symbol answer : Text} {ds : List Derivation} {g' : Generator σ}
      (asks : Asks pair symbol answer) (number : Numeral.Denotes answer ds.length)
      (derived : g.Successive lim symbol ds g') :
      Round lim g pair
        ("How many do you want me to generate? ".toList ++
          (ds.zipIdx 1).flatMap (fun (d, i) => numberedLine d i) ++
          '\n' :: "What do you want to generate (Enter to quit)? ".toList) g'
  | refused {symbol answer : Text} (asks : Asks pair symbol answer)
      (noNumber : ∀ n, ¬ Numeral.Denotes answer n) :
      Round lim g pair
        ("How many do you want me to generate? ".toList ++ "Not a number: ".toList ++ answer ++
          '\n' :: "What do you want to generate (Enter to quit)? ".toList) g

inductive Rounds (lim : Limits) :
    Generator σ → List (Bytes × Bytes) → Text → Generator σ → Prop where
  | none (g : Generator σ) : Rounds lim g [] [] g
  | next {g g₁ g₂ : Generator σ} {pair : Bytes × Bytes} {pairs : List (Bytes × Bytes)}
      {said rest : Text} (round : Round lim g pair said g₁) (others : Rounds lim g₁ pairs rest g₂) :
      Rounds lim g (pair :: pairs) (said ++ rest) g₂

/-- The lines of the last round, if the input ends where a line is asked for. -/
inductive RunsOut : List Bytes → Text → Prop where
  | atSymbol : RunsOut [] []
  | atCount {first : Bytes} {symbol : Text} (asked : Reads first symbol) (symbol_ne : symbol ≠ []) :
      RunsOut [first] "How many do you want me to generate? ".toList

/-- The lines of the last round, if the session stops at the last of them. -/
inductive StopsAt : List Bytes → Text → Ending → Prop where
  | blankSymbol {first : Bytes} {u : Text} (line : first = Utf8.encode u) (blank : Text.isBlank u) :
      StopsAt [first] [] .finished
  | unreadableSymbol {first : Bytes} (broken : Unreadable first) : StopsAt [first] [] .unreadable
  | unreadableCount {first second : Bytes} {symbol : Text} (asked : Reads first symbol)
      (symbol_ne : symbol ≠ []) (broken : Unreadable second) :
      StopsAt [first, second] "How many do you want me to generate? ".toList .unreadable

/-- Two lines that ask for sentences of which one does not return within the limits. -/
inductive Overruns (lim : Limits) (g : Generator σ) (pair : Bytes × Bytes) : Prop where
  | mk {symbol answer : Text} {n : Nat} {ds : List Derivation} {g' : Generator σ}
      (asks : Asks pair symbol answer) (number : Numeral.Denotes answer n)
      (derived : g.Successive lim symbol ds g') (length_lt : ds.length < n)
      (stuck : g'.generate lim symbol = (.error .limitReached, g'))

/-! ### What is said in a round -/

theorem numbered_eq (first : Nat) (ds : List Derivation) :
    numbered first ds = (ds.zipIdx first).flatMap fun (d, i) => numberedLine d i := by
  induction ds generalizing first with
  | nil => rfl
  | cons d ds ih =>
    rw [numbered, ih, List.zipIdx_cons, List.flatMap_cons]
    simp [numberedLine]

theorem converse_of_go {line : Bytes} {text output : Text} {s next : Session σ}
    (h : Reads line text) (hreact : s.reactTo lim text = .go output next) (lines : List Bytes) :
    s.converse lim (line :: lines) =
      (output ++ (next.converse lim lines).1, (next.converse lim lines).2) := by
  simp [converse, react_of_reads h, hreact]

theorem reactTo_symbol {symbol : Text} (hne : symbol ≠ []) (g : Generator σ) :
    reactTo lim { generator := g } symbol = .go askCount ⟨g, .count symbol⟩ := by
  simp [reactTo, hne]

theorem reactTo_of_successive {symbol answer : Text} {ds : List Derivation} {g g' : Generator σ}
    (derived : g.Successive lim symbol ds g') (number : Numeral.Denotes answer ds.length) :
    reactTo lim ⟨g, .count symbol⟩ answer =
      .go ((ds.zipIdx 1).flatMap (fun (d, i) => numberedLine d i) ++ '\n' :: askSymbol)
        ⟨g', .symbol⟩ := by
  obtain ⟨w, hcount, hw⟩ := Numeral.exists_readCount_of_denotes number
  have hmany := Generator.generateMany_eq_ok_iff.2 ⟨hw.symm, derived⟩
  rw [reactTo, hcount]
  simp only [hmany, numbered_eq]

theorem reactTo_of_no_number {symbol answer : Text} (noNumber : ∀ n, ¬ Numeral.Denotes answer n)
    (g : Generator σ) :
    reactTo lim ⟨g, .count symbol⟩ answer =
      .go ("Not a number: ".toList ++ answer ++ '\n' :: askSymbol) ⟨g, .symbol⟩ := by
  rw [reactTo, Numeral.readCount_eq_none_iff.2 noNumber]
  unfold notANumber
  rw [List.append_assoc]
  rfl

theorem Round.converse {g g' : Generator σ} {pair : Bytes × Bytes} {said : Text}
    (h : Round lim g pair said g') (lines : List Bytes) :
    Session.converse lim { generator := g } (pair.1 :: pair.2 :: lines) =
      (said ++ (Session.converse lim { generator := g' } lines).1,
        (Session.converse lim { generator := g' } lines).2) := by
  cases h with
  | answered asks number derived =>
    rw [converse_of_go asks.symbol_line (reactTo_symbol asks.symbol_ne g),
      converse_of_go asks.answer_line (reactTo_of_successive derived number)]
    simp only [List.append_assoc]
    rfl
  | refused asks noNumber =>
    rw [converse_of_go asks.symbol_line (reactTo_symbol asks.symbol_ne g),
      converse_of_go asks.answer_line (reactTo_of_no_number noNumber g)]
    simp only [List.append_assoc]
    rfl

def linesOf (pairs : List (Bytes × Bytes)) : List Bytes :=
  pairs.flatMap fun pair => [pair.1, pair.2]

theorem length_linesOf (pairs : List (Bytes × Bytes)) :
    (linesOf pairs).length = 2 * pairs.length := by
  induction pairs with
  | nil => rfl
  | cons pair pairs ih =>
    rw [linesOf, List.flatMap_cons, List.length_append, ← linesOf, ih]
    simp only [List.length_cons, List.length_nil]
    omega

theorem Rounds.converse {g g' : Generator σ} {pairs : List (Bytes × Bytes)} {said : Text}
    (h : Rounds lim g pairs said g') (lines : List Bytes) :
    Session.converse lim { generator := g } (linesOf pairs ++ lines) =
      (said ++ (Session.converse lim { generator := g' } lines).1,
        (Session.converse lim { generator := g' } lines).2) := by
  induction h with
  | none g => rfl
  | @next g g₁ g₂ pair pairs said rest round _ ih =>
    have hround := round.converse (linesOf pairs ++ lines)
    rw [ih] at hround
    simpa [linesOf] using hround

/-! ### How a session ends -/

theorem RunsOut.converse {last : List Bytes} {said : Text} (h : RunsOut last said)
    (g : Generator σ) :
    Session.converse lim { generator := g } last = (said, .finished) := by
  cases h with
  | atSymbol => rfl
  | atCount asked symbol_ne =>
    rw [converse_of_go asked (reactTo_symbol symbol_ne g), Session.converse, List.append_nil]
    rfl

theorem StopsAt.converse {last : List Bytes} {said : Text} {ending : Ending}
    (h : StopsAt last said ending) (g : Generator σ) (lines : List Bytes) :
    Session.converse lim { generator := g } (last ++ lines) = (said, ending) := by
  cases h with
  | @blankSymbol first u line blank =>
    have hreads : Reads first [] := ⟨u, line, Text.trim_eq_nil.2 blank⟩
    rw [List.singleton_append, Session.converse, react_of_reads hreads]
    rfl
  | unreadableSymbol broken =>
    rw [List.singleton_append, Session.converse, react_of_unreadable broken]
  | unreadableCount asked symbol_ne broken =>
    rw [List.cons_append, List.singleton_append,
      converse_of_go asked (reactTo_symbol symbol_ne g), Session.converse,
      react_of_unreadable broken, List.append_nil]
    rfl

/-! ### All sessions go in rounds -/

/-- What is left of the lines when no more rounds follow. -/
def Ends (lim : Limits) (g : Generator σ) (lines : List Bytes) : Prop :=
  (∃ said, RunsOut lines said) ∨
    (∃ last rest said ending, lines = last ++ rest ∧ StopsAt last said ending) ∨
      ∃ pair rest, lines = pair.1 :: pair.2 :: rest ∧ Overruns lim g pair

theorem stopsAt_or_symbol (first : Bytes) :
    (∃ said ending, StopsAt [first] said ending) ∨ ∃ symbol, Reads first symbol ∧ symbol ≠ [] := by
  rcases unreadable_or_reads first with hbroken | ⟨symbol, hsymbol⟩
  · exact .inl ⟨_, _, .unreadableSymbol hbroken⟩
  · by_cases hne : symbol = []
    · obtain ⟨u, hline, htrim⟩ := hsymbol
      have hblank := Text.trim_eq_nil.1 (htrim.trans hne)
      exact .inl ⟨_, _, .blankSymbol hline hblank⟩
    · exact .inr ⟨symbol, hsymbol, hne⟩

theorem round_or_overruns (g : Generator σ) {pair : Bytes × Bytes} {symbol answer : Text}
    (asks : Asks pair symbol answer) :
    (∃ said g', Round lim g pair said g') ∨ Overruns lim g pair := by
  cases hcount : Numeral.readCount answer with
  | none => exact .inl ⟨_, _, .refused asks (Numeral.readCount_eq_none_iff.1 hcount)⟩
  | some n =>
    have hnumber := Numeral.readCount_eq_some_iff.1 hcount
    obtain ⟨result, g', hmany⟩ : ∃ result g', g.generateMany lim symbol n.toNat = (result, g') :=
      ⟨_, _, rfl⟩
    cases result with
    | ok ds =>
      obtain ⟨hlength, hderived⟩ := Generator.generateMany_eq_ok_iff.1 hmany
      rw [← hlength] at hnumber
      exact .inl ⟨_, _, .answered asks hnumber hderived⟩
    | error e =>
      obtain ⟨-, ds, g₁, hlength, hderived, hstuck⟩ :=
        Generator.exists_of_generateMany_eq_error hmany
      obtain rfl := Generator.eq_limitReached_of_generate asks.symbol_ne hstuck
      exact .inr (.mk asks hnumber hderived hlength hstuck)

theorem round_or_ends (g : Generator σ) (first second : Bytes) (rest : List Bytes) :
    (∃ said g', Round lim g (first, second) said g') ∨ Ends lim g (first :: second :: rest) := by
  rcases stopsAt_or_symbol first with ⟨said, ending, hstops⟩ | ⟨symbol, hsymbol, hne⟩
  · exact .inr (.inr (.inl ⟨[first], second :: rest, said, ending, rfl, hstops⟩))
  rcases unreadable_or_reads second with hbroken | ⟨answer, hanswer⟩
  · have hstops := StopsAt.unreadableCount hsymbol hne hbroken
    exact .inr (.inr (.inl ⟨[first, second], rest, _, _, rfl, hstops⟩))
  have hasks : Asks (first, second) symbol answer := ⟨hsymbol, hne, hanswer⟩
  rcases round_or_overruns g hasks with hround | hoverruns
  · exact .inl hround
  · exact .inr (.inr (.inr ⟨(first, second), rest, rfl, hoverruns⟩))

theorem ends_singleton (g : Generator σ) (first : Bytes) : Ends lim g [first] := by
  rcases stopsAt_or_symbol first with ⟨said, ending, hstops⟩ | ⟨symbol, hsymbol, hne⟩
  · exact .inr (.inl ⟨[first], [], said, ending, rfl, hstops⟩)
  · exact .inl ⟨_, .atCount hsymbol hne⟩

theorem exists_rounds (g : Generator σ) (lines : List Bytes) :
    ∃ pairs said g' rest, lines = linesOf pairs ++ rest ∧ Rounds lim g pairs said g' ∧
      Ends lim g' rest := by
  induction lines using List.twoStepInduction generalizing g with
  | nil => exact ⟨[], [], g, [], rfl, .none g, .inl ⟨_, .atSymbol⟩⟩
  | singleton first => exact ⟨[], [], g, [first], rfl, .none g, ends_singleton g first⟩
  | cons_cons first second lines ih _ =>
    rcases round_or_ends g first second lines with ⟨said, g₁, hround⟩ | hends
    · obtain ⟨pairs, others, g₂, rest, rfl, hrounds, hends⟩ := ih g₁
      exact ⟨(first, second) :: pairs, _, g₂, rest, rfl, .next hround hrounds, hends⟩
    · exact ⟨[], [], g, first :: second :: lines, rfl, .none g, hends⟩

theorem report_of_finished {g : Generator σ} {stdin : Bytes} {said : Text}
    (h : converse lim { generator := g } (Utf8.cutLines stdin) = (said, .finished)) :
    report lim { generator := g } stdin = ⟨0, opening g.grammar ++ said, []⟩ := by
  rw [report, h]
  rfl

theorem report_of_unreadable {g : Generator σ} {stdin : Bytes} {said : Text}
    (h : converse lim { generator := g } (Utf8.cutLines stdin) = (said, .unreadable)) :
    report lim { generator := g } stdin =
      ⟨1, opening g.grammar ++ said, "Error: Error \x7b kind: InvalidData, message: ".toList ++
        "\"stream did not contain valid UTF-8\" \x7d\n".toList⟩ := by
  rw [report, h]
  rfl

theorem StopsAt.finished_or_unreadable {last : List Bytes} {said : Text} {ending : Ending}
    (h : StopsAt last said ending) : ending = .finished ∨ ending = .unreadable := by
  cases h with
  | blankSymbol => exact .inl rfl
  | unreadableSymbol => exact .inr rfl
  | unreadableCount => exact .inr rfl

/-- A session reads rounds of two lines until it stops or its input ends, and prints what is
said in them. Nothing after the line at which it stops matters. -/
theorem report_rounds (lim : Limits) (g : Generator σ) (stdin : Bytes) :
    ∃ r lines pairs said g', report lim { generator := g } stdin = r ∧
      Utf8.InLines stdin lines ∧ Rounds lim g pairs said g' ∧
      pairs.length + 1 ≤ lines.length / 2 + 1 ∧
      ((∃ last lastSaid rest, lines = linesOf pairs ++ last ++ rest ∧
          r.stdout = "Available symbols to generate are:\n[".toList ++
            [',', ' '].intercalate g.grammar.symbols ++ "]\n".toList ++
            "What do you want to generate (Enter to quit)? ".toList ++ said ++ lastSaid ∧
          (RunsOut last lastSaid ∧ rest = [] ∧ r.status = 0 ∧ r.stderr = [] ∨
            (∃ ending, StopsAt last lastSaid ending ∧
              (ending = .finished ∧ r.status = 0 ∧ r.stderr = [] ∨
                ending = .unreadable ∧ r.status = 1 ∧
                  r.stderr = "Error: Error \x7b kind: InvalidData, message: ".toList ++
                    "\"stream did not contain valid UTF-8\" \x7d\n".toList)) ∧
            ∀ stdin' lines', Utf8.InLines stdin' lines' → linesOf pairs ++ last <+: lines' →
              report lim { generator := g } stdin' = r)) ∨
        ∃ pair rest, Overruns lim g' pair ∧
          lines = linesOf pairs ++ pair.1 :: pair.2 :: rest) := by
  obtain ⟨pairs, said, g', last, hlast, hrounds, hends⟩ := exists_rounds g (Utf8.cutLines stdin)
  obtain ⟨r, hr⟩ : ∃ r, report lim { generator := g } stdin = r := ⟨_, rfl⟩
  have hlength : pairs.length + 1 ≤ (Utf8.cutLines stdin).length / 2 + 1 := by
    rw [hlast, List.length_append, length_linesOf]
    omega
  refine ⟨r, _, pairs, said, g', hr, Utf8.inLines_cutLines stdin, hrounds, hlength, ?_⟩
  rcases hends with ⟨lastSaid, hout⟩ | ⟨last, rest, lastSaid, ending, rfl, hstops⟩ |
    ⟨pair, rest, rfl, hoverruns⟩
  · have hconverse : converse lim { generator := g } (Utf8.cutLines stdin) =
        (said ++ lastSaid, .finished) := by
      rw [hlast, hrounds.converse, hout.converse]
    obtain rfl := (report_of_finished hconverse).symm.trans hr
    exact .inl ⟨last, lastSaid, [], hlast.trans (List.append_nil _).symm,
      (List.append_assoc _ _ _).symm, .inl ⟨hout, rfl, rfl, rfl⟩⟩
  · have hconverse : ∀ stdin' rest', Utf8.cutLines stdin' = linesOf pairs ++ last ++ rest' →
        converse lim { generator := g } (Utf8.cutLines stdin') = (said ++ lastSaid, ending) := by
      intro stdin' rest' hlines'
      rw [hlines', List.append_assoc, hrounds.converse, hstops.converse]
    rw [← List.append_assoc] at hlast
    have hsame : ∀ stdin' lines', Utf8.InLines stdin' lines' → linesOf pairs ++ last <+: lines' →
        report lim { generator := g } stdin' = r := by
      rintro stdin' _ hlines' ⟨rest', rfl⟩
      have hlast' := hlines'.cutLines_eq
      rw [← hr, report, report, hconverse stdin rest hlast, hconverse stdin' rest' hlast']
    rcases hstops.finished_or_unreadable with rfl | rfl
    · obtain rfl := (report_of_finished (hconverse stdin rest hlast)).symm.trans hr
      exact .inl ⟨last, lastSaid, rest, hlast, (List.append_assoc _ _ _).symm,
        .inr ⟨⟨_, hstops, .inl ⟨rfl, rfl, rfl⟩⟩, hsame⟩⟩
    · obtain rfl := (report_of_unreadable (hconverse stdin rest hlast)).symm.trans hr
      exact .inl ⟨last, lastSaid, rest, hlast, (List.append_assoc _ _ _).symm,
        .inr ⟨⟨_, hstops, .inr ⟨rfl, rfl, rfl⟩⟩, hsame⟩⟩
  · exact .inr ⟨pair, rest, hoverruns, hlast⟩

/-- A round with two sentences, one that is refused, and a blank line. -/
example :
    report ⟨3, 1⟩ { generator := ⟨Grammar.nested, (⟨[0, 0x80000000, 0x80000000]⟩ : Tape)⟩ }
        (Utf8.encode "s\r\n+2\ns\n-1\n \n".toList ++ [0xFF]) =
      ⟨0, opening Grammar.nested ++ askCount ++ "1. x y\n2. \n\n".toList ++ askSymbol ++
        askCount ++ "Not a number: -1\n".toList ++ askSymbol, []⟩ := by
  decide +kernel

end BnfSentences.Session
