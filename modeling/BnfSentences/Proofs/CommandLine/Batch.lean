import BnfSentences.Proofs.CommandLine.Arguments
import BnfSentences.Proofs.CommandLine.Rounds
import Mathlib.Algebra.GroupWithZero.Nat

/-!
# Rounds of a session and one batch

A run that is given its symbol prints one batch of sentences; a session asks for the
symbol and a count over and over. `rounds_print_batch` says that under one seed both
print the same sentences in the same order, those of one call after another.
-/

namespace BnfSentences.Session

universe u

variable {σ : Type u} [Source σ] {lim : Limits} {symbol : Text}

/-! ### What is asked and what is said -/

/-- The lines of rounds, and the counts among their answers. Lines that get a count name
`symbol` between white space. -/
inductive Counts (symbol : Text) : List (Text × Text) → List Nat → Prop where
  | none : Counts symbol [] []
  | number {line answer : Text} {n : Nat} {rounds : List (Text × Text)} {counts : List Nat}
      (named : Text.trim line = symbol) (number : Numeral.Denotes (Text.trim answer) n)
      (others : Counts symbol rounds counts) :
      Counts symbol ((line, answer) :: rounds) (n :: counts)
  | refused {line answer : Text} {rounds : List (Text × Text)} {counts : List Nat}
      (named : Text.trim line ≠ []) (noNumber : ∀ n, ¬ Numeral.Denotes (Text.trim answer) n)
      (others : Counts symbol rounds counts) :
      Counts symbol ((line, answer) :: rounds) counts

def sentenceLines (ds : List Derivation) : Text :=
  (ds.zipIdx 1).flatMap fun (d, i) => numberedLine d i

/-- What is said in rounds. The numbers of the sentences start anew in each. -/
inductive Said : List (Text × Text) → List (List Derivation) → Text → Prop where
  | none : Said [] [] []
  | sentences {line answer said : Text} {rounds : List (Text × Text)} {ds : List Derivation}
      {dss : List (List Derivation)} (number : Numeral.Denotes (Text.trim answer) ds.length)
      (others : Said rounds dss said) :
      Said ((line, answer) :: rounds) (ds :: dss)
        ("How many do you want me to generate? ".toList ++ sentenceLines ds ++
          '\n' :: "What do you want to generate (Enter to quit)? ".toList ++ said)
  | refusal {line answer said : Text} {rounds : List (Text × Text)}
      {dss : List (List Derivation)} (noNumber : ∀ n, ¬ Numeral.Denotes (Text.trim answer) n)
      (others : Said rounds dss said) :
      Said ((line, answer) :: rounds) dss
        ("How many do you want me to generate? ".toList ++ "Not a number: ".toList ++
          Text.trim answer ++ '\n' :: "What do you want to generate (Enter to quit)? ".toList ++
            said)

def asking (rounds : List (Text × Text)) : Text :=
  rounds.flatMap fun round => round.1 ++ '\n' :: (round.2 ++ ['\n'])

def pairsOf (rounds : List (Text × Text)) : List (Bytes × Bytes) :=
  rounds.map fun round => (Utf8.encode (round.1 ++ ['\n']), Utf8.encode (round.2 ++ ['\n']))

/-! ### Rounds of one symbol -/

theorem cutLines_asking {rounds : List (Text × Text)}
    (hlines : ∀ round ∈ rounds, '\n' ∉ round.1 ∧ '\n' ∉ round.2) :
    Utf8.cutLines (Utf8.encode (asking rounds)) = linesOf (pairsOf rounds) := by
  induction rounds with
  | nil => rfl
  | cons round rounds ih =>
    have hcut : asking (round :: rounds) =
        round.1 ++ '\n' :: (round.2 ++ '\n' :: asking rounds) := by
      simp [asking]
    obtain ⟨⟨hfirst, hsecond⟩, hothers⟩ := List.forall_mem_cons.1 hlines
    rw [hcut, Utf8.cutLines_encode hfirst, Utf8.cutLines_encode hsecond, ih hothers]
    rfl

theorem reads_line (s : Text) : Reads (Utf8.encode (s ++ ['\n'])) (Text.trim s) :=
  ⟨s ++ ['\n'], rfl, Text.trim_append_blank (by decide) s⟩

theorem asks_of_trim {line : Text} (hne : Text.trim line ≠ []) (answer : Text) :
    Asks (Utf8.encode (line ++ ['\n']), Utf8.encode (answer ++ ['\n'])) (Text.trim line)
      (Text.trim answer) :=
  ⟨reads_line line, hne, reads_line answer⟩

/-- Calls one after another, cut into rounds with the counts that were asked for. -/
theorem exists_rounds_of_counts {rounds : List (Text × Text)} {counts : List Nat}
    (hne : symbol ≠ []) (hcounts : Counts symbol rounds counts) {g g' : Generator σ}
    {ds : List Derivation} (hcalls : g.Successive lim symbol ds g')
    (hlength : ds.length = counts.sum) :
    ∃ dss said, dss.flatten = ds ∧ dss.map List.length = counts ∧ Said rounds dss said ∧
      Rounds lim g (pairsOf rounds) said g' := by
  induction hcounts generalizing g ds with
  | none =>
    obtain rfl := List.length_eq_zero_iff.1 hlength
    cases hcalls
    exact ⟨[], [], rfl, rfl, .none, .none _⟩
  | @number line answer n rounds counts named number _ ih =>
    rw [List.sum_cons] at hlength
    have htake : (ds.take n).length = n := by
      rw [List.length_take]
      omega
    have hdrop : (ds.drop n).length = counts.sum := by
      rw [List.length_drop]
      omega
    rw [← List.take_append_drop n ds, Generator.successive_append_iff] at hcalls
    obtain ⟨g₁, hfirst, hothers⟩ := hcalls
    obtain ⟨dss, said, hflatten, hlengths, hsaid, hrounds⟩ := ih hothers hdrop
    rw [← htake] at number
    rw [← named] at hne hfirst
    have hround := Round.answered (asks_of_trim hne answer) number hfirst
    refine ⟨ds.take n :: dss, _, ?_, ?_, .sentences number hsaid, .next hround hrounds⟩
    · rw [List.flatten_cons, hflatten, List.take_append_drop]
    · rw [List.map_cons, htake, hlengths]
  | @refused line answer rounds counts named noNumber _ ih =>
    obtain ⟨dss, said, hflatten, hlengths, hsaid, hrounds⟩ := ih hcalls hlength
    have hround : Round lim g _ _ g := .refused (asks_of_trim named answer) noNumber
    exact ⟨dss, _, hflatten, hlengths, .refusal noNumber hsaid, .next hround hrounds⟩

theorem report_of_rounds {g g' : Generator σ} {pairs : List (Bytes × Bytes)} {said : Text}
    {stdin : Bytes} (hlines : Utf8.cutLines stdin = linesOf pairs)
    (hrounds : Rounds lim g pairs said g') :
    report lim { generator := g } stdin = ⟨0, opening g.grammar ++ said, []⟩ := by
  have hconverse := hrounds.converse []
  rw [List.append_nil, RunsOut.atSymbol.converse, List.append_nil, ← hlines] at hconverse
  exact report_of_finished hconverse

end BnfSentences.Session

namespace BnfSentences.Options

universe u

variable {σ : Type u} [Source σ] {lim : Limits} {symbol : Text} {o : Options}

theorem sentences_of_successive {g g' : Generator σ} {ds : List Derivation}
    (hcalls : g.Successive lim symbol ds g') (hlength : ds.length = o.count.toNat) :
    o.sentences lim g symbol = ⟨0, Session.sentenceLines ds, []⟩ := by
  have hmany := Generator.generateMany_eq_ok_iff.2 ⟨hlength, hcalls⟩
  rw [sentences, hmany, Session.sentenceLines, ← Session.numbered_eq]
  rfl

end BnfSentences.Options

namespace BnfSentences.Report

variable {lim : Limits}

theorem load_of_seed {o : Options} {seed : UInt64} {content : FileContent}
    {declarations : List Text} {key : ChaCha.Key} {g : Generator ChaCha}
    (hdeclarations : Grammar.declarationsOfFile content = .ok declarations)
    (hconfig : Generator.ofConfig key declarations ⟨some seed⟩ = .ok g)
    (hseed : o.seed = some seed) (fresh : ChaCha.Key) : o.load fresh content = .ok g := by
  rw [Options.load, hdeclarations, hseed]
  exact hconfig

theorem ofRun_of_symbol {arguments : List Text} {files : Text → FileContent} {key : ChaCha.Key}
    {file symbol : Text} {count : UInt64} {seed : Option UInt64} {g g' : Generator ChaCha}
    {ds : List Derivation}
    (hparse : Options.parse arguments = .ok ⟨file, some symbol, count, seed, false, false⟩)
    (hload : Options.load ⟨file, some symbol, count, seed, false, false⟩ key (files file) = .ok g)
    (hcalls : g.Successive lim symbol ds g') (hlength : ds.length = count.toNat)
    (stdin : Bytes) :
    ofRun lim arguments files key stdin = ⟨0, Session.sentenceLines ds, []⟩ := by
  have hsentences := @Options.sentences_of_successive _ _ _ _
    ⟨file, some symbol, count, seed, false, false⟩ _ _ _ hcalls hlength
  simp [ofRun, hparse, Options.start, hload, Options.follow, hsentences]

theorem ofRun_without_symbol {arguments : List Text} {files : Text → FileContent}
    {key : ChaCha.Key} {file : Text} {count : UInt64} {seed : Option UInt64}
    {g : Generator ChaCha}
    (hparse : Options.parse arguments = .ok ⟨file, none, count, seed, false, false⟩)
    (hload : Options.load ⟨file, none, count, seed, false, false⟩ key (files file) = .ok g)
    (stdin : Bytes) :
    ofRun lim arguments files key stdin = Session.report lim { generator := g } stdin := by
  simp [ofRun, hparse, Options.start, hload, Options.follow]

/-- Under one seed, rounds of a symbol print the sentences that one run prints for the sum of
their counts. Rounds that are refused change nothing. -/
theorem rounds_print_batch (lim : Limits) (files : Text → FileContent) {file symbol : Text}
    {declarations : List Text} {rounds : List (Text × Text)} {counts : List Nat} {seed : UInt64}
    {seedText total : Text} {g : Generator ChaCha} {key : ChaCha.Key} (hfile : file ≠ [])
    (hdeclarations : Grammar.declarationsOfFile (files file) = .ok declarations)
    (hconfig : Generator.ofConfig key declarations ⟨some seed⟩ = .ok g) (hne : symbol ≠ [])
    (hlines : ∀ round ∈ rounds, '\n' ∉ round.1 ∧ '\n' ∉ round.2)
    (hcounts : Session.Counts symbol rounds counts)
    (hseed : Numeral.Denotes seedText seed.toNat) (htotal : Numeral.Denotes total counts.sum)
    (hreturns : g.Returns lim symbol counts.sum) :
    ∃ ds g' dss said, g.Successive lim symbol ds g' ∧ ds.length = counts.sum ∧
      dss.flatten = ds ∧ dss.map List.length = counts ∧ Session.Said rounds dss said ∧
      (∀ fresh stdin r,
        ofRun lim
            (Options.placed [file, symbol]
              (Options.Setting.count.put total ++ Options.Setting.seed.put seedText))
            files fresh stdin = r →
          r.status = 0 ∧ r.stdout = Session.sentenceLines ds ∧ r.stderr = []) ∧
      ∀ fresh r,
        ofRun lim (Options.placed [file] (Options.Setting.seed.put seedText)) files fresh
            (Utf8.encode (Session.asking rounds)) = r →
          r.status = 0 ∧
          r.stdout = "Available symbols to generate are:\n[".toList ++
            [',', ' '].intercalate g.grammar.symbols ++ "]\n".toList ++
            "What do you want to generate (Enter to quit)? ".toList ++ said ∧
          r.stderr = [] := by
  obtain ⟨ds, g', hcalls, hlength⟩ := Generator.exists_successive_of_returns hreturns
  obtain ⟨dss, said, hflatten, hlengths, hsaid, hrounds⟩ :=
    Session.exists_rounds_of_counts hne hcounts hcalls hlength
  have hreadSeed := Numeral.readCount_eq_some_iff.2 hseed
  have hload : ∀ (o : Options) fresh, o.seed = some seed → o.load fresh (files file) = .ok g :=
    fun o fresh h => load_of_seed hdeclarations hconfig h fresh
  refine ⟨ds, g', dss, said, hcalls, hlength, hflatten, hlengths, hsaid, ?_, ?_⟩
  · intro fresh stdin r hr
    obtain ⟨n, hreadTotal, hn⟩ := Numeral.exists_readCount_of_denotes htotal
    have hparse := Options.parse_placed_symbol hfile symbol hreadTotal hreadSeed
    have hrun := ofRun_of_symbol hparse (hload _ fresh rfl) hcalls (hlength.trans hn.symm) stdin
    obtain rfl := hrun.symm.trans hr
    exact ⟨rfl, rfl, rfl⟩
  · intro fresh r hr
    have hparse := Options.parse_placed_file hfile hreadSeed
    rw [ofRun_without_symbol hparse (hload _ fresh rfl)] at hr
    obtain rfl := (Session.report_of_rounds (Session.cutLines_asking hlines) hrounds).symm.trans hr
    exact ⟨rfl, rfl, rfl⟩

/-- The grammar `-s ::= x | y -s`. -/
def hyphened : Grammar :=
  ⟨[⟨"-s".toList, [⟨["x".toList]⟩, ⟨["y".toList, "-s".toList]⟩]⟩]⟩

theorem exists_calls_hyphened :
    ∃ ds g', Generator.Successive ⟨40, 40⟩ "-s".toList (⟨hyphened, .ofSeed 4⟩ : Generator ChaCha)
        ds g' ∧
      ds.map Derivation.sentence = ["y y x".toList, "y y y y x".toList, "y x".toList] := by
  have hsentences : ((⟨hyphened, .ofSeed 4⟩ : Generator ChaCha).generateMany ⟨40, 40⟩
      "-s".toList 3).1.toOption.map (·.map Derivation.sentence) =
        some ["y y x".toList, "y y y y x".toList, "y x".toList] := by
    decide +kernel
  obtain ⟨result, g', hthree⟩ : ∃ result g',
      (⟨hyphened, .ofSeed 4⟩ : Generator ChaCha).generateMany ⟨40, 40⟩ "-s".toList 3 =
        (result, g') :=
    ⟨_, _, rfl⟩
  rw [hthree] at hsentences
  obtain ⟨ds, hresult, hds⟩ := Option.map_eq_some_iff.1 hsentences
  obtain rfl : result = .ok ds := by
    cases result with
    | error e => cases hresult
    | ok es => exact congrArg Except.ok (Option.some.inj hresult)
  exact ⟨ds, g', (Generator.generateMany_eq_ok_iff.1 hthree).2, hds⟩

/-- A symbol with a hyphen for 2, 0 and 1 sentences, and another that gets no number. -/
theorem rounds_print_batch_hyphen :
    ∃ ds dss said, ds.map Derivation.sentence =
        ["y y x".toList, "y y y y x".toList, "y x".toList] ∧
      dss.flatten = ds ∧ dss.map List.length = [2, 0, 1] ∧
      Session.Said [("-s".toList, "+2\r".toList), ("z".toList, "many".toList),
        (" -s".toList, "0".toList), ("-s".toList, " 1".toList)] dss said ∧
      (ofRun ⟨40, 40⟩ ["g".toList, "-n".toList, "03".toList, "--seed".toList, "4".toList,
          "--".toList, "-s".toList]
          (fun _ => .bytes (Utf8.encode "# two\n-s ::= x | y -s".toList)) (.replicate 8 0)
          []).stdout = Session.sentenceLines ds ∧
      (ofRun ⟨40, 40⟩ ["g".toList, "--seed".toList, "4".toList]
          (fun _ => .bytes (Utf8.encode "# two\n-s ::= x | y -s".toList)) (.replicate 8 0)
          (Utf8.encode "-s\n+2\r\nz\nmany\n -s\n0\n-s\n 1\n".toList)).stdout =
        "Available symbols to generate are:\n[".toList ++ "-s".toList ++ "]\n".toList ++
          "What do you want to generate (Enter to quit)? ".toList ++ said := by
  have hdeclarations : Grammar.declarationsOfFile
      (.bytes (Utf8.encode "# two\n-s ::= x | y -s".toList)) = .ok ["-s ::= x | y -s".toList] := rfl
  have hconfig : Generator.ofConfig (.replicate 8 0) ["-s ::= x | y -s".toList] ⟨some 4⟩ =
      .ok ⟨hyphened, .ofSeed 4⟩ := rfl
  have htwo : Numeral.Denotes (Text.trim "+2\r".toList) 2 :=
    ⟨['2'], .inr rfl, by decide, List.all_eq_true.1 rfl, rfl, by decide⟩
  have hmany : ∀ n, ¬ Numeral.Denotes (Text.trim "many".toList) n :=
    Numeral.readCount_eq_none_iff.1 rfl
  have hnone : Numeral.Denotes (Text.trim "0".toList) 0 :=
    ⟨['0'], .inl rfl, by decide, List.all_eq_true.1 rfl, rfl, by decide⟩
  have hone : Numeral.Denotes (Text.trim " 1".toList) 1 :=
    ⟨['1'], .inl rfl, by decide, List.all_eq_true.1 rfl, rfl, by decide⟩
  have hcounts : Session.Counts "-s".toList [("-s".toList, "+2\r".toList),
      ("z".toList, "many".toList), (" -s".toList, "0".toList), ("-s".toList, " 1".toList)]
      [2, 0, 1] :=
    .number rfl htwo (.refused (by decide) hmany (.number rfl hnone (.number rfl hone .none)))
  have hseed : Numeral.Denotes "4".toList (4 : UInt64).toNat :=
    ⟨['4'], .inl rfl, by decide, List.all_eq_true.1 rfl, rfl, by decide⟩
  have htotal : Numeral.Denotes "03".toList ([2, 0, 1] : List Nat).sum :=
    ⟨['0', '3'], .inl rfl, by decide, List.all_eq_true.1 rfl, rfl, by decide⟩
  obtain ⟨es, g₁, hes, hsentences⟩ := exists_calls_hyphened
  have hlength : es.length = 3 := by simpa using congrArg List.length hsentences
  have hreturns := hes.returns
  rw [hlength] at hreturns
  obtain ⟨ds, g₂, dss, said, hds, hdslength, hflatten, hlengths, hsaid, hbatch, hsession⟩ :=
    rounds_print_batch ⟨40, 40⟩ (fun _ => .bytes (Utf8.encode "# two\n-s ::= x | y -s".toList))
      (show "g".toList ≠ [] by decide) hdeclarations hconfig (by decide) (by decide) hcounts hseed
      htotal hreturns
  obtain ⟨rfl, -⟩ := hds.unique hes (hdslength.trans hlength.symm)
  exact ⟨ds, dss, said, hsentences, hflatten, hlengths, hsaid, (hbatch _ _ _ rfl).2.1,
    (hsession _ _ rfl).2.1⟩

end BnfSentences.Report
