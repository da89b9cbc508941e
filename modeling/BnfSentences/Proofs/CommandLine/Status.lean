import BnfSentences.Proofs.CommandLine.Sentences
import BnfSentences.Proofs.Grammar.Presentation

/-!
# Exit status

A run that is asked for something exits with zero or one. `status_eq_one_iff` says when it is
one: the file gives no grammar, the symbol is empty, or a session meets a line that is not
UTF-8. What is listed depends on the file alone.
-/

namespace BnfSentences

universe u

/-! ### Files that give no grammar -/

namespace Grammar

/-- A file that cannot be read, declares nothing, or has a declaration at fault. -/
inductive Refused : FileContent → Prop where
  | missing : Refused .missing
  | directory : Refused .directory
  | notUtf8 {bs : Bytes} (broken : ∀ s, bs ≠ Utf8.encode s) : Refused (.bytes bs)
  | noDeclarations {s : Text} (none : declarationsOfText s = []) :
      Refused (.bytes (Utf8.encode s))
  | atFault {s : Text} {i : Nat} {e : Error} (fault : FaultAt (declarationsOfText s) i e) :
      Refused (.bytes (Utf8.encode s))

theorem not_faultAt_of_ofDeclarations {ds : List Text} {g : Grammar}
    (h : ofDeclarations ds = .ok g) (i : Nat) (e : Error) : ¬ FaultAt ds i e := by
  obtain ⟨table, htable, -⟩ := bind_eq_ok_iff.1 h
  exact not_faultAt_of_foldlM htable

theorem refused_iff {file : FileContent} : Refused file ↔ ∃ e, ofFile file = .error e := by
  constructor
  · intro h
    cases h with
    | missing => exact ⟨_, rfl⟩
    | directory => exact ⟨_, rfl⟩
    | notUtf8 broken =>
      rw [ofFile, declarationsOfFile, declarationsOfBytes_eq, Utf8.decode_eq_none_iff.2 broken]
      exact ⟨_, rfl⟩
    | noDeclarations none =>
      rw [ofFile_encode, ofText, none]
      exact ⟨_, rfl⟩
    | @atFault s i e fault =>
      rw [ofFile_encode]
      cases hs : ofText s with
      | error e' => exact ⟨e', rfl⟩
      | ok g => exact absurd fault (not_faultAt_of_ofDeclarations hs i e)
  · rintro ⟨e, h⟩
    cases file with
    | missing => exact .missing
    | directory => exact .directory
    | bytes bs =>
      cases hs : Utf8.decode bs with
      | none => exact .notUtf8 (Utf8.decode_eq_none_iff.1 hs)
      | some s =>
        rw [Utf8.eq_encode_of_decode hs] at h ⊢
        rw [ofFile_encode] at h
        rcases ofDeclarations_eq_error_iff.1 h with ⟨hnone, -⟩ | ⟨i, hfault, -⟩
        · exact .noDeclarations hnone
        · exact .atFault hfault

theorem exists_ofFile_of_not_refused {file : FileContent} (h : ¬ Refused file) :
    ∃ g, ofFile file = .ok g := by
  rw [refused_iff] at h
  cases hfile : ofFile file with
  | error e => exact absurd ⟨e, hfile⟩ h
  | ok g => exact ⟨g, rfl⟩

end Grammar

namespace Options

variable {o : Options} {fresh : ChaCha.Key} {file : FileContent}

theorem map_grammar_load (o : Options) (fresh : ChaCha.Key) (file : FileContent) :
    (o.load fresh file).map Generator.grammar = Grammar.ofFile file := by
  unfold load Grammar.ofFile
  cases Grammar.declarationsOfFile file with
  | error e => rfl
  | ok ds => exact Grammar.grammar_ofConfig fresh ds ⟨o.seed⟩

theorem ofFile_of_load {g : Generator ChaCha} (h : o.load fresh file = .ok g) :
    Grammar.ofFile file = .ok g.grammar := by
  rw [← map_grammar_load o fresh, h]
  rfl

theorem exists_load {g : Grammar} (h : Grammar.ofFile file = .ok g) (o : Options)
    (fresh : ChaCha.Key) : ∃ gen, o.load fresh file = .ok gen ∧ gen.grammar = g := by
  rw [← map_grammar_load o fresh] at h
  cases hload : o.load fresh file with
  | error e =>
    rw [hload] at h
    cases h
  | ok gen =>
    rw [hload] at h
    exact ⟨gen, rfl, Except.ok.inj h⟩

theorem load_eq_error {e : Error} (h : Grammar.ofFile file = .error e) (o : Options)
    (fresh : ChaCha.Key) : o.load fresh file = .error e := by
  rw [← map_grammar_load o fresh] at h
  cases hload : o.load fresh file with
  | error e' =>
    rw [hload] at h
    rw [Except.error.inj h]
  | ok g =>
    rw [hload] at h
    cases h

theorem refused_of_load {e : Error} (h : o.load fresh file = .error e) : Grammar.Refused file := by
  rw [Grammar.refused_iff, ← map_grammar_load o fresh, h]
  exact ⟨e, rfl⟩

theorem not_refused_of_load {g : Generator ChaCha} (h : o.load fresh file = .ok g) :
    ¬ Grammar.Refused file := by
  rw [Grammar.refused_iff, ofFile_of_load h]
  exact nofun

end Options

/-! ### Sessions -/

namespace Session

variable {σ : Type u} [Source σ] {lim : Limits}

/-- The line at place `i`, counted from zero, does not end a session: it is UTF-8, and it is not
blank if it has to name a symbol. -/
def ReadsOn (i : Nat) (line : Bytes) : Prop :=
  ∃ s, Reads line s ∧ (i % 2 = 0 → s ≠ [])

/-- A session reads up to a line that is not UTF-8. -/
def MeetsUnreadable (lines : List Bytes) : Prop :=
  ∃ (i : Nat) (line : Bytes), lines[i]? = some line ∧ Unreadable line ∧
    ∀ j < i, ∀ l, lines[j]? = some l → ReadsOn j l

/-- The derivations that a session is asked for return. -/
def AllReturn (lim : Limits) (g : Generator σ) (lines : List Bytes) : Prop :=
  ∀ pairs said g' pair rest, Rounds lim g pairs said g' →
    lines = linesOf pairs ++ pair.1 :: pair.2 :: rest → ¬ Overruns lim g' pair

theorem not_unreadable_of_reads {line : Bytes} {s : Text} (h : Reads line s) :
    ¬ Unreadable line := by
  obtain ⟨u, rfl, -⟩ := h
  exact fun hbroken => hbroken u rfl

theorem Reads.unique {line : Bytes} {s t : Text} (hs : Reads line s) (ht : Reads line t) :
    s = t := by
  obtain ⟨u, hu, rfl⟩ := hs
  obtain ⟨v, hv, rfl⟩ := ht
  have huv := Utf8.decode_encode u
  rw [← hu, hv, Utf8.decode_encode] at huv
  rw [Option.some.inj huv]

theorem readsOn_of_mod {i j : Nat} {line : Bytes} (hmod : i % 2 = j % 2) (h : ReadsOn i line) :
    ReadsOn j line := by
  obtain ⟨s, hs, hne⟩ := h
  exact ⟨s, hs, fun hj => hne (hmod.trans hj)⟩

/-- The lines of a round do not count, since a session reads on after both. -/
theorem meetsUnreadable_round {first second : Bytes} {lines : List Bytes}
    (hfirst : ReadsOn 0 first) (hsecond : ReadsOn 1 second) :
    MeetsUnreadable (first :: second :: lines) ↔ MeetsUnreadable lines := by
  constructor
  · rintro ⟨i, line, hline, hbroken, hbefore⟩
    match i, hline, hbefore with
    | 0, hline, _ =>
      obtain rfl : first = line := Option.some.inj hline
      obtain ⟨s, hs, -⟩ := hfirst
      exact absurd hbroken (not_unreadable_of_reads hs)
    | 1, hline, _ =>
      obtain rfl : second = line := Option.some.inj hline
      obtain ⟨s, hs, -⟩ := hsecond
      exact absurd hbroken (not_unreadable_of_reads hs)
    | i + 2, hline, hbefore =>
      refine ⟨i, line, hline, hbroken, ?_⟩
      intro j hj l hl
      have hmod : (j + 2) % 2 = j % 2 := Nat.add_mod_right j 2
      exact readsOn_of_mod hmod (hbefore (j + 2) (by omega) l hl)
  · rintro ⟨i, line, hline, hbroken, hbefore⟩
    refine ⟨i + 2, line, hline, hbroken, ?_⟩
    intro j hj l hl
    match j, hj, hl with
    | 0, _, hl =>
      obtain rfl : first = l := Option.some.inj hl
      exact hfirst
    | 1, _, hl =>
      obtain rfl : second = l := Option.some.inj hl
      exact hsecond
    | j + 2, hj, hl =>
      have hmod : j % 2 = (j + 2) % 2 := (Nat.add_mod_right j 2).symm
      exact readsOn_of_mod hmod (hbefore j (by omega) l hl)

theorem Asks.readsOn {pair : Bytes × Bytes} {symbol answer : Text} (h : Asks pair symbol answer) :
    ReadsOn 0 pair.1 ∧ ReadsOn 1 pair.2 :=
  ⟨⟨symbol, h.symbol_line, fun _ => h.symbol_ne⟩, ⟨answer, h.answer_line, nofun⟩⟩

theorem Round.exists_asks {g g' : Generator σ} {pair : Bytes × Bytes} {said : Text}
    (h : Round lim g pair said g') : ∃ symbol answer, Asks pair symbol answer := by
  cases h with
  | answered asks _ _ => exact ⟨_, _, asks⟩
  | refused asks _ => exact ⟨_, _, asks⟩

theorem Rounds.meetsUnreadable_iff {g g' : Generator σ} {pairs : List (Bytes × Bytes)}
    {said : Text} (h : Rounds lim g pairs said g') (lines : List Bytes) :
    MeetsUnreadable (linesOf pairs ++ lines) ↔ MeetsUnreadable lines := by
  induction h with
  | none => rfl
  | @next _ _ _ pair pairs _ _ round _ ih =>
    obtain ⟨symbol, answer, hasks⟩ := round.exists_asks
    rw [linesOf, List.flatMap_cons, List.append_assoc]
    exact (meetsUnreadable_round hasks.readsOn.1 hasks.readsOn.2).trans ih

theorem RunsOut.not_meetsUnreadable {last : List Bytes} {said : Text} (h : RunsOut last said) :
    ¬ MeetsUnreadable last := by
  rintro ⟨i, line, hline, hbroken, -⟩
  cases h with
  | atSymbol => cases hline
  | atCount asked _ =>
    cases i with
    | zero =>
      obtain rfl := Option.some.inj hline
      exact not_unreadable_of_reads asked hbroken
    | succ i => cases hline

theorem StopsAt.ending_cases {last : List Bytes} {said : Text} {ending : Ending}
    (h : StopsAt last said ending) (rest : List Bytes) :
    ending = .finished ∧ ¬ MeetsUnreadable (last ++ rest) ∨
      ending = .unreadable ∧ MeetsUnreadable (last ++ rest) := by
  cases h with
  | @blankSymbol first u hline hblank =>
    refine .inl ⟨rfl, ?_⟩
    have hreads : Reads first [] := ⟨u, hline, Text.trim_eq_nil.2 hblank⟩
    rintro ⟨i, line, hline', hbroken, hbefore⟩
    cases i with
    | zero =>
      obtain rfl := Option.some.inj hline'
      exact not_unreadable_of_reads hreads hbroken
    | succ i =>
      -- the blank line stands before it
      obtain ⟨s, hs, hne⟩ := hbefore 0 (Nat.succ_pos i) first rfl
      exact hne rfl (hs.unique hreads)
  | unreadableSymbol broken =>
    exact .inr ⟨rfl, 0, _, rfl, broken, nofun⟩
  | @unreadableCount first second symbol asked hne broken =>
    refine .inr ⟨rfl, 1, second, rfl, broken, ?_⟩
    intro j hj l hl
    obtain rfl : j = 0 := by omega
    obtain rfl : first = l := Option.some.inj hl
    exact ⟨symbol, asked, fun _ => hne⟩

theorem status_report {g : Generator σ} {stdin : Bytes}
    (hreturns : AllReturn lim g (Utf8.cutLines stdin)) :
    (report lim { generator := g } stdin).status = 0 ∧ ¬ MeetsUnreadable (Utf8.cutLines stdin) ∨
      (report lim { generator := g } stdin).status = 1 ∧ MeetsUnreadable (Utf8.cutLines stdin) := by
  obtain ⟨pairs, said, g', lines, hlines, hrounds, hends⟩ :=
    @exists_rounds σ _ lim g (Utf8.cutLines stdin)
  have hmeets := hrounds.meetsUnreadable_iff lines
  have hconverse := hrounds.converse lines
  rw [← hlines] at hmeets hconverse
  rcases hends with ⟨lastSaid, hout⟩ | ⟨last, rest, lastSaid, ending, rfl, hstops⟩ |
    ⟨pair, rest, rfl, hoverruns⟩
  · rw [hout.converse] at hconverse
    rw [report_of_finished hconverse, hmeets]
    exact .inl ⟨rfl, hout.not_meetsUnreadable⟩
  · rw [hstops.converse] at hconverse
    rw [hmeets]
    rcases hstops.ending_cases rest with ⟨rfl, hnot⟩ | ⟨rfl, hdoes⟩
    · rw [report_of_finished hconverse]
      exact .inl ⟨rfl, hnot⟩
    · rw [report_of_unreadable hconverse]
      exact .inr ⟨rfl, hdoes⟩
  · exact absurd hoverruns (hreturns pairs said g' pair rest hrounds hlines)

end Session

/-! ### Runs -/

namespace Options

/-- The derivations that a run is asked for return, those of its symbol or of its session. -/
def AllReturn (o : Options) (lim : Limits) (fresh : ChaCha.Key) (file : FileContent)
    (stdin : Bytes) : Prop :=
  ∀ g, o.load fresh file = .ok g → o.json = false → o.list = false →
    match o.symbol with
    | some symbol => symbol ≠ [] → g.Returns lim symbol o.count.toNat
    | none => Session.AllReturn lim g (Utf8.cutLines stdin)

/-- What lets a run fail: its file, the empty symbol, or its input if it is a session. -/
def Fails (o : Options) (file : FileContent) (stdin : Bytes) : Prop :=
  Grammar.Refused file ∨
    o.json = false ∧ o.list = false ∧
      (o.symbol = some [] ∧ 0 < o.count ∨
        o.symbol = none ∧ Session.MeetsUnreadable (Utf8.cutLines stdin))

theorem not_fails_of_listing {o : Options} {file : FileContent} {stdin : Bytes}
    (hfile : ¬ Grammar.Refused file) (h : o.json ∨ o.list) : ¬ o.Fails file stdin := by
  rintro (hrefused | ⟨hjson, hlist, -⟩)
  · exact hfile hrefused
  · simp [hjson, hlist] at h

end Options

namespace Report

variable {lim : Limits} {arguments : List Text} {files : Text → FileContent} {fresh : ChaCha.Key}
  {stdin : Bytes} {o : Options}

theorem ofRun_of_refused (hparse : Options.parse arguments = .ok o) {e : Error}
    (hload : o.load fresh (files o.file) = .error e) :
    ofRun lim arguments files fresh stdin = ⟨1, [], "Error: ".toList ++ e.report ++ ['\n']⟩ := by
  simp only [ofRun, hparse, Options.start, hload]
  rfl

theorem ofRun_of_load (hparse : Options.parse arguments = .ok o) {g : Generator ChaCha}
    (hload : o.load fresh (files o.file) = .ok g) :
    ofRun lim arguments files fresh stdin =
      match o.follow lim g with
      | .inl report => report
      | .inr session => session.report lim stdin := by
  cases hfollow : o.follow lim g with
  | inl report => simp [ofRun, hparse, Options.start, hload, hfollow]
  | inr session => simp [ofRun, hparse, Options.start, hload, hfollow]

theorem ofRun_of_listing (hparse : Options.parse arguments = .ok o) {g : Grammar}
    (hfile : Grammar.ofFile (files o.file) = .ok g) (hlisting : o.json ∨ o.list) :
    ofRun lim arguments files fresh stdin =
      ⟨0, if o.json then g.json.pretty ++ ['\n'] else g.symbols.flatMap (· ++ ['\n']), []⟩ := by
  obtain ⟨gen, hload, rfl⟩ := Options.exists_load hfile o fresh
  rw [ofRun_of_load hparse hload, Options.follow]
  by_cases hjson : o.json
  · rw [if_pos hjson, if_pos hjson]
    rfl
  · rw [if_neg hjson, if_neg hjson, if_pos (hlisting.resolve_left hjson)]
    rfl

theorem status_of_no_listing (hparse : Options.parse arguments = .ok o) {g : Generator ChaCha}
    (hload : o.load fresh (files o.file) = .ok g) (hjson : o.json = false) (hlist : o.list = false)
    (hreturns : o.AllReturn lim fresh (files o.file) stdin) {r : Report}
    (hrun : ofRun lim arguments files fresh stdin = r) :
    r.status = 0 ∧ ¬ o.Fails (files o.file) stdin ∨
      r.status = 1 ∧ o.Fails (files o.file) stdin ∧ (r.stdout = [] ∨ o.symbol = none) := by
  have hnot := Options.not_refused_of_load hload
  have hreturn := hreturns g hload hjson hlist
  rw [ofRun_of_load hparse hload] at hrun
  simp only [Options.follow, hjson, hlist, Bool.false_eq_true, if_false] at hrun
  cases hsymbol : o.symbol with
  | some symbol =>
    simp only [hsymbol] at hreturn hrun
    rcases Generator.empty_or_exists_successive g hreturn with
      ⟨rfl, hcount⟩ | ⟨hnonempty, ds, g', hcalls, hlength⟩
    · rw [Options.sentences_nil hcount] at hrun
      obtain rfl := hrun
      exact .inr ⟨rfl, .inr ⟨hjson, hlist, .inl ⟨hsymbol, hcount⟩⟩, .inl rfl⟩
    · rw [Options.sentences_of_successive hcalls hlength] at hrun
      obtain rfl := hrun
      refine .inl ⟨rfl, ?_⟩
      rintro (hrefused | ⟨-, -, ⟨hempty, hcount⟩ | ⟨hnone, -⟩⟩)
      · exact hnot hrefused
      · exact hnonempty ⟨Option.some.inj (hsymbol.symm.trans hempty), hcount⟩
      · exact Option.some_ne_none _ (hsymbol.symm.trans hnone)
  | none =>
    simp only [hsymbol] at hreturn hrun
    obtain rfl := hrun
    rcases Session.status_report hreturn with ⟨hzero, hmeets⟩ | ⟨hone, hmeets⟩
    · refine .inl ⟨hzero, ?_⟩
      rintro (hrefused | ⟨-, -, ⟨hempty, -⟩ | ⟨-, hdoes⟩⟩)
      · exact hnot hrefused
      · exact Option.some_ne_none _ (hempty.symm.trans hsymbol)
      · exact hmeets hdoes
    · exact .inr ⟨hone, .inr ⟨hjson, hlist, .inr ⟨hsymbol, hmeets⟩⟩, .inr rfl⟩

theorem status_ofRun (hparse : Options.parse arguments = .ok o)
    (hreturns : o.AllReturn lim fresh (files o.file) stdin) {r : Report}
    (hrun : ofRun lim arguments files fresh stdin = r) :
    r.status = 0 ∧ ¬ o.Fails (files o.file) stdin ∨
      r.status = 1 ∧ o.Fails (files o.file) stdin ∧
        (r.stdout = [] ∨ o.symbol = none ∧ ¬ Grammar.Refused (files o.file)) := by
  cases hload : o.load fresh (files o.file) with
  | error e =>
    obtain rfl := (ofRun_of_refused hparse hload).symm.trans hrun
    exact .inr ⟨rfl, .inl (Options.refused_of_load hload), .inl rfl⟩
  | ok g =>
    have hnot := Options.not_refused_of_load hload
    by_cases hlisting : o.json ∨ o.list
    · have hfile := Options.ofFile_of_load hload
      obtain rfl := (ofRun_of_listing hparse hfile hlisting).symm.trans hrun
      exact .inl ⟨rfl, Options.not_fails_of_listing hnot hlisting⟩
    · obtain ⟨hjson, hlist⟩ : o.json = false ∧ o.list = false := by simpa using hlisting
      rcases status_of_no_listing hparse hload hjson hlist hreturns hrun with
        hzero | ⟨hone, hfails, hnothing | hsession⟩
      · exact .inl hzero
      · exact .inr ⟨hone, hfails, .inl hnothing⟩
      · exact .inr ⟨hone, hfails, .inr ⟨hsession, hnot⟩⟩

/-- A run fails exactly if its file gives no grammar or, without a listing, its symbol is empty or
its session meets a line that is not UTF-8. Only sessions print anything then. -/
theorem status_eq_one_iff (hparse : Options.parse arguments = .ok o)
    (hreturns : o.AllReturn lim fresh (files o.file) stdin) {r : Report}
    (hrun : ofRun lim arguments files fresh stdin = r) :
    (r.status = 0 ∨ r.status = 1) ∧
    (r.status = 1 ↔ Grammar.Refused (files o.file) ∨
      o.json = false ∧ o.list = false ∧
        (o.symbol = some [] ∧ 0 < o.count ∨
          o.symbol = none ∧ Session.MeetsUnreadable (Utf8.cutLines stdin))) ∧
    (Grammar.Refused (files o.file) → r.stdout = []) ∧
    (o.json = false → o.list = false → o.symbol = some [] → 0 < o.count → r.stdout = []) ∧
    (¬ Grammar.Refused (files o.file) → o.json ∨ o.list →
      r.status = 0 ∧
      ∀ (lim' : Limits) (arguments' : List Text) (files' : Text → FileContent)
        (fresh' : ChaCha.Key) (stdin' : Bytes) (o' : Options),
        Options.parse arguments' = .ok o' → files' o'.file = files o.file → o'.json = o.json →
          o'.list = o.list → ofRun lim' arguments' files' fresh' stdin' = r) := by
  have hcases := status_ofRun hparse hreturns hrun
  have hfails : r.status = 1 ↔ o.Fails (files o.file) stdin := by
    rcases hcases with ⟨hzero, hnot⟩ | ⟨hone, hdoes, -⟩
    · rw [hzero]
      exact ⟨nofun, fun h => absurd h hnot⟩
    · exact ⟨fun _ => hdoes, fun _ => hone⟩
  have hnothing : o.Fails (files o.file) stdin →
      r.stdout = [] ∨ o.symbol = none ∧ ¬ Grammar.Refused (files o.file) := by
    intro h
    rcases hcases with ⟨-, hnot⟩ | ⟨-, -, hnothing⟩
    · exact absurd h hnot
    · exact hnothing
  refine ⟨hcases.imp And.left And.left, hfails, ?_, ?_, ?_⟩
  · intro hrefused
    exact (hnothing (.inl hrefused)).resolve_right fun h => h.2 hrefused
  · intro hjson hlist hsymbol hcount
    apply (hnothing (.inr ⟨hjson, hlist, .inl ⟨hsymbol, hcount⟩⟩)).resolve_right
    rw [hsymbol]
    exact fun h => nomatch h.1
  · intro hnot hlisting
    obtain ⟨g, hfile⟩ := Grammar.exists_ofFile_of_not_refused hnot
    obtain rfl := (ofRun_of_listing hparse hfile hlisting).symm.trans hrun
    refine ⟨rfl, ?_⟩
    intro lim' arguments' files' fresh' stdin' o' hparse' hsame hjson hlist
    rw [← hsame] at hfile
    rw [← hjson, ← hlist] at hlisting
    rw [ofRun_of_listing hparse' hfile hlisting, hjson]

/-- The grammar `s ::= y`. -/
def single : Grammar :=
  ⟨[⟨['s'], [⟨[['y']]⟩]⟩]⟩

theorem exists_generate_single :
    ∃ d g', (⟨single, .ofSeed 4⟩ : Generator ChaCha).generate ⟨40, 40⟩ ['s'] = (.ok d, g') := by
  have hreturns : ((⟨single, .ofSeed 4⟩ : Generator ChaCha).generate ⟨40, 40⟩
      ['s']).1.toOption.isSome := by
    decide +kernel
  obtain ⟨result, g', hresult⟩ : ∃ result g',
      (⟨single, .ofSeed 4⟩ : Generator ChaCha).generate ⟨40, 40⟩ ['s'] = (result, g') :=
    ⟨_, _, rfl⟩
  rw [hresult] at hreturns
  cases result with
  | error e => cases hreturns
  | ok d => exact ⟨d, g', hresult⟩

theorem allReturn_single :
    Session.AllReturn ⟨40, 40⟩ (⟨single, .ofSeed 4⟩ : Generator ChaCha)
      [Utf8.encode ['s', '\n'], Utf8.encode ['1', '\n'], [0xFF]] := by
  intro pairs said g' pair rest hrounds hlines hoverruns
  cases hrounds with
  | none =>
    obtain ⟨hfirst, hsecond, -⟩ : Utf8.encode ['s', '\n'] = pair.1 ∧
        Utf8.encode ['1', '\n'] = pair.2 ∧ [[0xFF]] = rest := by
      simpa [Session.linesOf] using hlines
    obtain ⟨d, g₁, hone⟩ := exists_generate_single
    cases hoverruns with
    | @mk symbol answer n ds g₂ asks number derived length_lt stuck =>
      have hsymbol : Session.Reads pair.1 ['s'] := ⟨['s', '\n'], hfirst.symm, rfl⟩
      have hanswer : Session.Reads pair.2 ['1'] := ⟨['1', '\n'], hsecond.symm, rfl⟩
      obtain rfl := asks.symbol_line.unique hsymbol
      obtain rfl := asks.answer_line.unique hanswer
      obtain ⟨w, hw, rfl⟩ := Numeral.exists_readCount_of_denotes number
      obtain rfl : (1 : UInt64) = w := Option.some.inj hw
      obtain rfl := List.length_eq_zero_iff.1 (Nat.lt_one_iff.1 length_lt)
      cases derived
      rw [hone] at stuck
      cases stuck
  | next =>
    have hlength := congrArg List.length hlines
    simp [Session.linesOf] at hlength
    omega

theorem meetsUnreadable_single :
    Session.MeetsUnreadable [Utf8.encode ['s', '\n'], Utf8.encode ['1', '\n'], [0xFF]] := by
  refine ⟨2, [0xFF], rfl, Utf8.decode_eq_none_iff.1 rfl, ?_⟩
  intro j hj l hl
  match j, hj, hl with
  | 0, _, hl =>
    obtain rfl := Option.some.inj hl
    exact ⟨['s'], ⟨_, rfl, rfl⟩, fun _ => List.cons_ne_nil _ _⟩
  | 1, _, hl =>
    obtain rfl := Option.some.inj hl
    exact ⟨['1'], ⟨_, rfl, rfl⟩, nofun⟩

/-- A session that fails after one sentence, and a list that two runs ask for. -/
theorem status_eq_one_iff_single :
    (ofRun ⟨40, 40⟩ ["g".toList, "--seed".toList, "4".toList]
        (fun _ => .bytes (Utf8.encode "s ::= y".toList)) (.replicate 8 0)
        (Utf8.encode "s\n1\n".toList ++ [0xFF])).status = 1 ∧
      (ofRun ⟨40, 40⟩ ["g".toList, "--list".toList]
        (fun _ => .bytes (Utf8.encode "s ::= y".toList)) (.replicate 8 0) []).status = 0 ∧
      ofRun ⟨1, 1⟩ ["--list".toList, "-n2".toList, "h".toList, []]
          (fun _ => .bytes (Utf8.encode "s ::= y".toList)) (.replicate 8 1) [0xFF] =
        ofRun ⟨40, 40⟩ ["g".toList, "--list".toList]
          (fun _ => .bytes (Utf8.encode "s ::= y".toList)) (.replicate 8 0) [] := by
  have hsession : Options.parse ["g".toList, "--seed".toList, "4".toList] =
      .ok ⟨"g".toList, none, 1, some 4, false, false⟩ := rfl
  have hlist : Options.parse ["g".toList, "--list".toList] =
      .ok ⟨"g".toList, none, 1, none, true, false⟩ := rfl
  have hlist' : Options.parse ["--list".toList, "-n2".toList, "h".toList, []] =
      .ok ⟨"h".toList, some [], 2, none, true, false⟩ := rfl
  have hreturns : Options.AllReturn ⟨"g".toList, none, 1, some 4, false, false⟩ ⟨40, 40⟩
      (.replicate 8 0) (.bytes (Utf8.encode "s ::= y".toList))
      (Utf8.encode "s\n1\n".toList ++ [0xFF]) := by
    intro g hload _ _
    obtain rfl : ⟨single, .ofSeed 4⟩ = g := Except.ok.inj hload
    exact allReturn_single
  have hnone : Options.AllReturn ⟨"g".toList, none, 1, none, true, false⟩ ⟨40, 40⟩
      (.replicate 8 0) (.bytes (Utf8.encode "s ::= y".toList)) [] :=
    fun _ _ _ hlisted => nomatch hlisted
  have hloads : ¬ Grammar.Refused (.bytes (Utf8.encode "s ::= y".toList)) := by
    rw [Grammar.refused_iff]
    exact fun ⟨_, h⟩ => nomatch h
  obtain ⟨-, hstatus, -⟩ := @status_eq_one_iff _ _
    (fun _ => .bytes (Utf8.encode "s ::= y".toList)) _ _ _ hsession hreturns _ rfl
  obtain ⟨-, -, -, -, hlisted⟩ := @status_eq_one_iff _ _
    (fun _ => .bytes (Utf8.encode "s ::= y".toList)) _ _ _ hlist hnone _ rfl
  obtain ⟨hzero, hsame⟩ := hlisted hloads (.inr rfl)
  exact ⟨hstatus.2 (.inr ⟨rfl, rfl, .inr ⟨rfl, meetsUnreadable_single⟩⟩), hzero,
    hsame _ _ _ _ _ _ hlist' rfl rfl rfl⟩

end Report

end BnfSentences
