import BnfSentences.CommandLine.Options
import BnfSentences.Proofs.Text.Numeral

/-!
# Command lines as a user writes them

`placed` puts the operands first, then the settings, and behind the terminator
whatever could be taken for an option. `parse_placed_symbol` and `parse_placed_file`
say that such a command line asks for what it is written for.
-/

namespace BnfSentences.Options

/-! ### What is written -/

/-- An argument that cannot be taken for an option. -/
def Plain (argument : Text) : Prop :=
  argument.head? ≠ some '-'

instance (argument : Text) : Decidable (Plain argument) :=
  inferInstanceAs (Decidable (_ ≠ _))

def Setting.flag : Setting → Text
  | .count => "-n".toList
  | .seed => "--seed".toList

def Setting.put (setting : Setting) (value : Text) : List Text :=
  [setting.flag, value]

def placed (operands options : List Text) : List Text :=
  let behind := operands.dropWhile (Plain ·)
  operands.takeWhile (Plain ·) ++ options ++ if behind = [] then [] else terminator :: behind

/-! ### One argument -/

namespace Progress

variable {p p' : Progress}

theorem foldlM_step_cons {argument : Text} (h : p.step argument = .ok p')
    (arguments : List Text) :
    (argument :: arguments).foldlM step p = arguments.foldlM step p' := by
  rw [List.foldlM_cons, h]
  rfl

theorem step_operand {argument : Text} (hawaiting : p.awaiting = none)
    (hplain : p.operandsOnly ∨ Plain argument) : p.step argument = p.operand argument := by
  unfold step
  rw [hawaiting]
  by_cases honly : p.operandsOnly
  · exact if_pos honly
  · have hhead : Plain argument := hplain.resolve_left honly
    have hterminator : argument ≠ terminator := by
      intro h
      rw [h] at hhead
      exact hhead rfl
    refine (if_neg honly).trans ((if_neg hterminator).trans ?_)
    split
    · exact (hhead rfl).elim
    · exact (hhead rfl).elim
    · rfl

theorem step_file {file : Text} (hawaiting : p.awaiting = none)
    (hplain : p.operandsOnly ∨ Plain file) (hfile : p.file = none) (hne : file ≠ []) :
    p.step file = .ok { p with file := some file } := by
  rw [step_operand hawaiting hplain]
  simp [operand, hfile, hne]

theorem step_symbol {file symbol : Text} (hawaiting : p.awaiting = none)
    (hplain : p.operandsOnly ∨ Plain symbol) (hfile : p.file = some file)
    (hsymbol : p.symbol = none) : p.step symbol = .ok { p with symbol := some symbol } := by
  rw [step_operand hawaiting hplain]
  simp [operand, hfile, hsymbol]

theorem step_terminator (hawaiting : p.awaiting = none) (honly : p.operandsOnly = false) :
    p.step terminator = .ok { p with operandsOnly := true } := by
  simp [step, hawaiting, honly]

theorem step_flag (hawaiting : p.awaiting = none) (honly : p.operandsOnly = false)
    (setting : Setting) : p.step setting.flag = .ok { p with awaiting := some setting } := by
  obtain ⟨file, symbol, count, seed, list, json, awaiting, operandsOnly⟩ := p
  obtain rfl : awaiting = none := hawaiting
  obtain rfl : operandsOnly = false := honly
  cases setting <;> rfl

theorem step_value (hawaiting : p.awaiting = none) (setting : Setting) (value : Text) :
    step { p with awaiting := some setting } value = p.assign setting value := by
  unfold step
  rw [← hawaiting]

theorem assign_count {value : Text} {n : UInt64} (hcount : p.count = none)
    (hvalue : Numeral.readCount value = some n) :
    p.assign .count value = .ok { p with count := some n } := by
  simp [assign, hcount, hvalue]

theorem assign_seed {value : Text} {n : UInt64} (hseed : p.seed = none)
    (hvalue : Numeral.readCount value = some n) :
    p.assign .seed value = .ok { p with seed := some n } := by
  simp [assign, hseed, hvalue]

theorem foldlM_step_put {setting : Setting} {value : Text} (hawaiting : p.awaiting = none)
    (honly : p.operandsOnly = false) (hassign : p.assign setting value = .ok p')
    (arguments : List Text) :
    (setting.put value ++ arguments).foldlM step p = arguments.foldlM step p' := by
  have hvalue := (step_value hawaiting setting value).trans hassign
  rw [Setting.put, List.cons_append, List.cons_append,
    foldlM_step_cons (step_flag hawaiting honly setting), foldlM_step_cons hvalue, List.nil_append]

end Progress

/-! ### Whole command lines -/

open Progress

theorem foldlM_settings {p : Progress} {total seedText : Text} {n seed : UInt64}
    (hawaiting : p.awaiting = none) (honly : p.operandsOnly = false) (hcount : p.count = none)
    (hseed : p.seed = none) (htotal : Numeral.readCount total = some n)
    (hseedText : Numeral.readCount seedText = some seed) (arguments : List Text) :
    (Setting.count.put total ++ (Setting.seed.put seedText ++ arguments)).foldlM step p =
      arguments.foldlM step { p with count := some n, seed := some seed } := by
  have hassign : assign { p with count := some n } .seed seedText =
      .ok { p with count := some n, seed := some seed } :=
    assign_seed hseed hseedText
  rw [foldlM_step_put hawaiting honly (assign_count hcount htotal)]
  exact foldlM_step_put (p := { p with count := some n }) hawaiting honly hassign arguments

theorem parse_placed_symbol {file total seedText : Text} {n seed : UInt64} (hfile : file ≠ [])
    (symbol : Text) (htotal : Numeral.readCount total = some n)
    (hseed : Numeral.readCount seedText = some seed) :
    parse (placed [file, symbol] (Setting.count.put total ++ Setting.seed.put seedText)) =
      .ok ⟨file, some symbol, n, some seed, false, false⟩ := by
  unfold parse
  by_cases hplain : Plain file
  · have hfirst : step {} file = .ok { file := some file } :=
      step_file rfl (.inr hplain) rfl hfile
    by_cases hothers : Plain symbol
    · have hsecond : step { file := some file } symbol =
          .ok { file := some file, symbol := some symbol } :=
        step_symbol rfl (.inr hothers) rfl rfl
      simp only [placed, List.takeWhile, List.dropWhile, hplain, hothers, decide_true, if_true,
        List.append_assoc, List.cons_append, List.nil_append]
      rw [foldlM_step_cons hfirst, foldlM_step_cons hsecond,
        foldlM_settings rfl rfl rfl rfl htotal hseed]
      rfl
    · simp only [placed, List.takeWhile, List.dropWhile, hplain, hothers, decide_true, decide_false,
        List.append_assoc, List.cons_append, List.nil_append, List.cons_ne_nil, if_false]
      rw [foldlM_step_cons hfirst, foldlM_settings rfl rfl rfl rfl htotal hseed,
        foldlM_step_cons (step_terminator rfl rfl),
        foldlM_step_cons (step_symbol rfl (.inl rfl) rfl rfl)]
      rfl
  · simp only [placed, List.takeWhile, List.dropWhile, hplain, decide_false,
      List.append_assoc, List.nil_append, List.cons_ne_nil, if_false]
    rw [foldlM_settings rfl rfl rfl rfl htotal hseed,
      foldlM_step_cons (step_terminator rfl rfl),
      foldlM_step_cons (step_file rfl (.inl rfl) rfl hfile),
      foldlM_step_cons (step_symbol rfl (.inl rfl) rfl rfl)]
    rfl

theorem parse_placed_file {file seedText : Text} {seed : UInt64} (hfile : file ≠ [])
    (hseed : Numeral.readCount seedText = some seed) :
    parse (placed [file] (Setting.seed.put seedText)) =
      .ok ⟨file, none, 1, some seed, false, false⟩ := by
  unfold parse
  by_cases hplain : Plain file
  · have hfirst : step {} file = .ok { file := some file } :=
      step_file rfl (.inr hplain) rfl hfile
    simp only [placed, List.takeWhile, List.dropWhile, hplain, decide_true, if_true,
      List.cons_append, List.nil_append]
    rw [foldlM_step_cons hfirst, foldlM_step_put rfl rfl (assign_seed rfl hseed)]
    rfl
  · simp only [placed, List.takeWhile, List.dropWhile, hplain, decide_false,
      List.nil_append, List.cons_ne_nil, if_false]
    rw [foldlM_step_put rfl rfl (assign_seed rfl hseed),
      foldlM_step_cons (step_terminator rfl rfl),
      foldlM_step_cons (step_file rfl (.inl rfl) rfl hfile)]
    rfl

end BnfSentences.Options
