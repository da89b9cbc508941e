import BnfSentences.Generator.Workspace
import BnfSentences.Proofs.Generator.Schedules
import BnfSentences.Proofs.Generator.Successive
import BnfSentences.Source.Tape

/-!
# Sources of a workspace

A request moves the source that it is about and looks at no other, and none changes
the rules. So requests about different sources can change places, and the calls on
a generator go as if its source were all that there is: `sources_kept_apart`.
-/

namespace BnfSentences

universe u v

variable {σ : Type u} {τ : Type v} {lim : Limits}

/-- The sources of a workspace: the generator's own, and those that callers keep. -/
inductive SourceName where
  | own
  | caller (name : Text)
  deriving DecidableEq

namespace Request

/-- The source that a request draws from or sets up, if it is about one. -/
def source? : Request τ → Option SourceName
  | .contains _ | .symbols | .productions _ | .rules | .json _ => none
  | .generate _ _ | .concurrent _ _ _ => some .own
  | .define name _ | .generateWith name _ _ => some (.caller name)

def Apart (r r' : Request τ) : Prop :=
  ∀ x ∈ r.source?, x ∉ r'.source?

theorem Apart.symm {r r' : Request τ} (h : r.Apart r') : r'.Apart r :=
  fun x hx' hx => h x hx hx'

def Sequential : Request τ → Prop
  | .concurrent _ _ _ => False
  | _ => True

/-- The symbol of a request to the generator and the number of calls for it. The
empty text is no symbol. -/
def ownCall? : Request τ → Option (Text × Nat)
  | .generate symbol times => if symbol = [] then none else some (symbol, times)
  | _ => none

theorem eq_generate_of_ownCall? {r : Request τ} {symbol : Text} {times : Nat}
    (h : r.ownCall? = some (symbol, times)) : r = .generate symbol times := by
  cases r with
  | generate symbol' times' =>
    unfold ownCall? at h
    dsimp only at h
    split at h
    · cases h
    · obtain ⟨rfl, rfl⟩ := Prod.mk.inj (Option.some.inj h)
      rfl
  | _ => cases h

end Request

def Answer.derivations? : Answer → Option (Except Error (List Derivation))
  | .generated ds | .generatedWith ds _ => some (.ok ds)
  | .failed e => some (.error e)
  | _ => none

namespace Generator

variable [Source σ]

theorem generate_of_undeclared (lim : Limits) {g : Generator σ} {symbol : Text}
    (h : g.grammar.productions? symbol = none) : (g.generate lim symbol).2 = g := by
  unfold generate
  split
  · rfl
  · next d s hderive =>
    have hexpand := (Grammar.derive_eq_ok_iff.1 hderive).2
    cases hdepth : lim.depth with
    | zero =>
      rw [hdepth] at hexpand
      cases hexpand
    | succ depth =>
      rw [hdepth, Grammar.expand, h] at hexpand
      obtain rfl := (Prod.mk.inj (Option.some.inj hexpand)).2
      rfl

theorem generateMany_of_undeclared (lim : Limits) {g : Generator σ} {symbol : Text}
    (h : g.grammar.productions? symbol = none) (times : Nat) :
    (g.generateMany lim symbol times).2 = g := by
  obtain ⟨result, g', hmany⟩ : ∃ result g', g.generateMany lim symbol times = (result, g') :=
    ⟨_, _, rfl⟩
  rw [hmany]
  cases result with
  | error e => exact (exists_of_generateMany_eq_error hmany).1
  | ok ds =>
    have hsuccessive := (generateMany_eq_ok_iff.1 hmany).2
    clear hmany
    induction hsuccessive with
    | none => rfl
    | next first _ ih =>
      have hsame := generate_of_undeclared lim h
      rw [first] at hsame
      obtain rfl := hsame
      exact ih h

end Generator

namespace Workspace

def at? (w : Workspace σ τ) : SourceName → Option (σ ⊕ CallerSource τ)
  | .own => some (.inl w.generator.source)
  | .caller name => (w.caller? name).map .inr

/-- Workspaces that no request can tell apart. -/
def Agree (w w' : Workspace σ τ) : Prop :=
  w.generator.grammar = w'.generator.grammar ∧ ∀ x, w.at? x = w'.at? x

/-- A workspace where a caller keeps a source that starts where the own source does. -/
def lend (name : Text) (w : Workspace σ τ) : Workspace σ σ :=
  ⟨w.generator, [(name, ⟨w.generator.source, 0⟩)]⟩

/-- A caller of the second workspace keeps a source that stands where the own source
of the first one does. -/
def Lent (name : Text) (w : Workspace σ τ) (v : Workspace σ σ) : Prop :=
  v.generator.grammar = w.generator.grammar ∧
    (v.caller? name).map CallerSource.source = some w.generator.source

theorem caller?_setCaller_self (w : Workspace σ τ) (name : Text) (c : CallerSource τ) :
    (w.setCaller name c).caller? name = some c := by
  simp [caller?, setCaller]

theorem caller?_setCaller_of_ne {name other : Text} (h : other ≠ name) (w : Workspace σ τ)
    (c : CallerSource τ) : (w.setCaller name c).caller? other = w.caller? other := by
  have hkept : ∀ entry : Text × CallerSource τ,
      decide (entry.1 != name ∧ entry.1 == other) = (entry.1 == other) := by
    intro entry
    by_cases hentry : entry.1 = other
    · simp [hentry, h]
    · simp [hentry]
  unfold caller? setCaller
  rw [List.find?_cons_of_neg (by simpa using h.symm), List.find?_filter]
  simp only [hkept]

theorem at?_setCaller_of_ne {name : Text} {x : SourceName} (h : x ≠ .caller name)
    (w : Workspace σ τ) (c : CallerSource τ) : (w.setCaller name c).at? x = w.at? x := by
  cases x with
  | own => rfl
  | caller other =>
    have hother : other ≠ name := fun heq => h (congrArg SourceName.caller heq)
    rw [at?, caller?_setCaller_of_ne hother, at?]

theorem generator_eq_of_at? {w w' : Workspace σ τ}
    (hgrammar : w.generator.grammar = w'.generator.grammar) (h : w.at? .own = w'.at? .own) :
    w.generator = w'.generator := by
  obtain ⟨⟨g, s⟩, callers⟩ := w
  obtain ⟨⟨g', s'⟩, callers'⟩ := w'
  obtain rfl : g = g' := hgrammar
  obtain rfl : s = s' := Sum.inl.inj (Option.some.inj h)
  rfl

theorem caller?_eq_of_at? {w w' : Workspace σ τ} {name : Text}
    (h : w.at? (.caller name) = w'.at? (.caller name)) : w.caller? name = w'.caller? name :=
  Option.map_injective (fun _ _ => Sum.inr.inj) h

theorem lent_lend (name : Text) (w : Workspace σ τ) : Lent name w (w.lend name) :=
  ⟨rfl, by simp [caller?, lend]⟩

variable [Source σ] [Source τ]

/-! ### The rules -/

theorem grammar_generateMany (lim : Limits) (g : Generator σ) (symbol : Text) (times : Nat) :
    (g.generateMany lim symbol times).2.grammar = g.grammar := by
  unfold Generator.generateMany
  split <;> rfl

theorem grammar_run (lim : Limits) (schedule : List Nat) (t : Threads σ) :
    (Threads.run lim schedule t).2.generator.grammar = t.generator.grammar := by
  induction schedule generalizing t with
  | nil => rfl
  | cons i schedule ih =>
    have hstep : (t.step lim i).2.generator.grammar = t.generator.grammar := by
      unfold Threads.step
      split
      · exact Generator.grammar_generate lim t.generator _
      · rfl
    exact (ih _).trans hstep

theorem grammar_answer (w : Workspace σ τ) (r : Request τ) :
    (w.answer lim r).2.generator.grammar = w.generator.grammar := by
  cases r with
  | contains symbol =>
    unfold answer
    dsimp only
    split <;> rfl
  | symbols | productions symbol | rules | json layout | define name source => rfl
  | generate symbol times =>
    have hmany := grammar_generateMany lim w.generator symbol times
    unfold answer
    dsimp only
    split <;> next h => rwa [h] at hmany
  | generateWith name symbol times =>
    unfold answer
    dsimp only
    split
    · rfl
    · split <;> rfl
  | concurrent symbol threads times =>
    have hrun := grammar_run lim (Threads.turns threads times)
      (Threads.calling w.generator symbol threads times)
    have hconcurrently :
        (concurrently lim w.generator symbol threads times).2.grammar = w.generator.grammar := hrun
    unfold answer
    dsimp only
    split <;> next h => rwa [h] at hconcurrently

/-! ### One source at a time -/

theorem at?_answer_of_notMem (w : Workspace σ τ) {r : Request τ} {x : SourceName}
    (h : x ∉ r.source?) : (w.answer lim r).2.at? x = w.at? x := by
  have hne : ∀ y, r.source? = some y → x ≠ y := by
    rintro y hy rfl
    exact h hy
  cases r with
  | contains symbol =>
    unfold answer
    dsimp only
    split <;> rfl
  | symbols | productions symbol | rules | json layout => rfl
  | generate symbol times | concurrent symbol threads times =>
    cases x with
    | own => exact absurd rfl (hne .own rfl)
    | caller name =>
      unfold answer
      dsimp only
      split <;> rfl
  | define name source => exact at?_setCaller_of_ne (hne _ rfl) w _
  | generateWith name symbol times =>
    unfold answer
    dsimp only
    split
    · rfl
    · split
      · rfl
      · exact at?_setCaller_of_ne (hne _ rfl) w _

theorem answer_congr (lim : Limits) {w w' : Workspace σ τ}
    (hgrammar : w.generator.grammar = w'.generator.grammar) {r : Request τ}
    (h : ∀ x ∈ r.source?, w.at? x = w'.at? x) :
    (w.answer lim r).1 = (w'.answer lim r).1 ∧
      ∀ x ∈ r.source?, (w.answer lim r).2.at? x = (w'.answer lim r).2.at? x := by
  cases r with
  | contains symbol =>
    refine ⟨?_, nofun⟩
    unfold answer
    dsimp only
    rw [hgrammar]
    split <;> rfl
  | symbols | productions symbol | rules | json layout =>
    refine ⟨?_, nofun⟩
    unfold answer
    dsimp only
    rw [hgrammar]
  | generate symbol times =>
    have hgenerator := generator_eq_of_at? hgrammar (h .own rfl)
    unfold answer
    dsimp only
    rw [hgenerator]
    refine ⟨?_, ?_⟩
    · split <;> rfl
    · rintro x ⟨⟩
      split <;> rfl
  | concurrent symbol threads times =>
    have hgenerator := generator_eq_of_at? hgrammar (h .own rfl)
    unfold answer
    dsimp only
    rw [hgenerator]
    refine ⟨?_, ?_⟩
    · split <;> rfl
    · rintro x ⟨⟩
      split <;> rfl
  | define name source =>
    refine ⟨rfl, ?_⟩
    rintro x ⟨⟩
    unfold answer at?
    simp only [caller?_setCaller_self]
  | generateWith name symbol times =>
    have hcaller := caller?_eq_of_at? (h (.caller name) rfl)
    unfold answer
    dsimp only
    rw [hcaller, hgrammar]
    cases hw : w'.caller? name with
    | none =>
      refine ⟨rfl, ?_⟩
      rintro x ⟨⟩
      exact h _ rfl
    | some c =>
      dsimp only
      cases w'.generator.grammar.deriveMany lim symbol times c.source with
      | error e =>
        refine ⟨rfl, ?_⟩
        rintro x ⟨⟩
        exact h _ rfl
      | ok result =>
        refine ⟨rfl, ?_⟩
        rintro x ⟨⟩
        simp only [at?, caller?_setCaller_self]

theorem generator_answer_of_notMem (w : Workspace σ τ) {r : Request τ} (h : .own ∉ r.source?) :
    (w.answer lim r).2.generator = w.generator :=
  generator_eq_of_at? (grammar_answer w r) (at?_answer_of_notMem w h)

/-! ### Runs of requests -/

theorem answerAll_cons (lim : Limits) (r : Request τ) (rs : List (Request τ))
    (w : Workspace σ τ) :
    answerAll lim (r :: rs) w =
      ((w.answer lim r).1 :: (answerAll lim rs (w.answer lim r).2).1,
        (answerAll lim rs (w.answer lim r).2).2) :=
  rfl

theorem answerAll_append (lim : Limits) (rs rs' : List (Request τ)) (w : Workspace σ τ) :
    answerAll lim (rs ++ rs') w =
      ((answerAll lim rs w).1 ++ (answerAll lim rs' (answerAll lim rs w).2).1,
        (answerAll lim rs' (answerAll lim rs w).2).2) := by
  induction rs generalizing w with
  | nil => rfl
  | cons r rs ih => simp only [List.cons_append, answerAll_cons, ih]

theorem length_answerAll (lim : Limits) (rs : List (Request τ)) (w : Workspace σ τ) :
    (answerAll lim rs w).1.length = rs.length := by
  induction rs generalizing w with
  | nil => rfl
  | cons r rs ih => rw [answerAll_cons, List.length_cons, List.length_cons, ih]

theorem grammar_answerAll (lim : Limits) (rs : List (Request τ)) (w : Workspace σ τ) :
    (answerAll lim rs w).2.generator.grammar = w.generator.grammar := by
  induction rs generalizing w with
  | nil => rfl
  | cons r rs ih => exact (ih _).trans (grammar_answer w r)

theorem Agree.answer (lim : Limits) {w w' : Workspace σ τ} (h : Agree w w') (r : Request τ) :
    (w.answer lim r).1 = (w'.answer lim r).1 ∧ Agree (w.answer lim r).2 (w'.answer lim r).2 := by
  obtain ⟨hgrammar, hsources⟩ := h
  have hsource : ∀ x ∈ r.source?, w.at? x = w'.at? x := fun x _ => hsources x
  obtain ⟨hanswer, hmoved⟩ := answer_congr lim hgrammar hsource
  refine ⟨hanswer, by rw [grammar_answer, grammar_answer, hgrammar], fun x => ?_⟩
  by_cases hx : x ∈ r.source?
  · exact hmoved x hx
  · rw [at?_answer_of_notMem w hx, at?_answer_of_notMem w' hx, hsources x]

theorem Agree.answerAll (lim : Limits) {w w' : Workspace σ τ} (h : Agree w w')
    (rs : List (Request τ)) :
    (Workspace.answerAll lim rs w).1 = (Workspace.answerAll lim rs w').1 ∧
      Agree (Workspace.answerAll lim rs w).2 (Workspace.answerAll lim rs w').2 := by
  induction rs generalizing w w' with
  | nil => exact ⟨rfl, h⟩
  | cons r rs ih =>
    obtain ⟨hfirst, hafter⟩ := h.answer lim r
    obtain ⟨hothers, hend⟩ := ih hafter
    refine ⟨?_, hend⟩
    rw [answerAll_cons, answerAll_cons, hfirst, hothers]

/-! ### Changing places -/

theorem answer_after (lim : Limits) (w : Workspace σ τ) {r r' : Request τ} (h : r.Apart r') :
    ((w.answer lim r').2.answer lim r).1 = (w.answer lim r).1 ∧
      ∀ x ∈ r.source?, ((w.answer lim r').2.answer lim r).2.at? x = (w.answer lim r).2.at? x :=
  answer_congr lim (grammar_answer w r') fun x hx => at?_answer_of_notMem w (h x hx)

theorem agree_of_apart (lim : Limits) (w : Workspace σ τ) {r r' : Request τ} (h : r.Apart r') :
    Agree ((w.answer lim r).2.answer lim r').2 ((w.answer lim r').2.answer lim r).2 := by
  refine ⟨by simp only [grammar_answer], fun x => ?_⟩
  by_cases hx : x ∈ r.source?
  · rw [(answer_after lim w h).2 x hx, at?_answer_of_notMem _ (h x hx)]
  · rw [at?_answer_of_notMem _ hx]
    by_cases hx' : x ∈ r'.source?
    · exact (answer_after lim w h.symm).2 x hx'
    · rw [at?_answer_of_notMem _ hx', at?_answer_of_notMem _ hx, at?_answer_of_notMem _ hx']

/-! ### Calls on a lent source -/

def lentCall (name : Text) (call : Text × Nat) : Request σ :=
  .generateWith name call.1 call.2

theorem Lent.generate {name : Text} {w : Workspace σ τ} {v : Workspace σ σ} (h : Lent name w v)
    (symbol : Text) (times : Nat) :
    (w.answer lim (.generate symbol times)).1.derivations? =
        (v.answer lim (lentCall name (symbol, times))).1.derivations? ∧
      Lent name (w.answer lim (.generate symbol times)).2
        (v.answer lim (lentCall name (symbol, times))).2 := by
  obtain ⟨hgrammar, hsource⟩ := h
  obtain ⟨c, hc, hsame⟩ := Option.map_eq_some_iff.1 hsource
  unfold answer lentCall Generator.generateMany
  dsimp only
  rw [hc, hgrammar, ← hsame]
  dsimp only
  cases hmany : w.generator.grammar.deriveMany lim symbol times c.source with
  | error e => exact ⟨rfl, hgrammar, hsource⟩
  | ok result =>
    refine ⟨rfl, hgrammar, ?_⟩
    rw [caller?_setCaller_self]
    rfl

theorem generateMany_nil (lim : Limits) (g : Generator σ) (times : Nat) :
    (g.generateMany lim [] times).2 = g := by
  cases times with
  | zero => rfl
  | succ times => rfl

theorem generator_answer_of_ownCall? {w : Workspace σ τ} {r : Request τ} (hr : r.Sequential)
    (h : r.ownCall? = none) : (w.answer lim r).2.generator = w.generator := by
  cases r with
  | generate symbol times =>
    obtain rfl : symbol = [] := by simpa [Request.ownCall?] using h
    have hmany := generateMany_nil lim w.generator times
    unfold answer
    dsimp only
    split <;> next heq => rwa [heq] at hmany
  | concurrent symbol threads times => exact hr.elim
  | contains symbol | symbols | productions symbol | rules | json layout =>
    exact generator_answer_of_notMem w nofun
  | define name source | generateWith name symbol times =>
    exact generator_answer_of_notMem w nofun

def ownAnswers (rs : List (Request τ)) (answers : List Answer) : List Answer :=
  (rs.zip answers).filterMap fun (r, a) => r.ownCall?.map fun _ => a

theorem Lent.answerAll {name : Text} {rs : List (Request τ)} (hrs : ∀ r ∈ rs, r.Sequential)
    {w : Workspace σ τ} {v : Workspace σ σ} (h : Lent name w v) :
    (ownAnswers rs (Workspace.answerAll lim rs w).1).map Answer.derivations? =
        (Workspace.answerAll lim ((rs.filterMap Request.ownCall?).map (lentCall name)) v).1.map
          Answer.derivations? ∧
      Lent name (Workspace.answerAll lim rs w).2
        (Workspace.answerAll lim ((rs.filterMap Request.ownCall?).map (lentCall name)) v).2 := by
  induction rs generalizing w v with
  | nil => exact ⟨rfl, h⟩
  | cons r rs ih =>
    have hfirst : r.Sequential := hrs r List.mem_cons_self
    have hothers : ∀ r ∈ rs, r.Sequential := fun r hr => hrs r (List.mem_cons_of_mem _ hr)
    cases hcall : r.ownCall? with
    | none =>
      have hkept : Lent name (w.answer lim r).2 v := by
        unfold Lent
        rw [generator_answer_of_ownCall? hfirst hcall]
        exact h
      obtain ⟨hanswers, hend⟩ := ih hothers hkept
      rw [answerAll_cons, List.filterMap_cons_none hcall]
      exact ⟨by simpa [ownAnswers, hcall] using hanswers, hend⟩
    | some call =>
      obtain ⟨symbol, times⟩ := call
      obtain rfl := Request.eq_generate_of_ownCall? hcall
      obtain ⟨hanswer, hmoved⟩ := h.generate symbol times
      obtain ⟨hanswers, hend⟩ := ih hothers hmoved
      rw [answerAll_cons, List.filterMap_cons_some hcall, List.map_cons, answerAll_cons]
      refine ⟨?_, hend⟩
      rw [List.map_cons, ← hanswer, ← hanswers]
      simp [ownAnswers, hcall]

theorem generator_answer_of_undeclared {w : Workspace σ τ} {symbol : Text}
    (h : w.generator.grammar.productions? symbol = none) (times : Nat) :
    (w.answer lim (.generate symbol times)).2.generator = w.generator := by
  have hmany := Generator.generateMany_of_undeclared lim h times
  unfold answer
  dsimp only
  split <;> next heq => rwa [heq] at hmany

theorem generator_answer_of_failed {w : Workspace σ τ} {symbol : Text} {times : Nat} {e : Error}
    (h : (w.answer lim (.generate symbol times)).1 = .failed e) :
    (w.answer lim (.generate symbol times)).2.generator = w.generator := by
  unfold answer at h ⊢
  dsimp only at h ⊢
  split at h
  · next heq => exact (Generator.exists_of_generateMany_eq_error heq).1
  · cases h

/-- A request touches the source that it is about and no other, and never the rules. The own
source answers like a lent one, and requests about different sources commute. -/
theorem sources_kept_apart (lim : Limits) (w : Workspace σ τ) :
    (∀ (r : Request τ), ∀ x ∉ r.source?, (w.answer lim r).2.at? x = w.at? x) ∧
    (∀ symbol times, ((∃ e, (w.answer lim (.generate symbol times)).1 = .failed e) ∨
        w.generator.grammar.productions? symbol = none) →
      (w.answer lim (.generate symbol times)).2.generator = w.generator) ∧
    (∀ times, (w.answer lim (.generate [] (times + 1))).1 = .failed .emptySymbol) ∧
    (∀ rs : List (Request τ),
      (answerAll lim rs w).2.generator.grammar = w.generator.grammar) ∧
    (∀ (rs : List (Request τ)) (name : Text), (∀ r ∈ rs, r.Sequential) →
      ∃ answers lent, answerAll lim ((rs.filterMap Request.ownCall?).map (lentCall name))
          (w.lend name) = (answers, lent) ∧
        (ownAnswers rs (answerAll lim rs w).1).map Answer.derivations? =
          answers.map Answer.derivations? ∧
        (lent.caller? name).map CallerSource.source =
          some (answerAll lim rs w).2.generator.source) ∧
    (∀ (before : List (Request τ)) (r r' : Request τ) (after : List (Request τ)), r.Apart r' →
      ∃ as a a' bs, as.length = before.length ∧
        (answerAll lim (before ++ r :: r' :: after) w).1 = as ++ a :: a' :: bs ∧
        (answerAll lim (before ++ r' :: r :: after) w).1 = as ++ a' :: a :: bs ∧
        Agree (answerAll lim (before ++ r :: r' :: after) w).2
          (answerAll lim (before ++ r' :: r :: after) w).2) := by
  refine ⟨fun r x hx => at?_answer_of_notMem w hx, ?_, fun times => rfl,
    fun rs => grammar_answerAll lim rs w, ?_, ?_⟩
  · rintro symbol times (⟨e, hfailed⟩ | hterminal)
    · exact generator_answer_of_failed hfailed
    · exact generator_answer_of_undeclared hterminal times
  · intro rs name hrs
    obtain ⟨hanswers, -, hsource⟩ := (lent_lend name w).answerAll hrs
    exact ⟨_, _, rfl, hanswers, hsource⟩
  · intro before r r' after hapart
    obtain ⟨v, hv⟩ : ∃ v, (answerAll lim before w).2 = v := ⟨_, rfl⟩
    have hfirst := (answer_after lim v hapart).1
    have hsecond := (answer_after lim v hapart.symm).1
    obtain ⟨hrest, hend⟩ := (agree_of_apart lim v hapart).answerAll lim after
    refine ⟨(answerAll lim before w).1, (v.answer lim r).1, (v.answer lim r').1,
      (answerAll lim after ((v.answer lim r).2.answer lim r').2).1, length_answerAll lim before w,
      ?_, ?_, ?_⟩
    · simp only [answerAll_append, answerAll_cons, hv, hsecond]
    · simp only [answerAll_append, answerAll_cons, hv, hfirst, hrest]
    · simp only [answerAll_append, answerAll_cons, hv]
      exact hend

/-- A workspace on the grammar `s ::= x s y |` with a caller's source beside its own. -/
def shared : Workspace Tape Tape :=
  ⟨⟨Grammar.nested, ⟨[0, 0x80000000, 0x80000000]⟩⟩, [(['c'], ⟨⟨[0x80000000]⟩, 0⟩)]⟩

def mixed : List (Request Tape) :=
  [.generate [] 1, .generate ['x'] 1, .generateWith ['c'] ['s'] 1, .generate ['s'] 2]

/-- The caller's request does not touch the words of the longer sentence. -/
theorem sources_kept_apart_mixed :
    (∀ r ∈ mixed, r.Sequential) ∧
      (∃ answers lent,
        answerAll ⟨3, 1⟩ [.generateWith ['o'] ['x'] 1, .generateWith ['o'] ['s'] 2]
          (shared.lend ['o']) = (answers, lent) ∧
        (ownAnswers mixed (answerAll ⟨3, 1⟩ mixed shared).1).map Answer.derivations? =
          answers.map Answer.derivations? ∧
        answers.map (·.derivations?.map (·.map (·.map Derivation.sentence))) =
          [some (.ok [['x']]), some (.ok ["x y".toList, []])]) ∧
      (Request.generateWith ['c'] ['s'] 1 : Request Tape).Apart (.generate ['s'] 2) ∧
      ∃ a a',
        (answerAll ⟨3, 1⟩ [.generateWith ['c'] ['s'] 1, .generate ['s'] 2] shared).1 = [a, a'] ∧
        (answerAll ⟨3, 1⟩ [.generate ['s'] 2, .generateWith ['c'] ['s'] 1] shared).1 = [a', a] := by
  have hsequential : ∀ r ∈ mixed, r.Sequential := by simp [mixed, Request.Sequential]
  have hapart : (Request.generateWith ['c'] ['s'] 1 : Request Tape).Apart (.generate ['s'] 2) := by
    rintro x ⟨⟩
    decide
  obtain ⟨-, -, -, -, hlent, hswap⟩ := sources_kept_apart ⟨3, 1⟩ shared
  obtain ⟨answers, lent, hrun, hanswers, -⟩ := hlent mixed ['o'] hsequential
  obtain ⟨as, a, a', bs, hlength, hfirst, hsecond, -⟩ := hswap [] _ _ [] hapart
  obtain rfl := List.eq_nil_of_length_eq_zero hlength
  obtain rfl : bs = [] := by
    have hbs := congrArg List.length hfirst
    rw [length_answerAll] at hbs
    simpa using hbs
  refine ⟨hsequential, ⟨answers, lent, hrun, hanswers, ?_⟩, hapart, a, a', hfirst, hsecond⟩
  rw [← (Prod.mk.inj hrun).1]
  rfl

end Workspace

end BnfSentences
