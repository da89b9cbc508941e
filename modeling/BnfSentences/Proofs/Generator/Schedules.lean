import BnfSentences.Generator.Threads
import BnfSentences.Proofs.Grammar.Construction
import BnfSentences.Source.Tape

/-!
# Schedules

Threads that take turns on one generator get what one caller would get who made
all their calls in the order of the schedule: `run_of_complete`. No answer is lost
or given twice, and which thread comes when does not matter to calls for one symbol.
-/

namespace BnfSentences

universe u

variable {σ : Type u} [Source σ] {lim : Limits}

/-- Calls for symbols one after another, each on the generator that the one before it left. -/
def Generator.callAll (lim : Limits) :
    List Text → Generator σ → List (Except Error Derivation) × Generator σ
  | [], g => ([], g)
  | symbol :: symbols, g =>
    let (answer, g₁) := g.generate lim symbol
    let (answers, g₂) := callAll lim symbols g₁
    (answer :: answers, g₂)

namespace Threads

/-! ### Orders of calls -/

/-- What falls to the thread numbered `i`, of things that each fall to a thread. -/
def share {α : Type} (i : Nat) (dealt : List (Nat × α)) : List α :=
  (dealt.filter (·.1 == i)).map Prod.snd

/-- A schedule that names every thread as often as it has calls to make. -/
def Complete (calls : List (List Text)) (schedule : List Nat) : Prop :=
  ∀ i, schedule.count i = (calls[i]?.getD []).length

/-- Which thread calls for which symbol, one call after the other, if all threads
make their own calls in turn. -/
def Interleaves (calls : List (List Text)) (order : List (Nat × Text)) : Prop :=
  ∀ i, share i order = calls[i]?.getD []

def start (g : Generator σ) (calls : List (List Text)) : Threads σ :=
  ⟨g, calls.map (⟨·, []⟩)⟩

theorem share_cons_self {α : Type} (i : Nat) (a : α) (dealt : List (Nat × α)) :
    share i ((i, a) :: dealt) = a :: share i dealt := by
  simp [share]

theorem share_cons_of_ne {α : Type} {i j : Nat} (h : i ≠ j) (a : α) (dealt : List (Nat × α)) :
    share j ((i, a) :: dealt) = share j dealt := by
  simp [share, h]

theorem exists_order {schedule : List Nat} {calls : Nat → List Text}
    (h : ∀ i, schedule.count i = (calls i).length) :
    ∃ order : List (Nat × Text), order.map Prod.fst = schedule ∧ ∀ i, share i order = calls i := by
  induction schedule generalizing calls with
  | nil =>
    refine ⟨[], rfl, fun i => ?_⟩
    have hnone := h i
    rw [List.count_nil] at hnone
    exact (List.eq_nil_of_length_eq_zero hnone.symm).symm
  | cons i schedule ih =>
    have hfirst := h i
    rw [List.count_cons_self] at hfirst
    obtain ⟨symbol, later, hcalls⟩ := List.exists_cons_of_length_eq_add_one hfirst.symm
    obtain ⟨order, hschedule, horder⟩ :=
      @ih (fun j => if i = j then later else calls j) (by
        intro j
        by_cases hj : i = j
        · subst hj
          rw [hcalls, List.length_cons] at hfirst
          simpa using hfirst
        · have hother := h j
          rw [List.count_cons_of_ne hj] at hother
          simpa [hj] using hother)
    refine ⟨(i, symbol) :: order, by rw [List.map_cons, hschedule], fun j => ?_⟩
    by_cases hj : i = j
    · subst hj
      rw [share_cons_self, horder, hcalls]
      simp
    · rw [share_cons_of_ne hj, horder, if_neg hj]

/-! ### The threads of a run -/

def pendingOf (threads : List Thread) (i : Nat) : List Text :=
  (threads[i]?.map Thread.pending).getD []

theorem exists_thread_of_pendingOf {threads : List Thread} {i : Nat} {symbol : Text}
    {later : List Text} (h : pendingOf threads i = symbol :: later) :
    ∃ answers, threads[i]? = some ⟨symbol :: later, answers⟩ := by
  unfold pendingOf at h
  cases hi : threads[i]? with
  | none => simp [hi] at h
  | some thread =>
    obtain ⟨pending, answers⟩ := thread
    obtain rfl : pending = symbol :: later := by simpa [hi] using h
    exact ⟨answers, rfl⟩

theorem pendingOf_set_self {threads : List Thread} {i : Nat} (hi : i < threads.length)
    (thread : Thread) : pendingOf (threads.set i thread) i = thread.pending := by
  simp [pendingOf, List.getElem?_set_self hi]

theorem pendingOf_set_of_ne {threads : List Thread} {i j : Nat} (h : i ≠ j) (thread : Thread) :
    pendingOf (threads.set i thread) j = pendingOf threads j := by
  rw [pendingOf, List.getElem?_set_ne h, pendingOf]

theorem step_of_pending {t : Threads σ} {i : Nat} {symbol : Text} {later : List Text}
    {answers : List (Except Error Derivation)} {answer : Except Error Derivation}
    {g : Generator σ} (h : t.threads[i]? = some ⟨symbol :: later, answers⟩)
    (hcall : t.generator.generate lim symbol = (answer, g)) :
    t.step lim i = (some answer, ⟨g, t.threads.set i ⟨later, answers ++ [answer]⟩⟩) := by
  unfold step
  rw [h]
  simp [hcall]

theorem run_of_order (lim : Limits) (order : List (Nat × Text)) (t : Threads σ)
    (h : ∀ i, share i order = pendingOf t.threads i) :
    (run lim (order.map Prod.fst) t).1 = (t.generator.callAll lim (order.map Prod.snd)).1 ∧
    (run lim (order.map Prod.fst) t).2.generator =
      (t.generator.callAll lim (order.map Prod.snd)).2 ∧
    ∀ i : Nat, (run lim (order.map Prod.fst) t).2.threads[i]? =
      t.threads[i]?.map fun thread => ⟨[], thread.answers ++
        share i ((order.map Prod.fst).zip (t.generator.callAll lim (order.map Prod.snd)).1)⟩ := by
  induction order generalizing t with
  | nil =>
    refine ⟨rfl, rfl, fun i => ?_⟩
    have hi := h i
    cases ht : t.threads[i]? with
    | none => simpa [run] using ht
    | some thread =>
      obtain ⟨pending, answers⟩ := thread
      obtain rfl : [] = pending := by simpa [share, pendingOf, ht] using hi
      simp [run, ht, share]
  | cons call order ih =>
    obtain ⟨i, symbol⟩ := call
    have hi : pendingOf t.threads i = symbol :: share i order := by
      rw [← h i, share_cons_self]
    obtain ⟨answers, ht⟩ := exists_thread_of_pendingOf hi
    have hlt : i < t.threads.length := (List.getElem?_eq_some_iff.1 ht).1
    obtain ⟨answer, g, hcall⟩ : ∃ answer g, t.generator.generate lim symbol = (answer, g) :=
      ⟨_, _, rfl⟩
    have hstep := step_of_pending ht hcall
    have hothers : ∀ j, share j order =
        pendingOf (t.threads.set i ⟨share i order, answers ++ [answer]⟩) j := by
      intro j
      by_cases hj : i = j
      · subst hj
        rw [pendingOf_set_self hlt]
      · rw [pendingOf_set_of_ne hj, ← h j, share_cons_of_ne hj]
    obtain ⟨hanswers, hgenerator, hthreads⟩ := ih ⟨g, _⟩ hothers
    simp only [List.map_cons, run, hstep, Generator.callAll, hcall]
    refine ⟨?_, hgenerator, fun j => ?_⟩
    · rw [hanswers]
      rfl
    · rw [hthreads j, List.zip_cons_cons]
      by_cases hj : i = j
      · subst hj
        rw [List.getElem?_set_self hlt, ht, share_cons_self]
        simp
      · rw [List.getElem?_set_ne hj, share_cons_of_ne hj]

/-! ### Nothing is lost -/

theorem perm_flatMap_set {α β : Type} (f : α → List β) {l : List α} {i : Nat} {x : α}
    (h : l[i]? = some x) (y : α) : (f x ++ (l.set i y).flatMap f).Perm (f y ++ l.flatMap f) := by
  induction l generalizing i with
  | nil => simp at h
  | cons z l ih =>
    cases i with
    | zero =>
      obtain rfl : z = x := by simpa using h
      rw [List.set_cons_zero, List.flatMap_cons, List.flatMap_cons]
      exact List.perm_append_comm_assoc _ _ _
    | succ i =>
      rw [List.set_cons_succ, List.flatMap_cons, List.flatMap_cons]
      have hrest := (ih (show l[i]? = some x by simpa using h)).append_left (f z)
      exact (List.perm_append_comm_assoc _ _ _).trans
        (hrest.trans (List.perm_append_comm_assoc _ _ _))

theorem step_answers_perm (lim : Limits) (t : Threads σ) (i : Nat) :
    ((t.step lim i).2.threads.flatMap Thread.answers).Perm
      ((t.step lim i).1.toList ++ t.threads.flatMap Thread.answers) := by
  unfold step
  split
  · next symbol later answers ht =>
    have hset := perm_flatMap_set Thread.answers ht
      ⟨later, answers ++ [(t.generator.generate lim symbol).1]⟩
    rw [List.append_assoc, List.perm_append_left_iff] at hset
    exact hset
  · exact .refl _

theorem run_answers_perm (lim : Limits) (schedule : List Nat) (t : Threads σ) :
    ((run lim schedule t).2.threads.flatMap Thread.answers).Perm
      ((run lim schedule t).1 ++ t.threads.flatMap Thread.answers) := by
  induction schedule generalizing t with
  | nil => exact .refl _
  | cons i schedule ih =>
    have hothers := (ih (t.step lim i).2).trans ((step_answers_perm lim t i).append_left _)
    have hmove := List.perm_append_comm_assoc (run lim schedule (t.step lim i).2).1
      (t.step lim i).1.toList (t.threads.flatMap Thread.answers)
    rw [run, List.append_assoc]
    exact hothers.trans hmove

theorem Interleaves.perm_flatten {calls : List (List Text)} {order : List (Nat × Text)}
    (h : Interleaves calls order) : (order.map Prod.snd).Perm calls.flatten := by
  induction order generalizing calls with
  | nil =>
    have hnil : calls.flatten = [] := by
      rw [List.flatten_eq_nil_iff]
      intro symbols hsymbols
      obtain ⟨i, hi⟩ := List.mem_iff_getElem?.1 hsymbols
      simpa [share, hi] using (h i).symm
    rw [hnil]
    exact .refl _
  | cons call order ih =>
    obtain ⟨i, symbol⟩ := call
    have hi := h i
    rw [share_cons_self] at hi
    cases hcalls : calls[i]? with
    | none => simp [hcalls] at hi
    | some symbols =>
      obtain rfl : symbol :: share i order = symbols := by simpa [hcalls] using hi
      have hlt : i < calls.length := (List.getElem?_eq_some_iff.1 hcalls).1
      have hothers : Interleaves (calls.set i (share i order)) order := by
        intro j
        by_cases hj : i = j
        · subst hj
          rw [List.getElem?_set_self hlt]
          rfl
        · rw [List.getElem?_set_ne hj, ← h j, share_cons_of_ne hj]
      have hset := perm_flatMap_set id hcalls (share i order)
      rw [List.flatMap_id, List.flatMap_id] at hset
      have hcons : (share i order ++ symbol :: (calls.set i (share i order)).flatten).Perm
          (share i order ++ calls.flatten) := List.perm_middle.trans hset
      exact ((ih hothers).cons symbol).trans (List.perm_append_left_iff _ |>.1 hcons)

theorem Interleaves.eq_replicate {calls : List (List Text)} {order : List (Nat × Text)}
    (h : Interleaves calls order) {symbol : Text} (hcalls : ∀ c ∈ calls, ∀ s ∈ c, s = symbol) :
    order.map Prod.snd = List.replicate calls.flatten.length symbol := by
  have hflatten : calls.flatten = List.replicate calls.flatten.length symbol := by
    refine List.eq_replicate_iff.2 ⟨rfl, fun s hs => ?_⟩
    obtain ⟨c, hc, hs⟩ := List.mem_flatten.1 hs
    exact hcalls c hc s hs
  have hperm := h.perm_flatten
  rw [hflatten] at hperm
  exact List.perm_replicate.1 hperm

/-- However threads take turns, the answers are those of one caller in that order, each to its own
thread. The order has no part in them if all calls are for one symbol. -/
theorem run_of_complete (lim : Limits) (g : Generator σ) {calls : List (List Text)}
    {schedule : List Nat} (h : Complete calls schedule) :
    ∃ order answers g' threads, order.map Prod.fst = schedule ∧ Interleaves calls order ∧
      g.callAll lim (order.map Prod.snd) = (answers, g') ∧
      run lim schedule (start g calls) = (answers, ⟨g', threads⟩) ∧
      (∀ i : Nat, threads[i]? = calls[i]?.map fun _ => ⟨[], share i (schedule.zip answers)⟩) ∧
      ∀ symbol, (∀ c ∈ calls, ∀ s ∈ c, s = symbol) →
        ∃ inRow, g.callAll lim (List.replicate calls.flatten.length symbol) = (inRow, g') ∧
          (threads.flatMap Thread.answers).Perm inRow := by
  obtain ⟨order, rfl, horder⟩ := exists_order h
  have hpending : ∀ i, share i order = pendingOf (start g calls).threads i := by
    intro i
    rw [horder i, pendingOf, start, List.getElem?_map, Option.map_map]
    cases calls[i]? <;> rfl
  obtain ⟨hanswers, hgenerator, hthreads⟩ := run_of_order lim order (start g calls) hpending
  refine ⟨order, (g.callAll lim (order.map Prod.snd)).1, (g.callAll lim (order.map Prod.snd)).2,
    (run lim (order.map Prod.fst) (start g calls)).2.threads, rfl, horder, rfl, ?_, ?_, ?_⟩
  · exact Prod.ext hanswers (congrArg (Threads.mk · _) hgenerator)
  · intro i
    rw [hthreads i, start, List.getElem?_map, Option.map_map]
    rfl
  · intro symbol hsymbol
    rw [← Interleaves.eq_replicate horder hsymbol]
    refine ⟨_, rfl, ?_⟩
    have hperm := run_answers_perm lim (order.map Prod.fst) (start g calls)
    have hnone : (start g calls).threads.flatMap Thread.answers = [] := by
      simp [start, List.flatMap_map]
    rw [hnone, List.append_nil, hanswers] at hperm
    exact hperm

/-- Three threads: one with a failing call after a proper one, one without calls. -/
def uneven : List (List Text) :=
  [[['s'], []], [], [['s']]]

/-- The last thread comes first and takes the words of the longer sentence. -/
theorem run_of_complete_uneven :
    Complete uneven [2, 0, 0] ∧
      ∃ order answers g' threads, order.map Prod.fst = [2, 0, 0] ∧ Interleaves uneven order ∧
        Generator.callAll ⟨3, 1⟩ (order.map Prod.snd)
          ⟨Grammar.nested, (⟨[0, 0x80000000, 0x80000000]⟩ : Tape)⟩ = (answers, g') ∧
        answers.map (·.map Derivation.sentence) =
          [.ok "x y".toList, .ok [], .error .emptySymbol] ∧
        threads.map (·.answers.map (·.map Derivation.sentence)) =
          [[.ok [], .error .emptySymbol], [], [.ok "x y".toList]] ∧
        run ⟨3, 1⟩ [2, 0, 0]
          (start ⟨Grammar.nested, (⟨[0, 0x80000000, 0x80000000]⟩ : Tape)⟩ uneven) =
            (answers, ⟨g', threads⟩) := by
  have hcomplete : Complete uneven [2, 0, 0] := by
    intro i
    match i with
    | 0 => rfl
    | 1 => rfl
    | 2 => rfl
    | i + 3 => simp [uneven]
  obtain ⟨order, answers, g', threads, hschedule, horder, hcalls, hrun, -⟩ :=
    run_of_complete ⟨3, 1⟩ ⟨Grammar.nested, (⟨[0, 0x80000000, 0x80000000]⟩ : Tape)⟩ hcomplete
  obtain ⟨hanswers, hafter⟩ := Prod.mk.inj hrun
  obtain ⟨-, hthreads⟩ := Threads.mk.inj hafter
  refine ⟨hcomplete, order, answers, g', threads, hschedule, horder, hcalls, ?_, ?_, hrun⟩
  · rw [← hanswers]
    rfl
  · rw [← hthreads]
    rfl

end Threads

end BnfSentences
