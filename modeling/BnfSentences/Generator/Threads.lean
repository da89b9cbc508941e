import BnfSentences.Generator.Basic

/-!
# Threads on one generator

Threads call one generator, and a call holds the generator for its whole
derivation. A schedule names the threads in the order in which they take hold
of it; `run` answers their calls in that order.
-/

namespace BnfSentences

universe u

/-- A thread: the symbols it has yet to call for, and the answers to its calls so far. -/
structure Thread where
  pending : List Text
  answers : List (Except Error Derivation) := []

structure Threads (σ : Type u) where
  generator : Generator σ
  threads : List Thread

namespace Threads

variable {σ : Type u} [Source σ]

/-- The thread numbered `i` takes hold of the generator for its next call. There
is no answer if it has none. -/
def step (lim : Limits) (t : Threads σ) (i : Nat) :
    Option (Except Error Derivation) × Threads σ :=
  match t.threads[i]? with
  | some ⟨symbol :: pending, answers⟩ =>
    let (answer, g) := t.generator.generate lim symbol
    (some answer, ⟨g, t.threads.set i ⟨pending, answers ++ [answer]⟩⟩)
  | _ => (none, t)

/-- The answers in the order of a schedule, and the threads after it. -/
def run (lim : Limits) : List Nat → Threads σ → List (Except Error Derivation) × Threads σ
  | [], t => ([], t)
  | i :: schedule, t =>
    let (answer, t) := t.step lim i
    let (answers, t) := run lim schedule t
    (answer.toList ++ answers, t)

def calling (g : Generator σ) (symbol : Text) (threads times : Nat) : Threads σ :=
  ⟨g, List.replicate threads ⟨List.replicate times symbol, []⟩⟩

def turns (threads times : Nat) : List Nat :=
  (List.replicate times (List.range threads)).flatten

end Threads

end BnfSentences
