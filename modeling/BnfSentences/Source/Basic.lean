/-!
# Sources of words

A source gives 32-bit words one after another for ever. All that a program can
see of it is `take`, the words to come, and `drop` is the source after them.
-/

namespace BnfSentences

universe u v

/-- A state that yields a word and the state after it. -/
class Source (σ : Type u) where
  next : σ → UInt32 × σ

namespace Source

variable {σ : Type u} [Source σ]

def take : Nat → σ → List UInt32
  | 0, _ => []
  | n + 1, s => (next s).1 :: take n (next s).2

def drop : Nat → σ → σ
  | 0, s => s
  | n + 1, s => drop n (next s).2

instance {τ : Type v} [Source τ] : Source (σ ⊕ τ) where
  next
    | .inl s => ((next s).1, .inl (next s).2)
    | .inr t => ((next t).1, .inr (next t).2)

/-! ### Words in parts -/

@[simp] theorem length_take (n : Nat) (s : σ) : (take n s).length = n := by
  induction n generalizing s with
  | zero => rfl
  | succ n ih => simp [take, ih]

theorem take_add (m n : Nat) (s : σ) : take (m + n) s = take m s ++ take n (drop m s) := by
  induction m generalizing s with
  | zero => simp [take, drop]
  | succ m ih => rw [Nat.succ_add, take, take, drop, ih, List.cons_append]

theorem drop_add (m n : Nat) (s : σ) : drop (m + n) s = drop n (drop m s) := by
  induction m generalizing s with
  | zero => simp [drop]
  | succ m ih => rw [Nat.succ_add, drop, drop, ih]

end Source

end BnfSentences
