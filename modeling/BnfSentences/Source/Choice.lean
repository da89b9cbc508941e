import BnfSentences.Source.Basic

/-!
# Uniform choice

A number below `n` is chosen from the high half of a word times `n`; a word
whose product has too large a low half is rejected and the next one drawn.
`index?_eq_some_iff` says which words choose which number.
-/

namespace BnfSentences.Choice

/-- The largest low half that is accepted: `n` moved up to the top bit of a word,
less one. -/
def zone (n : Nat) : Nat :=
  n <<< (31 - n.log2) - 1

/-- The number below `n` that a word chooses, unless the word is rejected. -/
def index? (n : Nat) (w : UInt32) : Option (Fin n) :=
  if h : 0 < n ∧ w.toNat * n % UInt32.size ≤ zone n then
    some ⟨w.toNat * n / UInt32.size, by
      rw [Nat.div_lt_iff_lt_mul (by decide), Nat.mul_comm]
      exact Nat.mul_lt_mul_of_pos_left w.toNat_lt h.1⟩
  else none

universe u

variable {σ : Type u} [Source σ]

/-- The number that the first accepted word chooses, how many words were drawn
with it, and the source after it. At most `tries` words are drawn. -/
def draw (n : Nat) : Nat → σ → Option (Fin n × Nat × σ)
  | 0, _ => none
  | tries + 1, s =>
    match index? n (Source.next s).1 with
    | some i => some (i, 1, (Source.next s).2)
    | none => (draw n tries (Source.next s).2).map fun (i, drawn, s) => (i, drawn + 1, s)

def pick {α : Type} (tries : Nat) (alternatives : List α) (s : σ) : Option (α × Nat × σ) :=
  (draw alternatives.length tries s).map fun (i, drawn, s) => (alternatives[i], drawn, s)

theorem index?_eq_some_iff {n : Nat} {w : UInt32} {i : Fin n} :
    index? n w = some i ↔ w.toNat * n % UInt32.size ≤ zone n ∧ w.toNat * n / UInt32.size = i := by
  constructor
  · intro h
    unfold index? at h
    split at h
    · next hc => exact ⟨hc.2, congrArg Fin.val (Option.some.inj h)⟩
    · contradiction
  · rintro ⟨hz, hi⟩
    rw [index?, dif_pos ⟨i.pos, hz⟩]
    exact congrArg some (Fin.ext hi)

end BnfSentences.Choice
