import BnfSentences.Proofs.Derivation.Steps
import BnfSentences.Proofs.Source.Choice
import Mathlib.Algebra.BigOperators.Group.Finset.Basic
import Mathlib.Algebra.Order.BigOperators.Group.Finset
import Mathlib.Algebra.Order.Floor.Div
import Mathlib.Data.FinEnum
import Mathlib.Order.Interval.Finset.Nat

/-!
# Uniformity of a choice

`n` moved up to the top bit of a word is a multiple of `n`, and the words that choose a
number below `n` are the `v` with `n * v` in a window of that length. Wherever the window
begins, it holds equally many multiples of `n`: `card_choosing`.
-/

namespace BnfSentences

namespace Choice

/-! ### The window of a number -/

def leadingZeros (n : Nat) : Nat :=
  (BitVec.ofNat 32 n).clz.toNat

section

variable {n : Nat}

theorem leadingZeros_bounds (hpos : 0 < n) (hlt : n < UInt32.size) :
    leadingZeros n ≤ 31 ∧ 2 ^ (31 - leadingZeros n) ≤ n ∧ n < 2 ^ (32 - leadingZeros n) := by
  have hn : (BitVec.ofNat 32 n).toNat = n := Nat.mod_eq_of_lt hlt
  have hne : BitVec.ofNat 32 n ≠ 0#32 := by
    intro h
    rw [h] at hn
    exact Nat.ne_of_lt hpos hn
  have hlow := BitVec.two_pow_sub_clz_le_toNat_of_ne_zero (by decide) hne
  have hhigh := @BitVec.toNat_lt_two_pow_sub_clz 32 (BitVec.ofNat 32 n)
  rw [hn] at hlow hhigh
  exact ⟨Nat.le_of_lt_succ (BitVec.clz_lt_iff_ne_zero.2 hne), hlow, hhigh⟩

theorem zone_eq (hpos : 0 < n) (hlt : n < UInt32.size) :
    zone n = n * 2 ^ leadingZeros n - 1 := by
  obtain ⟨hle, hlow, hhigh⟩ := leadingZeros_bounds hpos hlt
  have hlog : n.log2 = 31 - leadingZeros n := by
    rw [Nat.log2_eq_iff (Nat.ne_of_gt hpos)]
    refine ⟨hlow, ?_⟩
    rwa [← Nat.sub_add_comm hle]
  rw [zone, Nat.shiftLeft_eq, hlog, Nat.sub_sub_self hle]

/-- The window covers more than a half of the words, but not all. -/
theorem window_bounds (hpos : 0 < n) (hlt : n < UInt32.size) :
    UInt32.size ≤ 2 * (n * 2 ^ leadingZeros n) ∧ n * 2 ^ leadingZeros n < UInt32.size := by
  obtain ⟨hle, hlow, hhigh⟩ := leadingZeros_bounds hpos hlt
  have hscale : 0 < 2 ^ leadingZeros n := Nat.two_pow_pos _
  constructor
  · calc UInt32.size = 2 * (2 ^ (31 - leadingZeros n) * 2 ^ leadingZeros n) := by
          rw [← Nat.pow_add, Nat.sub_add_cancel hle]
      _ ≤ 2 * (n * 2 ^ leadingZeros n) :=
          Nat.mul_le_mul_left 2 (Nat.mul_le_mul_right _ hlow)
  · calc n * 2 ^ leadingZeros n < 2 ^ (32 - leadingZeros n) * 2 ^ leadingZeros n :=
          Nat.mul_lt_mul_of_pos_right hhigh hscale
      _ = UInt32.size := by
          rw [← Nat.pow_add, Nat.sub_add_cancel (Nat.le_succ_of_le hle)]

theorem index?_eq_some_iff_window (hlt : n < UInt32.size) {i : Fin n} {w : UInt32} :
    index? n w = some i ↔
      i * UInt32.size ≤ n * w.toNat ∧
        n * w.toNat < i * UInt32.size + n * 2 ^ leadingZeros n := by
  have hsize := (window_bounds i.pos hlt).2
  have hwindow : 0 < n * 2 ^ leadingZeros n := Nat.mul_pos i.pos (Nat.two_pow_pos _)
  have hsplit := Nat.div_add_mod (n * w.toNat) UInt32.size
  have hmod := Nat.mod_lt (n * w.toNat) (show 0 < UInt32.size by decide)
  rw [index?_eq_some_iff, zone_eq i.pos hlt, Nat.mul_comm w.toNat n]
  constructor
  · rintro ⟨hzone, hdiv⟩
    rw [hdiv, Nat.mul_comm] at hsplit
    omega
  · rintro ⟨hlow, hhigh⟩
    have hdiv : n * w.toNat / UInt32.size = i := by
      apply Nat.div_eq_of_lt_le hlow
      rw [Nat.succ_mul]
      omega
    rw [hdiv, Nat.mul_comm] at hsplit
    exact ⟨by omega, hdiv⟩

/-! ### Counting -/

def choosing (i : Fin n) : Finset UInt32 :=
  Finset.univ.filter fun w => index? n w = some i

theorem mem_choosing {i : Fin n} {w : UInt32} : w ∈ choosing i ↔ index? n w = some i := by
  simp [choosing]

def accepted (n : Nat) : Finset UInt32 :=
  Finset.univ.filter fun w => w.toNat * n % UInt32.size ≤ zone n

theorem mem_accepted {w : UInt32} :
    w ∈ accepted n ↔ w.toNat * n % UInt32.size ≤ zone n := by
  simp [accepted]

theorem mul_mem_window_iff (hpos : 0 < n) {start count v : Nat} :
    start ≤ n * v ∧ n * v < start + n * count ↔
      v ∈ Finset.Ico (start ⌈/⌉ n) (start ⌈/⌉ n + count) := by
  have hshift : (start + n * count) ⌈/⌉ n = start ⌈/⌉ n + count := by
    rw [Nat.ceilDiv_eq_add_pred_div, Nat.ceilDiv_eq_add_pred_div, ← Nat.add_mul_div_left _ _ hpos]
    congr 1
    omega
  rw [Finset.mem_Ico, ← hshift, ceilDiv_le_iff_le_mul hpos, ← not_le (b := v),
    ceilDiv_le_iff_le_mul hpos, not_le]

/-- The words that choose a number, as they lie next to each other. -/
def interval (i : Fin n) : Finset Nat :=
  Finset.Ico (i * UInt32.size ⌈/⌉ n) (i * UInt32.size ⌈/⌉ n + 2 ^ leadingZeros n)

theorem mem_choosing_iff_interval (hlt : n < UInt32.size) {i : Fin n} {w : UInt32} :
    w ∈ choosing i ↔ w.toNat ∈ interval i := by
  rw [mem_choosing, index?_eq_some_iff_window hlt, mul_mem_window_iff i.pos]
  rfl

theorem lt_size_of_mem_interval (hlt : n < UInt32.size) {i : Fin n} {v : Nat}
    (hv : v ∈ interval i) : v < UInt32.size := by
  have hhigh := ((mul_mem_window_iff i.pos).2 hv).2
  apply Nat.lt_of_mul_lt_mul_left (a := n)
  calc n * v < i * UInt32.size + n * 2 ^ leadingZeros n := hhigh
    _ ≤ i * UInt32.size + UInt32.size :=
        Nat.add_le_add_left (Nat.le_of_lt (window_bounds i.pos hlt).2) _
    _ = (i + 1) * UInt32.size := (Nat.succ_mul _ _).symm
    _ ≤ n * UInt32.size := Nat.mul_le_mul_right _ i.isLt

theorem card_choosing (hlt : n < UInt32.size) (i : Fin n) :
    (choosing i).card = 2 ^ leadingZeros n := by
  have hword : ∀ v ∈ interval i, (UInt32.ofNat v).toNat = v := by
    intro v hv
    exact UInt32.toNat_ofNat_of_lt (lt_size_of_mem_interval hlt hv)
  have hcard : (choosing i).card = (interval i).card := by
    apply Finset.card_nbij' UInt32.toNat UInt32.ofNat
    · intro w hw
      exact (mem_choosing_iff_interval hlt).1 hw
    · intro v hv
      apply (mem_choosing_iff_interval hlt).2
      rwa [hword v hv]
    · intro w _
      exact UInt32.ofNat_toNat
    · intro v hv
      exact hword v hv
  rw [hcard, interval, Nat.card_Ico, Nat.add_sub_cancel_left]

theorem mem_choosing_of_mem_accepted (hpos : 0 < n) {w : UInt32} (hw : w ∈ accepted n) :
    ∃ h : w.toNat * n / UInt32.size < n, w ∈ choosing ⟨w.toNat * n / UInt32.size, h⟩ := by
  have hlt : w.toNat * n / UInt32.size < n := by
    rw [Nat.div_lt_iff_lt_mul (by decide), Nat.mul_comm n]
    exact Nat.mul_lt_mul_of_pos_right w.toNat_lt hpos
  exact ⟨hlt, mem_choosing.2 (index?_eq_some_iff.2 ⟨mem_accepted.1 hw, rfl⟩)⟩

theorem mem_accepted_of_mem_choosing {i : Fin n} {w : UInt32} (hw : w ∈ choosing i) :
    w ∈ accepted n :=
  mem_accepted.2 (index?_eq_some_iff.1 (mem_choosing.1 hw)).1

theorem card_accepted (hpos : 0 < n) (hlt : n < UInt32.size) :
    (accepted n).card = n * 2 ^ leadingZeros n := by
  have hunion : accepted n = Finset.univ.biUnion (choosing (n := n)) := by
    ext w
    simp only [Finset.mem_biUnion, Finset.mem_univ, true_and]
    constructor
    · intro hw
      obtain ⟨hlt, hw⟩ := mem_choosing_of_mem_accepted hpos hw
      exact ⟨_, hw⟩
    · rintro ⟨i, hw⟩
      exact mem_accepted_of_mem_choosing hw
  rw [hunion, Finset.card_biUnion]
  · simp [card_choosing hlt]
  · intro i _ j _ hij
    apply Finset.disjoint_left.2
    intro w hi hj
    rw [mem_choosing] at hi hj
    rw [hi] at hj
    exact hij (Option.some.inj hj)

end

/-! ### The words of an alternative -/

universe u

variable {σ : Type u} [Source σ]

theorem pick_of_mem_choosing {α : Type} {alternatives : List α} {i : Fin alternatives.length}
    {s : σ} (hw : (Source.next s).1 ∈ choosing i) (tries : Nat) :
    pick (tries + 1) alternatives s = some (alternatives.get i, 1, (Source.next s).2) := by
  rw [pick, draw, mem_choosing.1 hw]
  rfl

theorem pick_of_notMem_accepted {α : Type} {alternatives : List α} {s : σ}
    (hw : (Source.next s).1 ∉ accepted alternatives.length) (tries : Nat) :
    pick (tries + 1) alternatives s =
      (pick tries alternatives (Source.next s).2).map fun (p, drawn, s') => (p, drawn + 1, s') := by
  have hnone : index? alternatives.length (Source.next s).1 = none :=
    dif_neg fun h => hw (mem_accepted.2 h.2)
  rw [pick, draw, hnone, pick, Option.map_map, Option.map_map]
  rfl

end Choice

namespace Grammar

universe u

variable {σ : Type u} [Source σ] {g : Grammar} {symbol : Text} {alternatives : List Production}

theorem expand_of_mem_choosing (hsym : g.productions? symbol = some alternatives)
    {i : Fin alternatives.length} {s s' : σ} (hw : (Source.next s).1 ∈ Choice.choosing i)
    {tries depth : Nat} {d : Derivation} :
    g.expand (tries + 1) (depth + 1) symbol s = some (d, s') ↔
      ∃ e, Derivation.ofTokens (g.expand (tries + 1) depth) (alternatives.get i).tokens
          (Source.next s).2 = some (e, s') ∧ d = e.under symbol (alternatives.get i) 1 := by
  cases alternatives with
  | nil => exact i.elim0
  | cons p ps =>
    simp only [expand, hsym, Choice.pick_of_mem_choosing hw]
    simp only [Option.bind_eq_bind, Option.bind_some, Option.bind_eq_some_iff]
    constructor
    · rintro ⟨⟨e, t⟩, htokens, h⟩
      obtain ⟨rfl, rfl⟩ := Prod.mk.inj (Option.some.inj h)
      exact ⟨e, htokens, rfl⟩
    · rintro ⟨e, htokens, rfl⟩
      exact ⟨(e, s'), htokens, rfl⟩

/-- All alternatives have the same number of words, and at most half of the words are rejected. A
replacement takes the alternative of its next word, or drops that word. -/
theorem choice_uniform (hsym : g.productions? symbol = some alternatives)
    (hpos : 0 < alternatives.length) (hlt : alternatives.length < UInt32.size) :
    (∀ i : Fin alternatives.length,
      (Choice.choosing i).card = 2 ^ Choice.leadingZeros alternatives.length) ∧
    (∀ w ∈ Choice.accepted alternatives.length,
      ∃ h : w.toNat * alternatives.length / UInt32.size < alternatives.length,
        w ∈ Choice.choosing ⟨w.toNat * alternatives.length / UInt32.size, h⟩) ∧
    UInt32.size ≤ 2 * (Choice.accepted alternatives.length).card ∧
    ∀ (s : σ) (tries : Nat),
      (∀ i : Fin alternatives.length, (Source.next s).1 ∈ Choice.choosing i →
        ∀ depth d s', g.expand (tries + 1) (depth + 1) symbol s = some (d, s') ↔
          ∃ e, Derivation.ofTokens (g.expand (tries + 1) depth) (alternatives.get i).tokens
              (Source.next s).2 = some (e, s') ∧ d = e.under symbol (alternatives.get i) 1) ∧
      ((Source.next s).1 ∉ Choice.accepted alternatives.length →
        Choice.pick (tries + 1) alternatives s =
          (Choice.pick tries alternatives (Source.next s).2).map
            fun (p, drawn, s') => (p, drawn + 1, s')) := by
  refine ⟨Choice.card_choosing hlt, fun w hw => Choice.mem_choosing_of_mem_accepted hpos hw,
    ?_, fun s tries => ⟨?_, ?_⟩⟩
  · rw [Choice.card_accepted hpos hlt]
    exact (Choice.window_bounds hpos hlt).1
  · intro i hw depth d s'
    exact expand_of_mem_choosing hsym hw
  · intro hw
    exact Choice.pick_of_notMem_accepted hw tries

def threefold : Grammar :=
  ⟨[⟨['s'], [⟨[['a']]⟩, ⟨[['b']]⟩, ⟨[['c']]⟩]⟩]⟩

/-- Three does not divide the number of words: one of four is rejected. -/
theorem choice_uniform_threefold :
    (∀ i : Fin 3, (Choice.choosing i).card = 2 ^ 30) ∧
      UInt32.size ≤ 2 * (Choice.accepted 3).card := by
  have hzeros : Choice.leadingZeros 3 = 30 := rfl
  obtain ⟨alternatives, hsym, hlen⟩ : ∃ alternatives,
      threefold.productions? ['s'] = some alternatives ∧ alternatives.length = 3 :=
    ⟨_, rfl, rfl⟩
  obtain ⟨hcard, -, hhalf, -⟩ :=
    @choice_uniform Tape _ threefold ['s'] alternatives hsym (by omega)
      (by rw [hlen]; decide)
  rw [hlen] at hcard hhalf
  rw [hzeros] at hcard
  exact ⟨hcard, hhalf⟩

end Grammar

end BnfSentences
