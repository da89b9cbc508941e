import BnfSentences.Source.Choice
import BnfSentences.Source.Tape

/-!
# Words that choose

`draw_eq_some_iff` says which words a choice draws, and
`exists_index?_eq_some` that every number below a word's range can be chosen. A
tape rejects no longer than it has words.
-/

namespace BnfSentences.Choice

/-! ### Blocks of words -/

/-- Words that are rejected for a number below `n`, then one that chooses `i`. -/
def Selects {n : Nat} (i : Fin n) (block : List UInt32) : Prop :=
  ∃ rejected accepted, block = rejected ++ [accepted] ∧
    (∀ w ∈ rejected, index? n w = none) ∧ index? n accepted = some i

theorem not_selects_nil {n : Nat} (i : Fin n) : ¬ Selects i [] := by
  rintro ⟨rejected, accepted, hnil, -⟩
  exact List.append_ne_nil_of_right_ne_nil rejected (List.cons_ne_nil accepted []) hnil.symm

theorem selects_singleton {n : Nat} {i : Fin n} {w : UInt32} (h : index? n w = some i) :
    Selects i [w] :=
  ⟨[], w, rfl, by simp, h⟩

theorem selects_cons_iff {n : Nat} {i : Fin n} {w : UInt32} {ws : List UInt32} :
    Selects i (w :: ws) ↔
      index? n w = none ∧ Selects i ws ∨ index? n w = some i ∧ ws = [] := by
  constructor
  · rintro ⟨rejected, accepted, hws, hrej, hacc⟩
    cases rejected with
    | nil =>
      obtain ⟨rfl, rfl⟩ := List.cons.inj hws
      exact .inr ⟨hacc, rfl⟩
    | cons v rejected =>
      obtain ⟨rfl, rfl⟩ := List.cons.inj hws
      exact .inl ⟨hrej w List.mem_cons_self,
        rejected, accepted, rfl, fun v hv => hrej v (List.mem_cons_of_mem w hv), hacc⟩
  · rintro (⟨hw, rejected, accepted, rfl, hrej, hacc⟩ | ⟨hw, rfl⟩)
    · refine ⟨w :: rejected, accepted, rfl, fun v hv => ?_, hacc⟩
      rcases List.mem_cons.1 hv with rfl | hv
      · exact hw
      · exact hrej v hv
    · exact selects_singleton hw

/-! ### Drawing -/

universe u

variable {σ : Type u} [Source σ]

/-- A choice draws exactly one block of words. -/
theorem draw_eq_some_iff {n tries drawn : Nat} {i : Fin n} {s s' : σ} :
    draw n tries s = some (i, drawn, s') ↔
      drawn ≤ tries ∧ Selects i (Source.take drawn s) ∧ s' = Source.drop drawn s := by
  induction tries generalizing s drawn with
  | zero =>
    simp only [draw, reduceCtorEq, false_iff]
    rintro ⟨hle, hsel, -⟩
    rw [Nat.le_zero.1 hle] at hsel
    exact not_selects_nil i hsel
  | succ tries ih =>
    rw [draw]
    cases hw : index? n (Source.next s).1 with
    | some j =>
      constructor
      · intro h
        obtain ⟨rfl, hdrawn, rfl⟩ : j = i ∧ 1 = drawn ∧ (Source.next s).2 = s' := by
          simpa using h
        subst hdrawn
        exact ⟨by omega, selects_singleton hw, rfl⟩
      · rintro ⟨-, hsel, rfl⟩
        cases drawn with
        | zero => exact (not_selects_nil i hsel).elim
        | succ drawn =>
          rcases selects_cons_iff.1 hsel with ⟨hnone, -⟩ | ⟨hsome, hnil⟩
          · rw [hw] at hnone
            cases hnone
          · have hzero : drawn = 0 := by
              have := congrArg List.length hnil
              rwa [Source.length_take] at this
            rw [hw] at hsome
            obtain rfl := Option.some.inj hsome
            rw [hzero]
            rfl
    | none =>
      simp only [Option.map_eq_some_iff, Prod.mk.injEq]
      constructor
      · rintro ⟨⟨j, m, t⟩, hdraw, rfl, rfl, rfl⟩
        obtain ⟨hle, hsel, ht⟩ := ih.1 hdraw
        exact ⟨Nat.succ_le_succ hle, selects_cons_iff.2 (.inl ⟨hw, hsel⟩), ht⟩
      · rintro ⟨hle, hsel, rfl⟩
        cases drawn with
        | zero => exact (not_selects_nil i hsel).elim
        | succ drawn =>
          rcases selects_cons_iff.1 hsel with ⟨-, hrest⟩ | ⟨hsome, -⟩
          · exact ⟨_, ih.2 ⟨by omega, hrest, rfl⟩, rfl, rfl, rfl⟩
          · rw [hw] at hsome
            cases hsome

theorem pick_eq_some_iff {α : Type} {tries drawn : Nat} {alternatives : List α} {a : α}
    {s s' : σ} :
    pick tries alternatives s = some (a, drawn, s') ↔
      ∃ i : Fin alternatives.length, alternatives.get i = a ∧ drawn ≤ tries ∧
        Selects i (Source.take drawn s) ∧ s' = Source.drop drawn s := by
  simp only [pick, Option.map_eq_some_iff, Prod.mk.injEq]
  constructor
  · rintro ⟨⟨i, m, t⟩, hdraw, ha, rfl, rfl⟩
    exact ⟨i, ha, draw_eq_some_iff.1 hdraw⟩
  · rintro ⟨i, ha, h⟩
    exact ⟨(i, drawn, s'), draw_eq_some_iff.2 h, ha, rfl, rfl⟩

theorem pos_of_pick {α : Type} {tries drawn : Nat} {alternatives : List α} {a : α} {s s' : σ}
    (h : pick tries alternatives s = some (a, drawn, s')) : 0 < drawn := by
  obtain ⟨i, -, -, hselects, -⟩ := pick_eq_some_iff.1 h
  cases drawn with
  | zero => exact (not_selects_nil i hselects).elim
  | succ drawn => exact Nat.succ_pos drawn

theorem pick_mono {α : Type} {m n : Nat} (hmn : m ≤ n) {alternatives : List α} {s : σ}
    {r : α × Nat × σ} (h : pick m alternatives s = some r) : pick n alternatives s = some r := by
  obtain ⟨a, drawn, s'⟩ := r
  obtain ⟨i, hi, hdrawn, hselects⟩ := pick_eq_some_iff.1 h
  exact pick_eq_some_iff.2 ⟨i, hi, Nat.le_trans hdrawn hmn, hselects⟩

/-! ### Choosing from a tape -/

theorem index?_zero {n : Nat} (hn : 0 < n) : index? n 0 = some ⟨0, hn⟩ := by
  rw [index?_eq_some_iff]
  simp

theorem draw_ne_none_of_tape {n tries : Nat} (hn : 0 < n) {ws : List UInt32}
    (h : ws.length < tries) : draw n tries (⟨ws⟩ : Tape) ≠ none := by
  induction ws generalizing tries with
  | nil =>
    cases tries with
    | zero => cases h
    | succ tries => simp [draw, Source.next, index?_zero hn]
  | cons w ws ih =>
    cases tries with
    | zero => cases h
    | succ tries =>
      have hrest := ih (Nat.lt_of_succ_lt_succ h)
      rw [draw]
      cases hw : index? n w with
      | some i => simp [Source.next]
      | none => simpa [Source.next, hw] using hrest

theorem pick_ne_none_of_tape {α : Type} {tries : Nat} {alternatives : List α}
    (hne : alternatives ≠ []) {s : Tape} (h : s.words.length < tries) :
    pick tries alternatives s ≠ none := by
  have hdraw := draw_ne_none_of_tape (List.length_pos_iff.2 hne) h
  simpa [pick] using hdraw

theorem eq_of_pick_exhausted {α : Type} {tries drawn : Nat} {a p : α} {alternatives : List α}
    {s' : Tape} (h : pick tries (a :: alternatives) (⟨[]⟩ : Tape) = some (p, drawn, s')) :
    p = a := by
  obtain ⟨r, hdraw, hr⟩ := Option.map_eq_some_iff.1 h
  cases tries with
  | zero => cases hdraw
  | succ tries =>
    have hfirst := index?_zero (Nat.succ_pos alternatives.length)
    simp [draw, Source.next, hfirst] at hdraw
    rw [← hdraw] at hr
    exact (congrArg Prod.fst hr).symm

/-! ### Every number has a word -/

theorem le_zone (n : Nat) : n - 1 ≤ zone n :=
  Nat.sub_le_sub_right Nat.le_shiftLeft 1

theorem exists_mul_between {n i size : Nat} (hi : i < n) (hn : n ≤ size) :
    ∃ v < size, i * size ≤ v * n ∧ v * n < i * size + n := by
  have hpos : 0 < n := by omega
  obtain ⟨reach, hreach⟩ : ∃ reach, reach = i * size + (n - 1) := ⟨_, rfl⟩
  have hsplit : reach / n * n + reach % n = reach := by
    rw [Nat.mul_comm]
    exact Nat.div_add_mod reach n
  have hrem : reach % n < n := Nat.mod_lt reach hpos
  refine ⟨reach / n, ?_, by omega, by omega⟩
  have hrange : (i + 1) * size ≤ n * size := Nat.mul_le_mul_right size hi
  rw [Nat.succ_mul] at hrange
  refine Nat.lt_of_mul_lt_mul_right (a := n) ?_
  rw [Nat.mul_comm size n]
  omega

theorem exists_index?_eq_some {n : Nat} (hn : n < UInt32.size) (i : Fin n) :
    ∃ w, index? n w = some i := by
  obtain ⟨v, hv, hlow, hhigh⟩ := exists_mul_between i.isLt (Nat.le_of_lt hn)
  have hzone := le_zone n
  have hword : (UInt32.ofNat v).toNat = v := UInt32.toNat_ofNat_of_lt hv
  have hsize : v * n < (i.val + 1) * UInt32.size := by
    rw [Nat.succ_mul]
    omega
  have hdiv : v * n / UInt32.size = i.val := Nat.div_eq_of_lt_le hlow hsize
  have hmod : v * n % UInt32.size = v * n - i.val * UInt32.size := by
    rw [Nat.mod_eq_sub_mul_div, hdiv, Nat.mul_comm UInt32.size]
  refine ⟨UInt32.ofNat v, index?_eq_some_iff.2 ?_⟩
  rw [hword]
  exact ⟨by omega, hdiv⟩

end BnfSentences.Choice
