import BnfSentences.Proofs.Text.Trimming

/-!
# Words of a text

Words are cut at every space and tab: `words_append_gap` is the equation behind
the rest. `words_intercalate` reads words back that were joined by spaces.
-/

namespace BnfSentences.Text

/-! ### Pieces between separators -/

/-- A text has no separator, or a first one and a text after that. -/
@[elab_as_elim]
theorem firstSeparator_induction {α : Type} (p : α → Bool) {motive : List α → Prop}
    (whole : ∀ s, (∀ c ∈ s, ¬ p c) → motive s)
    (part : ∀ u x t, (∀ c ∈ u, ¬ p c) → p x → motive t → motive (u ++ x :: t))
    (s : List α) : motive s := by
  cases hf : s.find? p with
  | none =>
    exact whole s (List.find?_eq_none.1 hf)
  | some x =>
    obtain ⟨hx, u, t, hs, hu⟩ := List.find?_eq_some_iff_append.1 hf
    rw [hs]
    exact part u x t (fun c hc => by simpa using hu c hc) hx
      (firstSeparator_induction p whole part t)
termination_by s.length
decreasing_by rw [hs, List.length_append, List.length_cons]; omega

theorem mem_splitOnP {p : Char → Bool} {s piece : Text} (h : piece ∈ s.splitOnP p) :
    piece <:+: s ∧ ∀ c ∈ piece, ¬ p c := by
  induction s using firstSeparator_induction p with
  | whole s hs =>
    rw [List.splitOnP_eq_singleton fun c hc => by simpa using hs c hc, List.mem_singleton] at h
    subst h
    exact ⟨List.infix_rfl, hs⟩
  | part u x t hu hx ih =>
    rw [List.splitOnP_append_cons_of_forall_mem (fun c hc => by simpa using hu c hc) x hx,
      List.mem_cons] at h
    rcases h with rfl | h
    · exact ⟨List.infix_append_left, hu⟩
    · obtain ⟨hin, hno⟩ := ih h
      exact ⟨List.infix_append_of_infix_right (List.infix_cons_iff.2 (.inr hin)), hno⟩

theorem mem_splitOn {x : Char} {s piece : Text} (h : piece ∈ s.splitOn x) :
    piece <:+: s ∧ x ∉ piece := by
  rw [List.splitOn_eq_splitOnP] at h
  obtain ⟨hin, hno⟩ := mem_splitOnP h
  exact ⟨hin, fun hx => hno x hx (beq_self_eq_true x)⟩

theorem length_splitOn (x : Char) (s : Text) : (s.splitOn x).length = s.count x + 1 := by
  induction s using firstSeparator_induction (· == x) with
  | whole s hs =>
    have hx : x ∉ s := fun hx => hs x hx (beq_self_eq_true x)
    rw [List.splitOn_eq_singleton hx, List.count_eq_zero_of_not_mem hx]
    rfl
  | part u y t hu hy ih =>
    obtain rfl := beq_iff_eq.1 hy
    have hu' : y ∉ u := fun hx => hu y hx (beq_self_eq_true y)
    rw [List.splitOn_append_cons_self_of_not_mem hu', List.length_cons, ih, List.count_append,
      List.count_eq_zero_of_not_mem hu', List.count_cons_self, Nat.zero_add]

/-! ### Pieces joined -/

theorem mem_intercalate {sep : Text} {ws : List Text} {c : Char} (h : c ∈ sep.intercalate ws) :
    c ∈ sep ∨ ∃ w ∈ ws, c ∈ w := by
  induction ws with
  | nil => cases h
  | cons w ws ih =>
    cases ws with
    | nil =>
      rw [List.intercalate_singleton] at h
      exact .inr ⟨w, List.mem_cons_self, h⟩
    | cons v ws =>
      rw [List.intercalate_cons_cons, List.mem_append, List.mem_append] at h
      rcases h with (h | h) | h
      · exact .inr ⟨w, List.mem_cons_self, h⟩
      · exact .inl h
      · rcases ih h with h | ⟨u, hu, h⟩
        · exact .inl h
        · exact .inr ⟨u, List.mem_cons_of_mem w hu, h⟩

theorem head?_intercalate {sep w : Text} {ws : List Text} (hw : w ≠ []) :
    (sep.intercalate (w :: ws)).head? = w.head? := by
  obtain ⟨c, w, rfl⟩ := List.exists_cons_of_ne_nil hw
  cases ws with
  | nil => rw [List.intercalate_singleton]
  | cons v ws => rw [List.intercalate_cons_cons]; rfl

theorem getLast?_intercalate {sep w : Text} {ws : List Text} (hw : w ≠ [])
    (h : w ∈ ws.getLast?) : (sep.intercalate ws).getLast? = w.getLast? := by
  induction ws with
  | nil => cases h
  | cons v ws ih =>
    cases ws with
    | nil =>
      rw [List.intercalate_singleton, ← Option.mem_some.1 h]
      rfl
    | cons u ws =>
      rw [List.getLast?_cons_cons] at h
      have hlast := ih h
      rw [List.intercalate_cons_cons, List.getLast?_append, hlast]
      cases hc : w.getLast? with
      | none => exact absurd (List.getLast?_eq_none_iff.1 hc) hw
      | some c => rfl

theorem getLast?_append_ne {s t : Text} {c : Char} (hs : s.getLast? ≠ some c)
    (ht : t.getLast? ≠ some c) : (s ++ t).getLast? ≠ some c := by
  rw [List.getLast?_append]
  cases hlast : t.getLast? with
  | none => exact hs
  | some d =>
    rw [hlast] at ht
    exact ht

theorem getLast?_intercalate_ne {sep : Text} {ws : List Text} {c : Char}
    (hsep : sep.getLast? ≠ some c) (h : ∀ w ∈ ws, w.getLast? ≠ some c) :
    (sep.intercalate ws).getLast? ≠ some c := by
  induction ws with
  | nil =>
    intro hc
    cases hc
  | cons w ws ih =>
    have hw := h w List.mem_cons_self
    cases ws with
    | nil => rwa [List.intercalate_singleton]
    | cons v ws =>
      have hrest := ih fun u hu => h u (List.mem_cons_of_mem w hu)
      rw [List.intercalate_cons_cons]
      exact getLast?_append_ne (getLast?_append_ne hw hsep) hrest

theorem isTrimmed_intercalate {sep : Text} {ws : List Text} (hne : ∀ w ∈ ws, w ≠ [])
    (hfirst : ∀ w ∈ ws.head?, ∀ c ∈ w.head?, ¬ isWhite c)
    (hlast : ∀ w ∈ ws.getLast?, ∀ c ∈ w.getLast?, ¬ isWhite c) :
    IsTrimmed (sep.intercalate ws) := by
  rw [isTrimmed_iff]
  constructor
  · intro c hc
    cases ws with
    | nil => cases hc
    | cons w ws =>
      rw [head?_intercalate (hne w List.mem_cons_self)] at hc
      exact hfirst w rfl c hc
  · intro c hc
    cases hw : ws.getLast? with
    | none =>
      rw [List.getLast?_eq_none_iff.1 hw] at hc
      cases hc
    | some w =>
      rw [getLast?_intercalate (hne w (List.mem_of_getLast? hw)) hw] at hc
      exact hlast w hw c hc

/-! ### Words -/

@[simp] theorem words_nil : words [] = [] := by
  simp [words]

theorem words_append_gap {x : Char} (hx : isGap x) (s t : Text) :
    words (s ++ x :: t) = words s ++ words t := by
  rw [words, List.splitOnP_append_cons s t hx, List.filter_append]
  rfl

theorem words_cons_gap {x : Char} (hx : isGap x) (t : Text) : words (x :: t) = words t := by
  simpa using words_append_gap hx [] t

theorem words_gap_append {gap : Text} (hgap : ∀ c ∈ gap, isGap c) (t : Text) :
    words (gap ++ t) = words t := by
  induction gap with
  | nil => rfl
  | cons x gap ih =>
    obtain ⟨hx, hrest⟩ := List.forall_mem_cons.1 hgap
    rw [List.cons_append, words_cons_gap hx, ih hrest]

theorem words_append_run {gap : Text} (hne : gap ≠ []) (hgap : ∀ c ∈ gap, isGap c) (s t : Text) :
    words (s ++ gap ++ t) = words s ++ words t := by
  obtain ⟨x, gap, rfl⟩ := List.exists_cons_of_ne_nil hne
  obtain ⟨hx, hrest⟩ := List.forall_mem_cons.1 hgap
  rw [List.append_assoc, List.cons_append, words_append_gap hx, words_gap_append hrest]

theorem words_eq_singleton {s : Text} (hne : s ≠ []) (h : ∀ c ∈ s, ¬ isGap c) :
    words s = [s] := by
  rw [words, List.splitOnP_eq_singleton fun c hc => by simpa using h c hc]
  simp [hne]

theorem mem_words {s w : Text} (h : w ∈ words s) :
    w ≠ [] ∧ w <:+: s ∧ ∀ c ∈ w, ¬ isGap c := by
  obtain ⟨hw, hne⟩ := List.mem_filter.1 h
  exact ⟨by simpa using hne, mem_splitOnP hw⟩

theorem words_eq_nil_iff {s : Text} : words s = [] ↔ ∀ c ∈ s, isGap c := by
  induction s using firstSeparator_induction isGap with
  | whole s hs =>
    cases s with
    | nil => simp
    | cons c s =>
      rw [words_eq_singleton (List.cons_ne_nil c s) hs]
      have hc := hs c List.mem_cons_self
      simp [hc]
  | part u x t hu hx ih =>
    rw [words_append_gap hx, List.append_eq_nil_iff, ih]
    cases u with
    | nil => simp [hx]
    | cons c u =>
      rw [words_eq_singleton (List.cons_ne_nil c u) hu]
      have hc := hu c List.mem_cons_self
      simp [hc]

theorem words_intercalate {ws : List Text}
    (h : ∀ w ∈ ws, w ≠ [] ∧ ∀ c ∈ w, ¬ isGap c) : words ([' '].intercalate ws) = ws := by
  induction ws with
  | nil => simp
  | cons w ws ih =>
    have hw := h w List.mem_cons_self
    have hws := ih fun v hv => h v (List.mem_cons_of_mem w hv)
    cases ws with
    | nil => rw [List.intercalate_singleton, words_eq_singleton hw.1 hw.2]
    | cons v ws =>
      rw [List.intercalate_cons_cons, List.append_assoc, List.singleton_append,
        words_append_gap (by decide), hws, words_eq_singleton hw.1 hw.2]
      rfl

/-! ### The ends of a text -/

theorem head?_of_mem_head?_words {s w : Text} (hs : ∀ c ∈ s.head?, ¬ isGap c)
    (h : w ∈ (words s).head?) : w.head? = s.head? := by
  induction s using firstSeparator_induction isGap with
  | whole s hno =>
    cases s with
    | nil => simp at h
    | cons c s =>
      rw [words_eq_singleton (List.cons_ne_nil c s) hno] at h
      rw [Option.mem_some.1 h]
  | part u x t hu hx _ =>
    cases u with
    | nil => exact absurd hx (hs x rfl)
    | cons c u =>
      rw [words_append_gap hx, words_eq_singleton (List.cons_ne_nil c u) hu] at h
      rw [← Option.mem_some.1 h]
      rfl

theorem getLast?_of_mem_getLast?_words {s w : Text} (hs : ∀ c ∈ s.getLast?, ¬ isGap c)
    (h : w ∈ (words s).getLast?) : w.getLast? = s.getLast? := by
  induction s using firstSeparator_induction isGap with
  | whole s hno =>
    cases s with
    | nil => simp at h
    | cons c s =>
      rw [words_eq_singleton (List.cons_ne_nil c s) hno] at h
      obtain rfl := Option.mem_some.1 h
      rfl
  | part u x t _ hx ih =>
    have hlast : ∀ c ∈ (x :: t).getLast?, ¬ isGap c := by
      intro c hc
      exact hs c (by rw [List.getLast?_append, Option.mem_def.1 hc]; rfl)
    cases t with
    | nil => exact absurd hx (hlast x rfl)
    | cons c t =>
      have hend : (u ++ x :: c :: t).getLast? = (c :: t).getLast? := by
        rw [List.getLast?_append, List.getLast?_cons_cons, List.getLast?_cons]
        rfl
      rw [hend]
      refine ih (fun c hc => hlast c hc) ?_
      rw [words_append_gap hx, List.getLast?_append] at h
      -- A text that does not end in a gap has a word.
      cases hw : (words (c :: t)).getLast? with
      | none =>
        have hgap := words_eq_nil_iff.1 (List.getLast?_eq_none_iff.1 hw)
        have hmem := List.getLast_mem (List.cons_ne_nil c t)
        exact absurd (hgap _ hmem)
          (hlast _ (List.getLast?_eq_some_getLast (List.cons_ne_nil c t)))
      | some v =>
        rw [hw] at h
        exact h

end BnfSentences.Text
