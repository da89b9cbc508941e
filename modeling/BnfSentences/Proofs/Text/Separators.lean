import BnfSentences.Text.Basic

/-!
# The first separator of a text

`cutFirst` cuts at the first place where a separator occurs.
`cutFirst_eq_some_iff` says where that is, also if occurrences can overlap.
-/

namespace BnfSentences.Text

/-! ### Occurrences -/

theorem infix_append_cons {sep s t : Text} {x : Char} (hx : x ∉ sep) :
    sep <:+: s ++ x :: t ↔ sep <:+: s ∨ sep <:+: t := by
  constructor
  · intro h
    rcases List.infix_append_iff.1 h with hs | ht | ⟨l, r, rfl, hl, hr⟩
    · exact .inl hs
    · rcases List.infix_cons_iff.1 ht with hp | ht
      · cases sep with
        | nil => exact .inl (List.nil_infix)
        | cons y sep =>
          obtain ⟨rfl, -⟩ := List.cons_prefix_cons.1 hp
          exact absurd List.mem_cons_self hx
      · exact .inr ht
    · cases r with
      | nil => exact .inl (by simpa using hl.isInfix)
      | cons y r =>
        obtain ⟨rfl, -⟩ := List.cons_prefix_cons.1 hr
        exact absurd (List.mem_append_right _ List.mem_cons_self) hx
  · rintro (h | h)
    · exact List.infix_append_of_infix_left h
    · exact List.infix_append_of_infix_right (List.infix_cons_iff.2 (.inr h))

theorem not_infix_dropLast {sep : Text} (h : sep ≠ []) : ¬ sep <:+: sep.dropLast := by
  intro hi
  have hlen := hi.length_le
  have hpos := List.length_pos_iff.2 h
  rw [List.length_dropLast] at hlen
  omega

theorem prefix_append_separator (before sep after : Text) :
    before ++ sep.dropLast <+: before ++ sep ++ after := by
  rw [List.append_assoc, List.prefix_append_right_inj]
  exact (List.dropLast_prefix sep).trans (List.prefix_append sep after)

/-! ### Cutting -/

theorem cutFirst_at_start {sep s : Text} (h : sep <+: s) (hne : sep ≠ []) :
    cutFirst sep s = some ([], s.drop sep.length) := by
  cases s with
  | nil => exact absurd (List.prefix_nil.1 h) hne
  | cons c s => rw [cutFirst, if_pos (List.isPrefixOf_iff_prefix.2 h)]

theorem cutFirst_cons {sep s : Text} {c : Char} (h : ¬ sep <+: c :: s) :
    cutFirst sep (c :: s) = (cutFirst sep s).map fun (before, after) => (c :: before, after) := by
  rw [cutFirst, if_neg (fun hp => h (List.isPrefixOf_iff_prefix.1 hp))]

theorem cutFirst_eq_none_iff {sep s : Text} : cutFirst sep s = none ↔ ¬ sep <:+: s := by
  induction s with
  | nil => cases sep <;> simp [cutFirst]
  | cons c s ih =>
    by_cases hp : sep <+: c :: s
    · rw [cutFirst, if_pos (List.isPrefixOf_iff_prefix.2 hp)]
      simp [hp.isInfix]
    · rw [cutFirst_cons hp, Option.map_eq_none_iff, ih, List.infix_cons_iff]
      simp [hp]

theorem not_infix_of_cutFirst {sep s before after : Text} (hne : sep ≠ [])
    (h : cutFirst sep s = some (before, after)) : ¬ sep <:+: before ++ sep.dropLast := by
  induction s generalizing before with
  | nil => cases sep <;> simp_all [cutFirst]
  | cons c s ih =>
    by_cases hp : sep <+: c :: s
    · rw [cutFirst_at_start hp hne, Option.some.injEq, Prod.mk.injEq] at h
      rw [← h.1]
      exact not_infix_dropLast hne
    · rw [cutFirst_cons hp] at h
      obtain ⟨⟨b, a⟩, hcut, heq⟩ := Option.map_eq_some_iff.1 h
      obtain ⟨rfl, rfl⟩ := Prod.mk.inj heq
      rw [List.cons_append, List.infix_cons_iff, not_or]
      refine ⟨fun hpre => hp ?_, ih hcut⟩
      rw [eq_of_cutFirst hcut]
      exact hpre.trans (prefix_append_separator (c :: b) sep a)

theorem cutFirst_append {sep before after : Text} (hne : sep ≠ [])
    (h : ¬ sep <:+: before ++ sep.dropLast) :
    cutFirst sep (before ++ sep ++ after) = some (before, after) := by
  induction before with
  | nil =>
    rw [List.nil_append, cutFirst_at_start (List.prefix_append sep after) hne,
      List.drop_left]
  | cons c before ih =>
    rw [List.cons_append, List.infix_cons_iff, not_or] at h
    have hp : ¬ sep <+: c :: (before ++ sep ++ after) := by
      intro hp
      have hlen : sep.length ≤ (c :: (before ++ sep.dropLast)).length := by
        rw [List.length_cons, List.length_append, List.length_dropLast]
        omega
      -- The separator would occur before its last character is read.
      exact h.1 (List.prefix_of_prefix_length_le hp
        (prefix_append_separator (c :: before) sep after) hlen)
    rw [List.cons_append, List.cons_append, cutFirst_cons hp, ih h.2]
    rfl

theorem cutFirst_eq_some_iff {sep s before after : Text} (hne : sep ≠ []) :
    cutFirst sep s = some (before, after) ↔
      s = before ++ sep ++ after ∧ ¬ sep <:+: before ++ sep.dropLast := by
  constructor
  · intro h
    exact ⟨eq_of_cutFirst h, not_infix_of_cutFirst hne h⟩
  · rintro ⟨rfl, h⟩
    exact cutFirst_append hne h

/-! ### The first place -/

/-- The separator stands between these two parts of a text, and at no earlier place. -/
structure FirstOccurrence (sep s before after : Text) : Prop where
  here : s = before ++ sep ++ after
  first : ∀ b a, s = b ++ sep ++ a → before.length ≤ b.length

theorem length_le_of_cutFirst {sep s before after b a : Text} (hne : sep ≠ [])
    (h : cutFirst sep s = some (before, after)) (hs : s = b ++ sep ++ a) :
    before.length ≤ b.length := by
  obtain ⟨hbefore, hno⟩ := (cutFirst_eq_some_iff hne).1 h
  apply Nat.le_of_not_lt
  intro hlt
  -- An earlier occurrence would end within the separator at the latest.
  have hpos := List.length_pos_iff.2 hne
  have hlength : (b ++ sep).length ≤ (before ++ sep.dropLast).length := by
    rw [List.length_append, List.length_append, List.length_dropLast]
    omega
  have hearlier : b ++ sep <+: s := by
    rw [hs]
    exact List.prefix_append _ a
  have hpart : before ++ sep.dropLast <+: s := by
    rw [hbefore]
    exact prefix_append_separator before sep after
  have hwithin := List.prefix_of_prefix_length_le hearlier hpart hlength
  exact hno ((List.suffix_append b sep).isInfix.trans hwithin.isInfix)

theorem cutFirst_eq_some_iff_firstOccurrence {sep s before after : Text} (hne : sep ≠ []) :
    cutFirst sep s = some (before, after) ↔ FirstOccurrence sep s before after := by
  constructor
  · intro h
    exact ⟨eq_of_cutFirst h, fun b a hs => length_le_of_cutFirst hne h hs⟩
  · rintro ⟨hs, hfirst⟩
    cases hcut : cutFirst sep s with
    | none =>
      have hin : sep <:+: s := ⟨before, after, hs.symm⟩
      exact absurd hin (cutFirst_eq_none_iff.1 hcut)
    | some cut =>
      obtain ⟨b, a⟩ := cut
      have hcut' := eq_of_cutFirst hcut
      have hlength : before.length = b.length :=
        Nat.le_antisymm (hfirst b a hcut') (length_le_of_cutFirst hne hcut hs)
      rw [hs, List.append_assoc, List.append_assoc] at hcut'
      obtain ⟨rfl, hrest⟩ := List.append_inj hcut' hlength
      rw [List.append_cancel_left hrest]

end BnfSentences.Text
