import BnfSentences.Proofs.Grammar.Declarations

/-!
# The layout of declarations

Blanks at the ends of a declaration, around its first separator and around the bars behind
that are layout, and so is the length of the gap between two tokens. `parse_of_relaid` says
that a declaration in another layout is the same declaration.
-/

namespace BnfSentences

open Text

/-! ### Gaps between tokens -/

namespace Production

theorem ofText_gap_congr {gap gap' : Text} (hne : gap ≠ []) (hgap : ∀ c ∈ gap, isGap c)
    (hne' : gap' ≠ []) (hgap' : ∀ c ∈ gap', isGap c) (u v : Text) :
    ofText (u ++ gap ++ v) = ofText (u ++ gap' ++ v) := by
  have hblank : isBlank gap := List.all_eq_true.2 fun c hc => isWhite_of_isGap (hgap c hc)
  have hblank' : isBlank gap' := List.all_eq_true.2 fun c hc => isWhite_of_isGap (hgap' c hc)
  unfold ofText
  by_cases hu : isBlank u
  · rw [trim_blank_append (isBlank_append.2 ⟨hu, hblank⟩),
      trim_blank_append (isBlank_append.2 ⟨hu, hblank'⟩)]
  by_cases hv : isBlank v
  · rw [List.append_assoc, List.append_assoc, trim_append_blank (isBlank_append.2 ⟨hblank, hv⟩),
      trim_append_blank (isBlank_append.2 ⟨hblank', hv⟩)]
  -- Both runs stay inside the trimmed text, where they part the same words.
  rw [trim_append_of_not_blank hu hv, trim_append_of_not_blank hu hv,
    words_append_run hne hgap, words_append_run hne' hgap']

end Production

namespace Rule

/-! ### Layouts -/

/-- The second text is the first one with blanks put in before and after bars. -/
inductive SpacedBars : Text → Text → Prop where
  | nil : SpacedBars [] []
  | char (c : Char) {s s' : Text} (rest : SpacedBars s s') : SpacedBars (c :: s) (c :: s')
  | bar {before after s s' : Text} (before_blank : isBlank before) (after_blank : isBlank after)
      (rest : SpacedBars s s') : SpacedBars (bar :: s) (before ++ bar :: (after ++ s'))

/-- The second text is the first one with blanks put in at its two ends and, if a separator
stands in it, before and after the first one and before and after the bars behind that. -/
inductive Relaid : Text → Text → Prop where
  | whole {d before after : Text} (no_separator : ¬ separator <:+: d)
      (before_blank : isBlank before) (after_blank : isBlank after) :
      Relaid d (before ++ d ++ after)
  | parts {d left right right' b₁ a₁ b₂ a₂ : Text} (first : FirstOccurrence separator d left right)
      (bars : SpacedBars right right') (b₁_blank : isBlank b₁) (a₁_blank : isBlank a₁)
      (b₂_blank : isBlank b₂) (a₂_blank : isBlank a₂) :
      Relaid d (b₁ ++ left ++ a₁ ++ separator ++ (b₂ ++ right' ++ a₂))

theorem SpacedBars.refl (s : Text) : SpacedBars s s := by
  induction s with
  | nil => exact .nil
  | cons c s ih => exact .char c ih

theorem relaid_append_blank {after : Text} (h : isBlank after) (d : Text) :
    Relaid d (d ++ after) := by
  cases hcut : cutFirst separator d with
  | none => exact @Relaid.whole d [] after (cutFirst_eq_none_iff.1 hcut) rfl h
  | some cut =>
    obtain ⟨left, right⟩ := cut
    have hfirst := (cutFirst_eq_some_iff_firstOccurrence separator_ne_nil).1 hcut
    have hend : d ++ after = [] ++ left ++ [] ++ separator ++ ([] ++ right ++ after) := by
      rw [hfirst.here]
      simp
    rw [hend]
    exact .parts hfirst (.refl right) rfl rfl rfl h

/-! ### Alternatives in another layout -/

theorem bar_notMem_of_isBlank {s : Text} (h : isBlank s) : bar ∉ s :=
  fun hb => absurd (List.all_eq_true.1 h bar hb) (by decide)

theorem parseAlternatives_padded {before after : Text} (hb : isBlank before) (ha : isBlank after)
    (s : Text) : parseAlternatives (before ++ s ++ after) = parseAlternatives s := by
  have hwhole : ∀ b a u : Text, isBlank b → isBlank a → bar ∉ u →
      parseAlternatives (b ++ u ++ a) = parseAlternatives u := by
    intro b a u hb ha hu
    have hall : bar ∉ b ++ u ++ a := by
      simp [hu, bar_notMem_of_isBlank hb, bar_notMem_of_isBlank ha]
    rw [parseAlternatives_eq_singleton hall, parseAlternatives_eq_singleton hu,
      Production.ofText_append hb ha]
  induction s using firstSeparator_induction (· == bar) generalizing before with
  | whole s hs => exact hwhole before after s hb ha fun hbar => hs bar hbar (beq_self_eq_true bar)
  | part u x t hu hx ih =>
    obtain rfl := beq_iff_eq.1 hx
    have hfirst := hwhole before [] u hb rfl fun hbar => hu bar hbar (beq_self_eq_true bar)
    have hothers := ih isBlank_nil
    rw [List.append_nil] at hfirst
    rw [List.nil_append] at hothers
    have hsplit : before ++ (u ++ bar :: t) ++ after = (before ++ u) ++ bar :: (t ++ after) := by
      simp
    rw [hsplit, parseAlternatives_append_bar, parseAlternatives_append_bar, hfirst, hothers]

theorem parseAlternatives_spacedBars {s s' : Text} (h : SpacedBars s s') :
    parseAlternatives s' = parseAlternatives s := by
  -- The text read so far is carried along, since blanks before a bar are at its end.
  have hbehind : ∀ u, parseAlternatives (u ++ s') = parseAlternatives (u ++ s) := by
    induction h with
    | nil => exact fun u => rfl
    | @char c s s' _ ih =>
      intro u
      have h := ih (u ++ [c])
      rwa [List.append_assoc, List.append_assoc, List.singleton_append,
        List.singleton_append] at h
    | @bar before after s s' hb ha _ ih =>
      intro u
      have hfirst := parseAlternatives_padded isBlank_nil hb u
      have hothers := parseAlternatives_padded ha isBlank_nil s'
      rw [List.nil_append] at hfirst
      rw [List.append_nil] at hothers
      rw [← List.append_assoc, parseAlternatives_append_bar, parseAlternatives_append_bar,
        hfirst, hothers]
      exact congrArg _ (ih [])
  exact hbehind []

/-! ### The first separator in another layout -/

theorem notMem_separator_of_isWhite {c : Char} (h : isWhite c) : c ∉ separator := by
  have hmark : separator.all fun c => !isWhite c := rfl
  intro hc
  have hno := List.all_eq_true.1 hmark c hc
  rw [h] at hno
  cases hno

/-- No blanks that are put in complete a separator. -/
theorem separator_infix_of_insert {blanks : Text} (hblank : isBlank blanks) {s t : Text}
    (h : separator <:+: s ++ blanks ++ t) : separator <:+: s ++ t := by
  induction blanks generalizing s with
  | nil => rwa [List.append_nil] at h
  | cons x blanks ih =>
    obtain ⟨hx, hrest⟩ := List.forall_mem_cons.1 (List.all_eq_true.1 hblank)
    rw [List.append_assoc, List.cons_append,
      infix_append_cons (notMem_separator_of_isWhite hx)] at h
    rcases h with h | h
    · exact List.infix_append_of_infix_left h
    · exact List.infix_append_of_infix_right (ih (s := []) (List.all_eq_true.2 hrest) h)

theorem cutFirst_of_relaid {d left right before after : Text}
    (hfirst : FirstOccurrence separator d left right) (hb : isBlank before) (ha : isBlank after)
    (right' : Text) :
    cutFirst separator (before ++ left ++ after ++ separator ++ right') =
      some (before ++ left ++ after, right') := by
  have hcut := (cutFirst_eq_some_iff_firstOccurrence separator_ne_nil).2 hfirst
  obtain ⟨-, hno⟩ := (cutFirst_eq_some_iff separator_ne_nil).1 hcut
  refine cutFirst_append separator_ne_nil fun hin => hno ?_
  have hleft := separator_infix_of_insert ha hin
  rw [List.append_assoc] at hleft
  exact separator_infix_of_insert (s := []) hb hleft

/-! ### Declarations in another layout -/

theorem parse_of_relaid {d d' : Text} (h : Relaid d d') :
    (∃ r, parse d = .ok r ∧ parse d' = .ok r) ∨
      (parse d = .error (.missingSeparator d) ∧ parse d' = .error (.missingSeparator d')) ∨
      (parse d = .error (.missingName d) ∧ parse d' = .error (.missingName d')) := by
  cases h with
  | @whole before after hno hb ha =>
    have hno' : ¬ separator <:+: before ++ d ++ after := by
      intro hin
      have hfront : separator <:+: before ++ d := by
        have h := separator_infix_of_insert (t := []) ha (by rwa [List.append_nil])
        rwa [List.append_nil] at h
      exact hno (separator_infix_of_insert (s := []) hb hfront)
    have hcut := cutFirst_eq_none_iff.2 hno
    have hcut' := cutFirst_eq_none_iff.2 hno'
    exact .inr (.inl ⟨by rw [parse, hcut], by rw [parse, hcut']⟩)
  | @parts left right right' b₁ a₁ b₂ a₂ hfirst hbars hb₁ ha₁ hb₂ ha₂ =>
    have hcut := (cutFirst_eq_some_iff_firstOccurrence separator_ne_nil).2 hfirst
    have hcut' := cutFirst_of_relaid hfirst hb₁ ha₁ (b₂ ++ right' ++ a₂)
    have hname := trim_append hb₁ ha₁ left
    have hright : parseAlternatives (b₂ ++ right' ++ a₂) = parseAlternatives right :=
      (parseAlternatives_padded hb₂ ha₂ right').trans (parseAlternatives_spacedBars hbars)
    have hblank : isBlank (b₁ ++ left ++ a₁) = isBlank left := by
      rw [Bool.eq_iff_iff, ← trim_eq_nil, ← trim_eq_nil, hname]
    rw [parse_of_cutFirst hcut, parse_of_cutFirst hcut', hname, hright, hblank]
    by_cases hleft : isBlank left
    · rw [if_pos hleft, if_pos hleft]
      exact .inr (.inr ⟨rfl, rfl⟩)
    · rw [if_neg hleft, if_neg hleft]
      exact .inl ⟨_, rfl, rfl⟩

/-- Neither the make-up of a gap nor blanks around a declaration, its separator and its bars have
a part in its rule, or in why it is refused. -/
theorem parse_layout_free :
    (∀ u v gap gap' : Text, gap ≠ [] → (∀ c ∈ gap, isGap c) → gap' ≠ [] →
      (∀ c ∈ gap', isGap c) →
      Production.ofText (u ++ gap ++ v) = Production.ofText (u ++ gap' ++ v)) ∧
    ∀ d d' : Text, Relaid d d' →
      (∃ r, parse d = .ok r ∧ parse d' = .ok r) ∨
        (parse d = .error (.missingSeparator d) ∧ parse d' = .error (.missingSeparator d')) ∨
        (parse d = .error (.missingName d) ∧ parse d' = .error (.missingName d')) := by
  constructor
  · intro u v gap gap' hne hgap hne' hgap'
    exact Production.ofText_gap_congr hne hgap hne' hgap' u v
  · intro d d' h
    exact parse_of_relaid h

/-- White space is a part of a token beside a gap, and layout beside a bar. -/
theorem parse_layout_free_unicode :
    Production.ofText "a\u00A0 \t\u00A0b ".toList = Production.ofText "a\u00A0\t\u00A0b ".toList ∧
      Relaid "a:::=x|y z|".toList "\u2003a:\t::=\nx \u00A0|\ry z\x0c|\u3000".toList ∧
      parse "\u2003a:\t::=\nx \u00A0|\ry z\x0c|\u3000".toList =
        .ok ⟨['a', ':'], [⟨[['x']]⟩, ⟨[['y'], ['z']]⟩, ⟨[]⟩]⟩ := by
  have hfirst : FirstOccurrence separator "a:::=x|y z|".toList ['a', ':'] "x|y z|".toList :=
    (cutFirst_eq_some_iff_firstOccurrence separator_ne_nil).1 rfl
  have hlast : SpacedBars "|".toList "\x0c|".toList := @SpacedBars.bar ['\x0c'] [] _ _ rfl rfl .nil
  have hbars : SpacedBars "x|y z|".toList "x \u00A0|\ry z\x0c|".toList :=
    .char 'x' (@SpacedBars.bar [' ', '\u00A0'] ['\r'] _ _ rfl rfl
      (.char 'y' (.char ' ' (.char 'z' hlast))))
  have hrelaid : Relaid "a:::=x|y z|".toList
      "\u2003a:\t::=\nx \u00A0|\ry z\x0c|\u3000".toList :=
    @Relaid.parts _ _ _ _ ['\u2003'] ['\t'] ['\n'] ['\u3000'] hfirst hbars rfl rfl rfl rfl
  have hdeclares : parse "a:::=x|y z|".toList =
      .ok ⟨['a', ':'], [⟨[['x']]⟩, ⟨[['y'], ['z']]⟩, ⟨[]⟩]⟩ := rfl
  have hgaps := parse_layout_free.1 "a\u00A0".toList "\u00A0b ".toList [' ', '\t'] ['\t']
    (by decide) (by simp [isGap]) (by decide) (by simp [isGap])
  refine ⟨hgaps, hrelaid, ?_⟩
  rcases parse_layout_free.2 _ _ hrelaid with ⟨r, hr, hr'⟩ | ⟨hr, -⟩ | ⟨hr, -⟩
  · rw [hr', ← hr, hdeclares]
  · rw [hdeclares] at hr
    cases hr
  · rw [hdeclares] at hr
    cases hr

end Rule

end BnfSentences
