import BnfSentences.Proofs.Text.Words

/-!
# Words as maximal runs

The words of a text are its maximal runs of characters other than space and tab, in order:
`words_eq_append_iff`. A text that has no gap at its ends is its words with gaps between them,
and splitting it at the gaps leaves no empty piece: `inRow_splitRuns`.
-/

namespace BnfSentences.Text

/-! ### Words in a row -/

structure IsWord (w : Text) : Prop where
  ne_nil : w ≠ []
  no_gap : ∀ c ∈ w, ¬ isGap c

/-- The text is made of these words. Between each two of them is a gap of spaces and tabs, and
there is nothing else. -/
inductive InRow : Text → List Text → Prop where
  | nothing : InRow [] []
  | last {w : Text} (word : IsWord w) : InRow w [w]
  | next {w gap s v : Text} {ws : List Text} (word : IsWord w) (gap_ne_nil : gap ≠ [])
      (all_gap : ∀ c ∈ gap, isGap c) (others : InRow s (v :: ws)) :
      InRow (w ++ gap ++ s) (w :: v :: ws)

theorem InRow.words_eq {s : Text} {ws : List Text} (h : InRow s ws) : words s = ws := by
  induction h with
  | nothing => exact words_nil
  | last word => exact words_eq_singleton word.ne_nil word.no_gap
  | next word hne hgap _ ih =>
    rw [words_append_run hne hgap, words_eq_singleton word.ne_nil word.no_gap, ih]
    rfl

theorem flatten_words (s : Text) : (words s).flatten = s.filter (!isGap ·) := by
  have hkept : ∀ u : Text, (∀ c ∈ u, ¬ isGap c) → (words u).flatten = u.filter (!isGap ·) := by
    intro u hu
    have hall : u.filter (!isGap ·) = u := List.filter_eq_self.2 fun c hc => by simpa using hu c hc
    cases u with
    | nil => simp
    | cons c u => rw [words_eq_singleton (List.cons_ne_nil c u) hu, hall, List.flatten_singleton]
  induction s using firstSeparator_induction isGap with
  | whole s hs => exact hkept s hs
  | part u x t hu hx ih =>
    rw [words_append_gap hx, List.flatten_append, hkept u hu, ih, List.filter_append,
      List.filter_cons_of_neg (by simp [hx])]

/-! ### Splitting at runs of gaps -/

/-- The pieces of a text before, between and after the maximal runs of gaps in it. A run at an
end of the text has an empty piece beside it. -/
def splitRuns (s : Text) : List Text :=
  match _h : s.dropWhile (!isGap ·) with
  | [] => [s]
  | _ :: rest => s.takeWhile (!isGap ·) :: splitRuns (rest.dropWhile isGap)
termination_by s.length
decreasing_by
  have hdrop := (List.dropWhile_sublist (!isGap ·) (l := s)).length_le
  have hrest := (List.dropWhile_sublist isGap (l := rest)).length_le
  rw [_h, List.length_cons] at hdrop
  omega

theorem splitRuns_ne_nil (s : Text) : splitRuns s ≠ [] := by
  unfold splitRuns
  split <;> exact List.cons_ne_nil _ _

theorem not_of_mem_head?_dropWhile {p : Char → Bool} {s : Text} {c : Char}
    (h : c ∈ (s.dropWhile p).head?) : ¬ p c := by
  have hnot := List.head?_dropWhile_not p s
  rw [Option.mem_def.1 h] at hnot
  simp [hnot]

theorem isWord_takeWhile {s : Text} (hne : s ≠ []) (hfirst : ∀ c ∈ s.head?, ¬ isGap c) :
    IsWord (s.takeWhile (!isGap ·)) := by
  constructor
  · obtain ⟨c, s, rfl⟩ := List.exists_cons_of_ne_nil hne
    have hc : (!isGap c) = true := by simpa using hfirst c rfl
    rw [List.takeWhile_cons, if_pos hc]
    exact List.cons_ne_nil _ _
  · intro c hc
    simpa using List.all_eq_true.1 List.all_takeWhile c hc

theorem dropWhile_ne_nil {s before rest : Text} (hlast : ∀ c ∈ s.getLast?, ¬ isGap c) {x : Char}
    (hx : isGap x) (hs : s = before ++ x :: rest) : rest.dropWhile isGap ≠ [] := by
  intro hnil
  have hgaps : ∀ c ∈ x :: rest, isGap c :=
    List.forall_mem_cons.2 ⟨hx, List.all_eq_true.1 (dropWhile_eq_nil.1 hnil)⟩
  have hend := List.getLast?_eq_some_getLast (List.cons_ne_nil x rest)
  rw [hs, List.getLast?_append, hend] at hlast
  exact hlast _ rfl (hgaps _ (List.getLast_mem _))

theorem inRow_splitRuns {s : Text} (hne : s ≠ []) (hfirst : ∀ c ∈ s.head?, ¬ isGap c)
    (hlast : ∀ c ∈ s.getLast?, ¬ isGap c) : InRow s (splitRuns s) := by
  fun_induction splitRuns s with
  | case1 s hdrop =>
    refine .last ⟨hne, ?_⟩
    simpa using dropWhile_eq_nil.1 hdrop
  | case2 s x rest hdrop ih =>
    have hword := isWord_takeWhile hne hfirst
    have hx : isGap x := by
      have hnot := not_of_mem_head?_dropWhile (p := (!isGap ·)) (s := s) (by rw [hdrop]; rfl)
      simpa using hnot
    have hgaps : ∀ c ∈ x :: rest.takeWhile isGap, isGap c :=
      List.forall_mem_cons.2 ⟨hx, List.all_eq_true.1 List.all_takeWhile⟩
    have hsplit : s = s.takeWhile (!isGap ·) ++ (x :: rest.takeWhile isGap) ++
        rest.dropWhile isGap := by
      simp [← hdrop]
    -- What is behind the gap is not empty, so it ends where the whole text does.
    have hne' : rest.dropWhile isGap ≠ [] :=
      dropWhile_ne_nil hlast hx (by rw [← hdrop, List.takeWhile_append_dropWhile])
    have hlast' : ∀ c ∈ (rest.dropWhile isGap).getLast?, ¬ isGap c := by
      intro c hc
      apply hlast c
      rw [hsplit, List.getLast?_append, Option.mem_def.1 hc]
      rfl
    have hothers := ih hne' (fun c hc => not_of_mem_head?_dropWhile hc) hlast'
    obtain ⟨v, ws, hvs⟩ := List.exists_cons_of_ne_nil (splitRuns_ne_nil (rest.dropWhile isGap))
    rw [hvs] at hothers ⊢
    have hrow := InRow.next hword (List.cons_ne_nil x _) hgaps hothers
    rwa [← hsplit] at hrow

/-! ### Maximal runs -/

/-- A run of characters other than space and tab that a text has between these two parts, with
nothing but a gap or an end of the text beside it. -/
structure MaximalRun (s before run after : Text) : Prop where
  here : s = before ++ run ++ after
  word : IsWord run
  starts : ∀ c ∈ before.getLast?, isGap c
  ends : ∀ c ∈ after.head?, isGap c

theorem words_append_of_getLast? {s : Text} (h : ∀ c ∈ s.getLast?, isGap c) (t : Text) :
    words (s ++ t) = words s ++ words t := by
  rcases List.eq_nil_or_concat s with rfl | ⟨u, x, rfl⟩
  · rw [words_nil, List.nil_append, List.nil_append]
  · have hx : isGap x := h x (by simp)
    rw [List.concat_eq_append, List.append_assoc, List.singleton_append, words_append_gap hx,
      words_append_gap hx, words_nil, List.append_nil]

theorem words_append_of_head? {t : Text} (h : ∀ c ∈ t.head?, isGap c) (s : Text) :
    words (s ++ t) = words s ++ words t := by
  cases t with
  | nil => rw [words_nil, List.append_nil, List.append_nil]
  | cons x t =>
    have hx : isGap x := h x rfl
    rw [words_append_gap hx, words_cons_gap hx]

theorem MaximalRun.words_eq {s before run after : Text} (h : MaximalRun s before run after) :
    words s = words before ++ run :: words after := by
  rw [h.here, words_append_of_head? h.ends, words_append_of_getLast? h.starts,
    words_eq_singleton h.word.ne_nil h.word.no_gap, List.append_assoc, List.singleton_append]

theorem MaximalRun.behind_gap {t before run after : Text} (h : MaximalRun t before run after)
    {x : Char} (hx : isGap x) (u : Text) :
    MaximalRun (u ++ x :: t) (u ++ x :: before) run after := by
  refine ⟨by simp [h.here], h.word, ?_, h.ends⟩
  intro c hc
  rw [List.getLast?_append, List.getLast?_cons, Option.some_or, Option.mem_some] at hc
  cases hlast : before.getLast? with
  | none =>
    rw [hlast] at hc
    exact hc ▸ hx
  | some d =>
    rw [hlast] at hc
    exact hc ▸ h.starts d hlast

theorem exists_maximalRun {s run : Text} {ws vs : List Text} (h : words s = ws ++ run :: vs) :
    ∃ before after, MaximalRun s before run after ∧ words before = ws ∧ words after = vs := by
  induction s using firstSeparator_induction isGap generalizing ws with
  | whole s hs =>
    cases s with
    | nil => simp at h
    | cons c s =>
      rw [words_eq_singleton (List.cons_ne_nil c s) hs] at h
      cases ws with
      | nil =>
        obtain ⟨rfl, rfl⟩ := List.cons.inj h
        exact ⟨[], [], ⟨by simp, ⟨List.cons_ne_nil c s, hs⟩, by simp, by simp⟩, by simp, by simp⟩
      | cons w ws => simp at h
  | part u x t hu hx ih =>
    have hbehind : ∀ {ws}, words t = ws ++ run :: vs →
        ∃ before after, MaximalRun (u ++ x :: t) before run after ∧
          words before = words u ++ ws ∧ words after = vs := by
      intro ws ht
      obtain ⟨before, after, hrun, hbefore, hafter⟩ := ih ht
      exact ⟨_, after, hrun.behind_gap hx u, by rw [words_append_gap hx, hbefore], hafter⟩
    rw [words_append_gap hx] at h
    -- The run is the text in front of the first gap, or it is behind that.
    cases u with
    | nil => simpa using hbehind (by simpa using h)
    | cons c u =>
      have hne := List.cons_ne_nil c u
      rw [words_eq_singleton hne hu] at h hbehind
      cases ws with
      | nil =>
        obtain ⟨rfl, rfl⟩ := List.cons.inj h
        exact ⟨[], x :: t, ⟨by simp, ⟨hne, hu⟩, by simp, by simp [hx]⟩, words_nil,
          words_cons_gap hx t⟩
      | cons w ws =>
        obtain ⟨rfl, ht⟩ := List.cons.inj h
        exact hbehind ht

end BnfSentences.Text
