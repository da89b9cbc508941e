import BnfSentences.Text.Blank

/-!
# Trimmed texts

`isTrimmed_iff` says which texts trimming leaves alone, and `trim_spec` that it
takes nothing but blanks from the ends of any other.
-/

namespace BnfSentences.Text

/-! ### Blanks -/

theorem isBlank_nil : isBlank [] :=
  rfl

theorem isBlank_append {s t : Text} : isBlank (s ++ t) ↔ isBlank s ∧ isBlank t := by
  rw [isBlank, List.all_append, Bool.and_eq_true]
  rfl

theorem isBlank_reverse {s : Text} : isBlank s.reverse = isBlank s :=
  List.all_reverse

/-! ### One end -/

theorem trimLeft_append {before : Text} (h : isBlank before) (s : Text) :
    trimLeft (before ++ s) = trimLeft s :=
  List.dropWhile_append_of_pos (List.all_eq_true.1 h)

theorem trimRight_append {after : Text} (h : isBlank after) (s : Text) :
    trimRight (s ++ after) = trimRight s := by
  have hr : isBlank after.reverse := by rwa [isBlank_reverse]
  rw [trimRight, List.reverse_append]
  exact congrArg List.reverse (trimLeft_append hr s.reverse)

theorem trimLeft_append_of_not_blank {s : Text} (h : ¬ isBlank s) (t : Text) :
    trimLeft (s ++ t) = trimLeft s ++ t := by
  have hne : ¬ (s.dropWhile isWhite).isEmpty := by
    rw [List.isEmpty_iff, dropWhile_eq_nil]
    exact h
  rw [trimLeft, List.dropWhile_append, if_neg hne]
  rfl

theorem trimRight_append_of_not_blank {t : Text} (h : ¬ isBlank t) (s : Text) :
    trimRight (s ++ t) = s ++ trimRight t := by
  have hr : ¬ isBlank t.reverse := by rwa [isBlank_reverse]
  have hleft := congrArg List.reverse (trimLeft_append_of_not_blank hr s.reverse)
  rw [List.reverse_append, List.reverse_reverse, ← List.reverse_append] at hleft
  exact hleft

theorem trimLeft_spec (s : Text) : ∃ before, isBlank before ∧ s = before ++ trimLeft s :=
  ⟨s.takeWhile isWhite, List.all_takeWhile, List.takeWhile_append_dropWhile.symm⟩

theorem trimRight_spec (s : Text) : ∃ after, isBlank after ∧ s = trimRight s ++ after := by
  obtain ⟨before, hb, hs⟩ := trimLeft_spec s.reverse
  refine ⟨before.reverse, by rwa [isBlank_reverse], ?_⟩
  have h := congrArg List.reverse hs
  rwa [List.reverse_reverse, List.reverse_append] at h

theorem head?_trimLeft (s : Text) : ∀ c ∈ (trimLeft s).head?, ¬ isWhite c := by
  intro c hc
  have h := List.head?_dropWhile_not isWhite s
  rw [show (s.dropWhile isWhite).head? = some c from hc] at h
  exact Bool.not_eq_true _ ▸ h

theorem getLast?_trimRight (s : Text) : ∀ c ∈ (trimRight s).getLast?, ¬ isWhite c := by
  rw [trimRight, List.getLast?_reverse]
  exact head?_trimLeft s.reverse

theorem trimLeft_eq_self {s : Text} (h : ∀ c ∈ s.head?, ¬ isWhite c) : trimLeft s = s := by
  cases s with
  | nil => rfl
  | cons c s => exact List.dropWhile_cons_of_neg (h c rfl)

theorem trimRight_eq_self {s : Text} (h : ∀ c ∈ s.getLast?, ¬ isWhite c) : trimRight s = s := by
  have hr : trimLeft s.reverse = s.reverse := by
    apply trimLeft_eq_self
    rwa [List.head?_reverse]
  rw [trimRight, show s.reverse.dropWhile isWhite = s.reverse from hr, List.reverse_reverse]

/-! ### Both ends -/

theorem trim_spec (s : Text) :
    ∃ before after, isBlank before ∧ isBlank after ∧ s = before ++ trim s ++ after := by
  obtain ⟨before, hb, hleft⟩ := trimLeft_spec s
  obtain ⟨after, ha, hright⟩ := trimRight_spec (trimLeft s)
  refine ⟨before, after, hb, ha, ?_⟩
  rw [List.append_assoc, show trim s = trimRight (trimLeft s) from rfl, ← hright, ← hleft]

theorem isInfix_trim (s : Text) : trim s <:+: s := by
  obtain ⟨before, after, -, -, hs⟩ := trim_spec s
  exact ⟨before, after, hs.symm⟩

theorem head?_trim (s : Text) : ∀ c ∈ (trim s).head?, ¬ isWhite c := by
  intro c hc
  obtain ⟨after, -, hright⟩ := trimRight_spec (trimLeft s)
  refine head?_trimLeft s c ?_
  rw [hright, List.head?_append]
  exact Option.mem_def.2 (by rw [show (trimRight (trimLeft s)).head? = some c from hc]; rfl)

theorem getLast?_trim (s : Text) : ∀ c ∈ (trim s).getLast?, ¬ isWhite c :=
  getLast?_trimRight (trimLeft s)

theorem trim_eq_self {s : Text} (hh : ∀ c ∈ s.head?, ¬ isWhite c)
    (hl : ∀ c ∈ s.getLast?, ¬ isWhite c) : trim s = s := by
  rw [trim, trimLeft_eq_self hh, trimRight_eq_self hl]

theorem isTrimmed_iff {s : Text} :
    IsTrimmed s ↔ (∀ c ∈ s.head?, ¬ isWhite c) ∧ ∀ c ∈ s.getLast?, ¬ isWhite c := by
  constructor
  · intro h
    rw [← show trim s = s from h]
    exact ⟨head?_trim s, getLast?_trim s⟩
  · rintro ⟨hh, hl⟩
    exact trim_eq_self hh hl

theorem isTrimmed_trim (s : Text) : IsTrimmed (trim s) :=
  trim_eq_self (head?_trim s) (getLast?_trim s)

theorem trim_append {before after : Text} (hb : isBlank before) (ha : isBlank after) (s : Text) :
    trim (before ++ s ++ after) = trim s := by
  rw [trim, List.append_assoc, trimLeft_append hb]
  by_cases hs : isBlank s
  · rw [trimLeft, dropWhile_eq_nil.2 (isBlank_append.2 ⟨hs, ha⟩), trim_eq_nil.2 hs]
    rfl
  · rw [trimLeft_append_of_not_blank hs, trimRight_append ha]
    rfl

theorem trim_blank_append {before : Text} (hb : isBlank before) (s : Text) :
    trim (before ++ s) = trim s := by
  simpa using trim_append hb isBlank_nil s

theorem trim_append_blank {after : Text} (ha : isBlank after) (s : Text) :
    trim (s ++ after) = trim s := by
  simpa using trim_append isBlank_nil ha s

theorem trim_append_of_not_blank {u v : Text} (hu : ¬ isBlank u) (hv : ¬ isBlank v) (s : Text) :
    trim (u ++ s ++ v) = trimLeft u ++ s ++ trimRight v := by
  rw [trim, List.append_assoc, trimLeft_append_of_not_blank hu, ← List.append_assoc,
    trimRight_append_of_not_blank hv]

theorem head?_trim_cons {c : Char} (hc : ¬ isWhite c) (s : Text) :
    (trim (c :: s)).head? = some c := by
  have hleft : trimLeft (c :: s) = c :: s := List.dropWhile_cons_of_neg hc
  obtain ⟨after, ha, hs⟩ := trimRight_spec (c :: s)
  rw [trim, hleft]
  cases hright : trimRight (c :: s) with
  | nil =>
    rw [hright, List.nil_append] at hs
    rw [← hs] at ha
    exact absurd (List.all_eq_true.1 ha c List.mem_cons_self) hc
  | cons d rest =>
    rw [hright] at hs
    rw [(List.cons.inj hs).1]
    rfl

end BnfSentences.Text
