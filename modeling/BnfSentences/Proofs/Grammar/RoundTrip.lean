import BnfSentences.Proofs.Grammar.Construction
import BnfSentences.Proofs.Text.Lines

/-!
# Grammars written and read

A grammar is written with the declaration of one rule on each line. Every text
that is read gives a grammar that can be written, and it is read back the same:
`ofText_round_trip`.
-/

namespace BnfSentences

open Text

/-! ### Rules on one line -/

namespace Rule

/-- A rule that fits on one line and is not taken for a comment there. -/
structure OneLine (r : Rule) : Prop where
  name_no_newline : '\n' ∉ r.name
  name_no_comment : r.name.head? ≠ some '#'
  token_no_newline : ∀ p ∈ r.alternatives, ∀ t ∈ p.tokens, '\n' ∉ t

theorem head?_trim_of_parse {d : Text} {r : Rule} (h : parse d = .ok r) :
    (trim d).head? = r.name.head? := by
  obtain ⟨left, right, hcut, hname, rfl⟩ := parse_eq_ok_iff.1 h
  obtain ⟨hd, -⟩ := (cutFirst_eq_some_iff separator_ne_nil).1 hcut
  obtain ⟨before, after, hb, -, hleft⟩ := trim_spec left
  obtain ⟨c, name, hc⟩ := List.exists_cons_of_ne_nil (fun hnil => hname (trim_eq_nil.1 hnil))
  have hwhite : ¬ isWhite c := head?_trim left c (by rw [hc]; rfl)
  have hsplit : d = before ++ c :: (name ++ (after ++ separator ++ right)) ++ [] := by
    rw [hd, hleft, hc]
    simp
  rw [hsplit, trim_append hb rfl, head?_trim_cons hwhite, hc]
  rfl

theorem isDeclaration_iff_of_parse {d : Text} {r : Rule} (h : parse d = .ok r) :
    Grammar.isDeclaration d ↔ r.name.head? ≠ some '#' := by
  have hhead := head?_trim_of_parse h
  have hne : trim d ≠ [] := by
    intro hnil
    rw [hnil] at hhead
    exact (wellFormed_of_parse h).name_ne_nil (List.head?_eq_none_iff.1 hhead.symm)
  simp [Grammar.isDeclaration, hhead, hne]

theorem mem_of_parse {d : Text} {r : Rule} (h : parse d = .ok r) {c : Char}
    (hc : c ∈ r.name ∨ ∃ p ∈ r.alternatives, ∃ t ∈ p.tokens, c ∈ t) : c ∈ d := by
  obtain ⟨left, right, hcut, -, rfl⟩ := parse_eq_ok_iff.1 h
  obtain ⟨rfl, -⟩ := (cutFirst_eq_some_iff separator_ne_nil).1 hcut
  rcases hc with hc | ⟨p, hp, t, ht, hc⟩
  · exact List.mem_append_left _ (List.mem_append_left _ ((isInfix_trim left).subset hc))
  · obtain ⟨piece, hpiece, rfl⟩ := List.mem_map.1 hp
    have htoken : t <:+: right :=
      (mem_words ht).2.1.trans ((isInfix_trim piece).trans (mem_splitOn hpiece).1)
    exact List.mem_append_right _ (htoken.subset hc)

theorem oneLine_of_parse {d : Text} {r : Rule} (h : parse d = .ok r) (hd : '\n' ∉ d)
    (hdecl : Grammar.isDeclaration d) : r.OneLine where
  name_no_newline hc := hd (mem_of_parse h (.inl hc))
  name_no_comment := (isDeclaration_iff_of_parse h).1 hdecl
  token_no_newline p hp t ht hc := hd (mem_of_parse h (.inr ⟨p, hp, t, ht, hc⟩))

/-! ### The line of a rule -/

theorem text_ne_nil (r : Rule) : r.text ≠ [] := by
  simp [text]

theorem newline_notMem_text {r : Rule} (h : r.OneLine) : '\n' ∉ r.text := by
  intro hc
  rcases List.mem_append.1 hc with hc | hc
  · rcases List.mem_append.1 hc with hc | hc
    · exact h.name_no_newline hc
    · exact absurd hc (by decide)
  · rcases List.mem_cons.1 hc with hc | hc
    · exact absurd hc (by decide)
    · rcases mem_intercalate hc with hc | ⟨w, hw, hc⟩
      · exact absurd hc (by decide)
      · obtain ⟨p, hp, rfl⟩ := List.mem_map.1 hw
        rcases mem_intercalate hc with hc | ⟨t, ht, hc⟩
        · exact absurd hc (by decide)
        · exact h.token_no_newline p hp t ht hc

/-- A line ends in a space or in the last character of an alternative. -/
theorem getLast?_text_ne_return {r : Rule} (h : r.WellFormed) : r.text.getLast? ≠ some '\r' := by
  have halternative : ∀ w ∈ r.alternatives.map Production.text, w.getLast? ≠ some '\r' := by
    intro w hw hreturn
    obtain ⟨p, hp, rfl⟩ := List.mem_map.1 hw
    have htrimmed := isTrimmed_iff.1 (Production.isTrimmed_text (h.alternative p hp))
    exact htrimmed.2 '\r' hreturn (by decide)
  have hlast := getLast?_intercalate_ne (show [' ', bar, ' '].getLast? ≠ some '\r' by decide)
    halternative
  rw [text]
  refine getLast?_append_ne ?_ ?_
  · refine getLast?_append_ne ?_ (by decide)
    intro hreturn
    exact (isTrimmed_iff.1 h.name_trimmed).2 '\r' hreturn (by decide)
  · exact getLast?_append_ne (s := [' ']) (by decide) hlast

end Rule

/-! ### Whole tables -/

namespace Grammar

/-- Some rules, one on each line. -/
def textOf (rs : List Rule) : Text :=
  ['\n'].intercalate (rs.map Rule.text)

theorem declarationsOfText_textOf {rs : List Rule} (h : ∀ r ∈ rs, r.WellFormed ∧ r.OneLine) :
    declarationsOfText (textOf rs) = rs.map Rule.text := by
  have hlines : lines (textOf rs) = rs.map Rule.text := by
    refine lines_intercalate fun l hl => ?_
    obtain ⟨r, hr, rfl⟩ := List.mem_map.1 hl
    obtain ⟨hwf, hone⟩ := h r hr
    exact ⟨r.text_ne_nil, Rule.newline_notMem_text hone, Rule.getLast?_text_ne_return hwf⟩
  rw [declarationsOfText, hlines, List.filter_eq_self]
  intro l hl
  obtain ⟨r, hr, rfl⟩ := List.mem_map.1 hl
  obtain ⟨hwf, hone⟩ := h r hr
  exact (Rule.isDeclaration_iff_of_parse (Rule.parse_text hwf)).2 hone.name_no_comment

theorem ofText_textOf {g : Grammar} (hg : g.WellFormed) (hone : ∀ r ∈ g.rules, r.OneLine)
    {rs : List Rule} (hrs : rs.Perm g.rules) : ofText (textOf rs) = .ok g := by
  have hrules : ∀ r ∈ rs, r.WellFormed ∧ r.OneLine := by
    intro r hr
    have hmem := hrs.subset hr
    exact ⟨hg.rule r hmem, hone r hmem⟩
  rw [ofText, declarationsOfText_textOf hrules]
  exact ofDeclarations_text hg hrs

theorem oneLine_of_ofText {s : Text} {g : Grammar} (h : ofText s = .ok g) :
    ∀ r ∈ g.rules, r.OneLine := by
  intro r hr
  obtain ⟨d, hd, hparse⟩ := (mem_rules_iff h).1 hr
  obtain ⟨hline, hdecl⟩ := List.mem_filter.1 hd
  exact Rule.oneLine_of_parse hparse (newline_notMem_of_mem_lines hline) hdecl

/-- Rules with different names, well-formed and each on one line, are read back
from their lines. Any text that is read gives a table of such rules. -/
theorem ofText_round_trip :
    (∀ rs : List Rule, rs ≠ [] → (rs.map Rule.name).Nodup →
      (∀ r ∈ rs, r.WellFormed ∧ r.OneLine) →
        ∃ g, ofText (textOf rs) = .ok g ∧ g.rules.Perm rs) ∧
    (∀ s g, ofText s = .ok g →
      g.WellFormed ∧ (∀ r ∈ g.rules, r.OneLine) ∧
        ∀ rs, rs.Perm g.rules → ofText (textOf rs) = .ok g) := by
  constructor
  · intro rs hne hnames hrules
    obtain ⟨table, hs, hperm⟩ := exists_sorted_perm hnames
    have htable : table ≠ [] := by
      rintro rfl
      exact hne (List.nil_perm.1 hperm)
    have hg : WellFormed ⟨table⟩ := ⟨htable, hs, fun r hr => (hrules r (hperm.subset hr)).1⟩
    have hone : ∀ r ∈ table, r.OneLine := fun r hr => (hrules r (hperm.subset hr)).2
    exact ⟨⟨table⟩, ofText_textOf hg hone hperm.symm, hperm⟩
  · intro s g h
    have hg : g.WellFormed := wellFormed_of_ofDeclarations h
    have hone := oneLine_of_ofText h
    exact ⟨hg, hone, fun rs hrs => ofText_textOf hg hone hrs⟩

/-- Rules with a colon at the end of a name, a separator and a comment sign for
tokens, a blank alternative at the end, and a return inside a token. -/
def awkward : List Rule :=
  [⟨['b', ':'], [⟨[['x', ':', ':', '='], ['#']]⟩, ⟨[]⟩]⟩, ⟨['a', '|'], [⟨[['p', '\r', 'q']]⟩]⟩]

theorem ofText_round_trip_awkward :
    ∃ g, ofText "b: ::= x::= # | \na| ::= p\rq".toList = .ok g ∧ g.rules.Perm awkward ∧
      ofText (textOf awkward.reverse) = .ok g := by
  have hrules : ∀ r ∈ awkward, r.WellFormed ∧ r.OneLine := by
    refine List.forall_mem_cons.2 ⟨⟨?_, ?_⟩, List.forall_mem_singleton.2 ⟨?_, ?_⟩⟩
    · exact Rule.wellFormed_of_parse (show Rule.parse "b: ::= x::= #|".toList = _ from rfl)
    · exact ⟨by decide, by decide, by decide⟩
    · exact Rule.wellFormed_of_parse (show Rule.parse "a|::=p\rq".toList = _ from rfl)
    · exact ⟨by decide, by decide, by decide⟩
  have hne : awkward ≠ [] := List.cons_ne_nil _ _
  obtain ⟨g, hread, hperm⟩ := ofText_round_trip.1 awkward hne (by decide) hrules
  have hagain := (ofText_round_trip.2 (textOf awkward) g hread).2.2 awkward.reverse
  exact ⟨g, hread, hperm, hagain (awkward.reverse_perm.trans hperm.symm)⟩

end Grammar

end BnfSentences
