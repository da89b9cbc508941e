import BnfSentences.Grammar.WellFormed
import BnfSentences.Proofs.Text.Separators
import BnfSentences.Proofs.Text.Words

/-!
# Declarations read and written

What `Rule.parse` accepts is well-formed, and a well-formed rule is read back
from its declaration: `exists_parse_iff`.
-/

namespace BnfSentences

open Text

/-! ### Alternatives -/

namespace Production

theorem not_isGap_of_not_isWhite {c : Char} (h : ¬ isWhite c) : ¬ isGap c :=
  fun hg => h (isWhite_of_isGap hg)

theorem first_not_white_ofText (s : Text) :
    ∀ t ∈ (ofText s).tokens.head?, ∀ c ∈ t.head?, ¬ isWhite c := by
  intro t ht c hc
  rw [head?_of_mem_head?_words (fun c hc => not_isGap_of_not_isWhite (head?_trim s c hc)) ht] at hc
  exact head?_trim s c hc

theorem last_not_white_ofText (s : Text) :
    ∀ t ∈ (ofText s).tokens.getLast?, ∀ c ∈ t.getLast?, ¬ isWhite c := by
  intro t ht c hc
  rw [getLast?_of_mem_getLast?_words
    (fun c hc => not_isGap_of_not_isWhite (getLast?_trim s c hc)) ht] at hc
  exact getLast?_trim s c hc

theorem wellFormed_ofText {s : Text} (h : Rule.bar ∉ s) : (ofText s).WellFormed where
  token_ne_nil _ ht := (mem_words ht).1
  token_no_gap _ ht := (mem_words ht).2.2
  token_no_bar _ ht hb := h ((isInfix_trim s).subset ((mem_words ht).2.1.subset hb))
  first_not_white := first_not_white_ofText s
  last_not_white := last_not_white_ofText s

theorem ofText_append {before after : Text} (hb : isBlank before) (ha : isBlank after) (s : Text) :
    ofText (before ++ s ++ after) = ofText s := by
  rw [ofText, trim_append hb ha, ofText]

theorem isTrimmed_text {p : Production} (h : p.WellFormed) : IsTrimmed p.text :=
  isTrimmed_intercalate h.token_ne_nil h.first_not_white h.last_not_white

theorem ofText_intercalate {ts : List Text} (htokens : ∀ t ∈ ts, t ≠ [] ∧ ∀ c ∈ t, ¬ isGap c)
    (hfirst : ∀ t ∈ ts.head?, ∀ c ∈ t.head?, ¬ isWhite c)
    (hlast : ∀ t ∈ ts.getLast?, ∀ c ∈ t.getLast?, ¬ isWhite c) :
    ofText ([' '].intercalate ts) = ⟨ts⟩ := by
  have htrim : trim ([' '].intercalate ts) = [' '].intercalate ts :=
    isTrimmed_intercalate (fun t ht => (htokens t ht).1) hfirst hlast
  rw [ofText, htrim, words_intercalate htokens]

theorem ofText_text {p : Production} (h : p.WellFormed) : ofText p.text = p :=
  ofText_intercalate (fun t ht => ⟨h.token_ne_nil t ht, h.token_no_gap t ht⟩) h.first_not_white
    h.last_not_white

theorem bar_notMem_text {p : Production} (h : p.WellFormed) : Rule.bar ∉ p.text := by
  intro hb
  rcases mem_intercalate hb with hs | ⟨t, ht, hb⟩
  · exact absurd hs (by decide)
  · exact h.token_no_bar t ht hb

end Production

/-! ### Rules -/

namespace Rule

theorem separator_ne_nil : separator ≠ [] := by decide

theorem wellFormed_of_parse {d : Text} {r : Rule} (h : parse d = .ok r) : r.WellFormed := by
  obtain ⟨left, right, hcut, hname, rfl⟩ := parse_eq_ok_iff.1 h
  refine ⟨fun hnil => hname (trim_eq_nil.1 hnil), isTrimmed_trim left, ?_, ?_, ?_⟩
  · intro hsep
    have hin := hsep.trans (isInfix_trim left)
    exact not_infix_of_cutFirst separator_ne_nil hcut (List.infix_append_of_infix_left hin)
  · simp [parseAlternatives]
  · intro p hp
    obtain ⟨piece, hpiece, rfl⟩ := List.mem_map.1 hp
    exact Production.wellFormed_ofText (mem_splitOn hpiece).2

theorem parseAlternatives_eq_singleton {s : Text} (h : bar ∉ s) :
    parseAlternatives s = [Production.ofText s] := by
  rw [parseAlternatives, List.splitOn_eq_singleton h, List.map_singleton]

theorem parseAlternatives_append_bar (s t : Text) :
    parseAlternatives (s ++ bar :: t) = parseAlternatives s ++ parseAlternatives t := by
  rw [parseAlternatives, List.splitOn_append_cons_self, List.map_append]
  rfl

theorem parseAlternatives_intercalate {ps : List Production} (hne : ps ≠ [])
    (h : ∀ p ∈ ps, p.WellFormed) :
    parseAlternatives (' ' :: [' ', bar, ' '].intercalate (ps.map Production.text)) = ps := by
  induction ps with
  | nil => exact absurd rfl hne
  | cons p ps ih =>
    have hp := h p List.mem_cons_self
    have hread : ∀ after, isBlank after →
        Production.ofText ([' '] ++ p.text ++ after) = p := fun after ha =>
      (Production.ofText_append (by decide) ha p.text).trans (Production.ofText_text hp)
    have hbar : ∀ after, bar ∉ after → bar ∉ [' '] ++ p.text ++ after := by
      intro after ha hb
      rcases List.mem_append.1 hb with hb | hb
      · rcases List.mem_cons.1 hb with hb | hb
        · exact absurd hb (by decide)
        · exact Production.bar_notMem_text hp hb
      · exact ha hb
    cases ps with
    | nil =>
      have hone : ' ' :: [' ', bar, ' '].intercalate ([p].map Production.text) =
          [' '] ++ p.text ++ [] := by simp
      rw [hone, parseAlternatives_eq_singleton (hbar [] List.not_mem_nil), hread [] rfl]
    | cons q ps =>
      have hps := ih (List.cons_ne_nil q ps) fun r hr => h r (List.mem_cons_of_mem p hr)
      have hcons : ' ' :: [' ', bar, ' '].intercalate ((p :: q :: ps).map Production.text) =
          [' '] ++ p.text ++ [' '] ++
            bar :: ' ' :: [' ', bar, ' '].intercalate ((q :: ps).map Production.text) := by
        rw [List.map_cons, List.map_cons, List.intercalate_cons_cons, ← List.map_cons]
        simp
      rw [hcons, parseAlternatives_append_bar,
        parseAlternatives_eq_singleton (hbar [' '] (by decide)), hread [' '] (by decide), hps,
        List.singleton_append]

theorem parse_text {r : Rule} (h : r.WellFormed) : parse r.text = .ok r := by
  have hsep : ¬ separator <:+: r.name ++ [' '] ++ separator.dropLast := by
    rw [List.append_assoc, List.singleton_append, infix_append_cons (by decide)]
    rintro (hin | hin)
    · exact h.name_no_separator hin
    · exact not_infix_dropLast separator_ne_nil hin
  have htext : r.text = r.name ++ [' '] ++ separator ++
      ' ' :: [' ', bar, ' '].intercalate (r.alternatives.map Production.text) := by
    simp [text]
  have htrim : trim (r.name ++ [' ']) = r.name :=
    (trim_append_blank (by decide) r.name).trans h.name_trimmed
  have hname : ¬ isBlank (r.name ++ [' ']) := by
    rw [← trim_eq_nil, htrim]
    exact h.name_ne_nil
  rw [htext, parse_of_cutFirst (cutFirst_append separator_ne_nil hsep), if_neg hname, htrim,
    parseAlternatives_intercalate h.alternatives_ne_nil h.alternative]

theorem exists_parse_iff {r : Rule} : (∃ d, parse d = .ok r) ↔ r.WellFormed :=
  ⟨fun ⟨_, h⟩ => wellFormed_of_parse h, fun h => ⟨r.text, parse_text h⟩⟩

end Rule

end BnfSentences
