import BnfSentences.Generator.Workspace
import BnfSentences.Proofs.Grammar.Files
import BnfSentences.Proofs.Grammar.Layout
import BnfSentences.Source.Tape

/-!
# Presentations of a grammar

The order of the declarations, the comments and blank lines among them and the ends of the
lines are presentation: they change neither whether a text is accepted nor what its grammar
is. `ofDeclarations_eq_ok_iff_unordered` reads the insertions into the table without order.
-/

namespace BnfSentences

universe u v

/-! ### Lines with their ends -/

namespace Text

inductive LineEnd where
  | newline
  | returnNewline

def LineEnd.text : LineEnd → Text
  | .newline => ['\n']
  | .returnNewline => ['\r', '\n']

/-- The text is these lines in a row. Each is ended in one way or the other, and only the
last one need not be ended. -/
inductive Written : List Text → Text → Prop where
  | nothing : Written [] []
  | unended (l : Text) : Written [l] l
  | ended (l : Text) (e : LineEnd) {ls : List Text} {s : Text} (others : Written ls s) :
      Written (l :: ls) (l ++ e.text ++ s)

theorem eq_dropReturn_or (s : Text) : s = dropReturn s ∨ s = dropReturn s ++ ['\r'] := by
  by_cases h : s.getLast? = some '\r'
  · obtain ⟨u, rfl⟩ := List.getLast?_eq_some_iff.1 h
    rw [dropReturn_append_return]
    exact .inr rfl
  · exact .inl (dropReturn_eq_self h).symm

theorem trim_dropReturn (s : Text) : trim (dropReturn s) = trim s := by
  have hblank : trim (dropReturn s ++ ['\r']) = trim (dropReturn s) :=
    trim_append_blank (by decide) (dropReturn s)
  rcases eq_dropReturn_or s with h | h
  · rw [← h]
  · rw [← hblank, ← h]

theorem exists_lines_ended {l : Text} (h : '\n' ∉ l) (e : LineEnd) (s : Text) :
    ∃ r, lines (l ++ e.text ++ s) = r :: lines s ∧ (r = l ∨ r = dropReturn l) := by
  cases e with
  | newline =>
    refine ⟨dropReturn l, ?_, .inr rfl⟩
    rw [← lines_cons h, LineEnd.text, List.append_assoc, List.singleton_append]
  | returnNewline =>
    refine ⟨l, ?_, .inl rfl⟩
    rw [← lines_cons_return h, LineEnd.text, List.append_assoc]
    rfl

end Text

/-! ### What a line declares -/

namespace Rule

open Text

/-- The rule that a text declares, if it declares one. -/
def parse? (d : Text) : Option Rule :=
  (parse d).toOption

theorem parse?_eq_some_iff {d : Text} {r : Rule} : parse? d = some r ↔ parse d = .ok r := by
  unfold parse?
  cases parse d <;> simp [Except.toOption]

theorem parse?_append_blank {after : Text} (h : isBlank after) (d : Text) :
    parse? (d ++ after) = parse? d := by
  unfold parse?
  rcases parse_of_relaid (relaid_append_blank h d) with ⟨r, hr, hr'⟩ | ⟨hr, hr'⟩ | ⟨hr, hr'⟩
  · rw [hr, hr']
  · rw [hr, hr']
    rfl
  · rw [hr, hr']
    rfl

theorem parse?_dropReturn (d : Text) : parse? (dropReturn d) = parse? d := by
  rcases eq_dropReturn_or d with h | h
  · rw [← h]
  · have hblank := parse?_append_blank (show isBlank ['\r'] by decide) (dropReturn d)
    rw [← hblank, ← h]

end Rule

namespace Grammar

open Text

theorem isDeclaration_dropReturn (l : Text) : isDeclaration (dropReturn l) = isDeclaration l := by
  rw [isDeclaration, isDeclaration, trim_dropReturn]

theorem map_parse?_declarationsOfText {ls : List Text} (hls : ∀ l ∈ ls, '\n' ∉ l) {s : Text}
    (h : Written ls s) :
    (declarationsOfText s).map Rule.parse? = (ls.filter isDeclaration).map Rule.parse? := by
  induction h with
  | nothing => rfl
  | unended l =>
    cases l with
    | nil => rfl
    | cons c l =>
      rw [declarationsOfText, lines_eq_singleton (List.cons_ne_nil c l) (hls _ List.mem_cons_self)]
  | @ended l e ls s _ ih =>
    have hothers := ih fun k hk => hls k (List.mem_cons_of_mem l hk)
    obtain ⟨r, hlines, hr⟩ := exists_lines_ended (hls l List.mem_cons_self) e s
    have hdeclares : isDeclaration r = isDeclaration l ∧ Rule.parse? r = Rule.parse? l := by
      rcases hr with rfl | rfl
      · exact ⟨rfl, rfl⟩
      · exact ⟨isDeclaration_dropReturn l, Rule.parse?_dropReturn l⟩
    rw [declarationsOfText] at hothers ⊢
    rw [hlines, List.filter_cons, List.filter_cons, hdeclares.1]
    split
    · rw [List.map_cons, List.map_cons, hdeclares.2, hothers]
    · exact hothers

/-! ### Order of the declarations -/

theorem map_parse_eq_iff {ds : List Text} {rs : List Rule} :
    ds.map Rule.parse = rs.map .ok ↔ ds.map Rule.parse? = rs.map some := by
  induction ds generalizing rs with
  | nil => cases rs <;> simp
  | cons d ds ih => cases rs <;> simp [ih, Rule.parse?_eq_some_iff]

theorem eq_map_some_iff {os : List (Option Rule)} {rs : List Rule} :
    os = rs.map some ↔ none ∉ os ∧ os.filterMap id = rs := by
  induction os generalizing rs with
  | nil => cases rs <;> simp
  | cons o os ih =>
    cases o with
    | none => cases rs <;> simp
    | some q => cases rs <;> simp [ih, and_left_comm]

theorem ofDeclarations_eq_ok_iff_unordered {ds : List Text} {g : Grammar} :
    ofDeclarations ds = .ok g ↔
      ds.map Rule.parse? ≠ [] ∧ none ∉ ds.map Rule.parse? ∧
        (((ds.map Rule.parse?).filterMap id).map Rule.name).Nodup ∧ Sorted g.rules ∧
        g.rules.Perm ((ds.map Rule.parse?).filterMap id) := by
  simp only [ofDeclarations_eq_ok_iff, map_parse_eq_iff, eq_map_some_iff, ne_eq,
    List.map_eq_nil_iff]
  constructor
  · rintro ⟨hne, rs, ⟨hnone, rfl⟩, h⟩
    exact ⟨hne, hnone, h⟩
  · rintro ⟨hne, hnone, h⟩
    exact ⟨hne, _, ⟨hnone, rfl⟩, h⟩

theorem ofDeclarations_eq_ok_of_perm {ds ds' : List Text}
    (hperm : (ds.map Rule.parse?).Perm (ds'.map Rule.parse?)) {g : Grammar}
    (h : ofDeclarations ds = .ok g) : ofDeclarations ds' = .ok g := by
  obtain ⟨hne, hnone, hnodup, hs, hrules⟩ := ofDeclarations_eq_ok_iff_unordered.1 h
  have hsome := hperm.filterMap id
  refine ofDeclarations_eq_ok_iff_unordered.2 ⟨?_, ?_, ?_, hs, hrules.trans hsome⟩
  · intro hnil
    rw [hnil] at hperm
    exact hne hperm.eq_nil
  · exact fun hmem => hnone (hperm.symm.subset hmem)
  · exact (hsome.map Rule.name).nodup_iff.1 hnodup

/-! ### Whole texts -/

theorem ofFile_encode (s : Text) : ofFile (.bytes (Utf8.encode s)) = ofText s := by
  have hread : declarationsOfFile (.bytes (Utf8.encode s)) = .ok (declarationsOfText s) := by
    rw [declarationsOfFile, declarationsOfBytes_eq, Utf8.decode_encode]
  rw [ofFile, hread]
  rfl

/-- Neither the order of the declaration lines nor blank lines, comments and ends of lines have a
part in the grammar of a text, or in whether it is refused. -/
theorem ofText_written_perm {ls ls' : List Text} {s s' : Text} (hls : ∀ l ∈ ls, '\n' ∉ l)
    (hls' : ∀ l ∈ ls', '\n' ∉ l) (h : Written ls s) (h' : Written ls' s')
    (hperm : (ls.filter isDeclaration).Perm (ls'.filter isDeclaration)) :
    ofFile (.bytes (Utf8.encode s)) = ofText s ∧ ofFile (.bytes (Utf8.encode s')) = ofText s' ∧
    ((∃ e e', ofText s = .error e ∧ ofText s' = .error e' ∧ e.isInvalidArgument ∧
        e'.isInvalidArgument) ∨
      ∃ g g', ofText s = .ok g ∧ ofText s' = .ok g' ∧ g.rules = g'.rules ∧
        g.symbols = g'.symbols ∧
        (∀ layout, g.json.write layout 0 = g'.json.write layout 0) ∧
        ∀ (σ : Type u) (τ : Type v) [Source σ] [Source τ] (lim : Limits) (own : σ)
          (callers : List (Text × CallerSource τ)) (rs : List (Request τ)),
          (Workspace.answerAll lim rs ⟨⟨g, own⟩, callers⟩).1 =
            (Workspace.answerAll lim rs ⟨⟨g', own⟩, callers⟩).1) := by
  refine ⟨ofFile_encode s, ofFile_encode s', ?_⟩
  have hdeclared : ((declarationsOfText s).map Rule.parse?).Perm
      ((declarationsOfText s').map Rule.parse?) := by
    rw [map_parse?_declarationsOfText hls h, map_parse?_declarationsOfText hls' h']
    exact hperm.map Rule.parse?
  cases hs : ofText s with
  | ok g =>
    have hs' : ofText s' = .ok g := ofDeclarations_eq_ok_of_perm hdeclared hs
    exact .inr ⟨g, g, rfl, hs', rfl, rfl, fun _ => rfl, fun _ _ _ _ _ _ _ _ => rfl⟩
  | error e =>
    cases hs' : ofText s' with
    | ok g' =>
      have hok : ofText s = .ok g' := ofDeclarations_eq_ok_of_perm hdeclared.symm hs'
      rw [hs] at hok
      cases hok
    | error e' =>
      have hinvalid := isInvalidArgument_of_ofDeclarations hs
      have hinvalid' := isInvalidArgument_of_ofDeclarations hs'
      exact .inl ⟨e, e', rfl, rfl, hinvalid, hinvalid'⟩

/-- One declaration ends in a return that is read with it here and without it there. -/
theorem ofText_written_perm_shuffled :
    ∃ g g', ofText "# c\r\nb ::= x | y\n \r\na ::= b\r".toList = .ok g ∧
      ofFile (.bytes (Utf8.encode "a ::= b\r\nb ::= x | y\r\n".toList)) = .ok g' ∧
      g.rules = g'.rules ∧ g.symbols = [['a'], ['b']] ∧
      declarationsOfText "# c\r\nb ::= x | y\n \r\na ::= b\r".toList =
        ["b ::= x | y".toList, "a ::= b\r".toList] ∧
      declarationsOfText "a ::= b\r\nb ::= x | y\r\n".toList =
        ["a ::= b".toList, "b ::= x | y".toList] ∧
      ∀ (lim : Limits) (own : Tape) (rs : List (Request Tape)),
        (Workspace.answerAll lim rs ⟨⟨g, own⟩, []⟩).1 =
          (Workspace.answerAll lim rs ⟨⟨g', own⟩, []⟩).1 := by
  have h : Written ["# c".toList, "b ::= x | y".toList, " ".toList, "a ::= b\r".toList]
      "# c\r\nb ::= x | y\n \r\na ::= b\r".toList :=
    .ended _ .returnNewline (.ended _ .newline (.ended _ .returnNewline (.unended _)))
  have h' : Written ["a ::= b\r".toList, "b ::= x | y".toList]
      "a ::= b\r\nb ::= x | y\r\n".toList :=
    .ended _ .newline (.ended _ .returnNewline .nothing)
  obtain ⟨-, hfile, houtcome⟩ :=
    ofText_written_perm.{0, 0} (by decide) (by decide) h h' (by decide)
  rcases houtcome with ⟨e, -, herror, -⟩ | ⟨g, g', hg, hg', hrules, -, -, hanswers⟩
  · cases herror
  · have hsymbols : g.symbols = [['a'], ['b']] := by
      rw [← Except.ok.inj hg]
      rfl
    exact ⟨g, g', hg, hfile.trans hg', hrules, hsymbols, rfl, rfl,
      fun lim own rs => hanswers Tape Tape lim own [] rs⟩

end Grammar

end BnfSentences
