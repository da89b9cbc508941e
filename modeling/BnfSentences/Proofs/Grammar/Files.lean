import BnfSentences.Grammar.Loading
import BnfSentences.Proofs.Grammar.Faults
import BnfSentences.Proofs.Grammar.RoundTrip
import BnfSentences.Proofs.Text.Lines
import BnfSentences.Proofs.Text.Utf8

/-!
# Files read as texts

A file is cut into lines octet by octet and a text character by character.
`ofFile_eq_ofText` says that both give the same grammar or the same error.
-/

namespace BnfSentences.Grammar

open Text

/-! ### One line -/

theorem stripEnd_line (u : Text) : stripEnd (u ++ ['\n']) = dropReturn u := by
  rw [stripEnd, List.reverse_append]
  rcases List.eq_nil_or_concat u with rfl | ⟨v, c, rfl⟩
  · rfl
  · rw [List.concat_eq_append, List.reverse_append]
    by_cases hc : c = '\r'
    · subst hc
      simp [dropReturn_append_return]
    · have hlast : (v ++ [c]).getLast? ≠ some '\r' := by simpa using hc
      rw [dropReturn_eq_self hlast]
      simp [hc]

theorem stripEnd_of_notMem {u : Text} (h : '\n' ∉ u) : stripEnd u = u := by
  rw [← List.mem_reverse] at h
  unfold stripEnd
  split
  · next heq => simp [heq] at h
  · next heq => simp [heq] at h
  · rfl

/-! ### All lines -/

def readLine (piece : Bytes) : Except Error Text :=
  match Utf8.decode piece with
  | none => .error (.unreadable .notUtf8)
  | some line => .ok (stripEnd line)

theorem readLine_line (u : Bytes) :
    readLine (u ++ [Utf8.newline]) =
      match Utf8.decode u with
      | none => .error (.unreadable .notUtf8)
      | some s => .ok (dropReturn s) := by
  rw [readLine, Utf8.decode_line]
  cases Utf8.decode u with
  | none => rfl
  | some s => simp [stripEnd_line]

theorem mapM_readLine_cutLines (bs : Bytes) :
    (Utf8.cutLines bs).mapM readLine =
      match Utf8.decode bs with
      | none => .error (.unreadable .notUtf8)
      | some s => .ok (lines s) := by
  induction bs using firstSeparator_induction (· == Utf8.newline) with
  | whole u hu =>
    have hnewline : Utf8.newline ∉ u := fun h => hu _ h (beq_self_eq_true _)
    cases u with
    | nil => rfl
    | cons b u =>
      rw [Utf8.cutLines_eq_singleton (List.cons_ne_nil b u) hnewline, List.mapM_cons, readLine]
      cases hs : Utf8.decode (b :: u) with
      | none => rfl
      | some s =>
        have hs' := Utf8.newline_notMem_of_decode hs hnewline
        have hne : s ≠ [] := by
          rintro rfl
          cases Utf8.eq_encode_of_decode hs
        change Except.ok [stripEnd s] = .ok (lines s)
        rw [stripEnd_of_notMem hs', lines_eq_singleton hne hs']
  | part u x t hu hx ih =>
    obtain rfl := beq_iff_eq.1 hx
    have hnewline : Utf8.newline ∉ u := fun h => hu _ h (beq_self_eq_true _)
    rw [Utf8.cutLines_append hnewline, List.mapM_cons, ih, readLine_line,
      Utf8.decode_append_newline]
    cases hs : Utf8.decode u with
    | none => rfl
    | some s =>
      cases ht : Utf8.decode t with
      | none => rfl
      | some r =>
        change Except.ok (dropReturn s :: lines r) = .ok (lines (s ++ '\n' :: r))
        rw [lines_cons (Utf8.newline_notMem_of_decode hs hnewline)]

theorem declarationsOfBytes_eq (bs : Bytes) :
    declarationsOfBytes bs =
      match Utf8.decode bs with
      | none => .error (.unreadable .notUtf8)
      | some s => .ok (declarationsOfText s) := by
  have hread := mapM_readLine_cutLines bs
  change ((Utf8.cutLines bs).mapM readLine >>= fun ls => pure (ls.filter isDeclaration)) = _
  rw [hread]
  cases Utf8.decode bs <;> rfl

/-! ### Errors of declarations -/

theorem FaultAt.isInvalidArgument {ds : List Text} {i : Nat} {e : Error} (h : FaultAt ds i e) :
    e.isInvalidArgument := by
  cases h with
  | refused _ refused =>
    rcases Rule.parse_eq_error_iff.1 refused with ⟨-, rfl⟩ | ⟨-, -, -, -, rfl⟩
    · rfl
    · rfl
  | repeated _ _ _ _ _ _ => rfl

theorem isInvalidArgument_of_ofDeclarations {ds : List Text} {e : Error}
    (h : ofDeclarations ds = .error e) : e.isInvalidArgument := by
  rcases ofDeclarations_eq_error_iff.1 h with ⟨-, rfl⟩ | ⟨i, hfault, -⟩
  · rfl
  · exact hfault.isInvalidArgument

/-! ### Whole files -/

theorem exists_text_of_ofFile {file : FileContent} {g : Grammar} (h : ofFile file = .ok g) :
    ∃ s, file = .bytes (Utf8.encode s) ∧ ofText s = .ok g := by
  obtain ⟨ds, hds, hg⟩ := bind_eq_ok_iff.1 h
  cases file with
  | missing => cases hds
  | directory => cases hds
  | bytes bs =>
    rw [declarationsOfFile, declarationsOfBytes_eq] at hds
    cases hs : Utf8.decode bs with
    | none =>
      rw [hs] at hds
      cases hds
    | some s =>
      rw [hs] at hds
      obtain rfl := Except.ok.inj hds
      exact ⟨s, congrArg _ (Utf8.eq_encode_of_decode hs), hg⟩

theorem oneLine_of_ofFile {file : FileContent} {g : Grammar} (h : ofFile file = .ok g) :
    ∀ r ∈ g.rules, r.OneLine := by
  obtain ⟨s, -, hs⟩ := exists_text_of_ofFile h
  exact oneLine_of_ofText hs

/-- A file that is UTF-8 is read like its text. Any other file is unreadable, whatever its lines
before the fault declare. -/
theorem ofFile_eq_ofText (bs : Bytes) :
    (∀ s, bs = Utf8.encode s →
      declarationsOfFile (.bytes bs) = .ok (declarationsOfText s) ∧
      ofFile (.bytes bs) = ofText s ∧
      ∀ e, ofFile (.bytes bs) = .error e → e.isInvalidArgument) ∧
    ((∀ s, bs ≠ Utf8.encode s) →
      declarationsOfFile (.bytes bs) = .error (.unreadable .notUtf8) ∧
      ofFile (.bytes bs) = .error (.unreadable .notUtf8)) := by
  have hfile : declarationsOfFile (.bytes bs) = declarationsOfBytes bs := rfl
  rw [ofFile, hfile, declarationsOfBytes_eq]
  constructor
  · intro s hs
    rw [Utf8.decode_eq_some_iff.2 hs]
    exact ⟨rfl, rfl, fun e he => isInvalidArgument_of_ofDeclarations he⟩
  · intro hs
    rw [Utf8.decode_eq_none_iff.2 hs]
    exact ⟨rfl, rfl⟩

/-- The third line is a comment that ends in half a character. The second line
declares a name again, which is found if the comment is whole. -/
theorem ofFile_eq_ofText_broken :
    ofFile (.bytes (Utf8.encode "ä ::= x\r\nä ::= y\n# ".toList ++ [0xC3])) =
      .error (.unreadable .notUtf8) ∧
    ofFile (.bytes (Utf8.encode "ä ::= x\r\nä ::= y\n# ä".toList)) =
      .error (.duplicateName ['ä']) := by
  have hbroken : ∀ s, Utf8.encode "ä ::= x\r\nä ::= y\n# ".toList ++ [0xC3] ≠ Utf8.encode s :=
    Utf8.decode_eq_none_iff.1 (by rfl)
  refine ⟨((ofFile_eq_ofText _).2 hbroken).2, ?_⟩
  rw [((ofFile_eq_ofText _).1 _ rfl).2.1]
  rfl

end BnfSentences.Grammar
