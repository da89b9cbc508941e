import BnfSentences.Derivation.Tree
import BnfSentences.Proofs.Grammar.Construction

/-!
# Trees of a grammar

The leaves and the trace of trees in a row are those of the trees one after
another, and no leaf is empty below a symbol that is not.
-/

namespace BnfSentences

/-! ### Sentences set side by side -/

namespace Text

theorem intercalate_cons_eq_spaced {w : Text} {ws : List Text} (hw : w ≠ [])
    (hws : ∀ v ∈ ws, v ≠ []) : [' '].intercalate (w :: ws) = spaced w ([' '].intercalate ws) := by
  cases ws with
  | nil => rw [List.intercalate_singleton, List.intercalate_nil, spaced_nil]
  | cons v ws =>
    have hne : [' '].intercalate (v :: ws) ≠ [] := by
      intro hnil
      have hhead := @head?_intercalate [' '] v ws (hws v List.mem_cons_self)
      rw [hnil] at hhead
      exact hws v List.mem_cons_self (List.head?_eq_none_iff.1 hhead.symm)
    rw [List.intercalate_cons_cons, spaced, if_neg (by simpa using hw), if_neg (by simpa using hne),
      List.append_assoc, List.singleton_append]

theorem spaced_intercalate {ws vs : List Text} (hws : ∀ w ∈ ws, w ≠ []) (hvs : ∀ v ∈ vs, v ≠ []) :
    spaced ([' '].intercalate ws) ([' '].intercalate vs) = [' '].intercalate (ws ++ vs) := by
  induction ws with
  | nil => rw [List.intercalate_nil, nil_spaced, List.nil_append]
  | cons w ws ih =>
    have hw := hws w List.mem_cons_self
    have hrest : ∀ v ∈ ws, v ≠ [] := fun v hv => hws v (List.mem_cons_of_mem w hv)
    have hboth : ∀ v ∈ ws ++ vs, v ≠ [] := by
      intro v hv
      rcases List.mem_append.1 hv with hv | hv
      · exact hrest v hv
      · exact hvs v hv
    rw [intercalate_cons_eq_spaced hw hrest, spaced_assoc, ih hrest, List.cons_append,
      intercalate_cons_eq_spaced hw hboth]

end Text

/-! ### Trees in a row -/

namespace Tree

theorem leavesOf_eq_flatMap (ts : List Tree) : leavesOf ts = ts.flatMap leaves := by
  induction ts with
  | nil => rfl
  | cons t ts ih => rw [leavesOf, ih, List.flatMap_cons]

theorem traceOf_eq_flatMap (ts : List Tree) : traceOf ts = ts.flatMap trace := by
  induction ts with
  | nil => rfl
  | cons t ts ih => rw [traceOf, ih, List.flatMap_cons]

theorem height_le_heightOf {t : Tree} {ts : List Tree} (h : t ∈ ts) : height t ≤ heightOf ts := by
  induction ts with
  | nil => cases h
  | cons u ts ih =>
    rw [heightOf]
    rcases List.mem_cons.1 h with rfl | h
    · exact Nat.le_max_left _ _
    · exact Nat.le_trans (ih h) (Nat.le_max_right _ _)

@[simp] theorem leaves_leaf (symbol : Text) : (Tree.leaf symbol).leaves = [symbol] := by
  rw [leaves]

@[simp] theorem leaves_node (symbol : Text) (p : Production) (ts : List Tree) :
    (Tree.node symbol p ts).leaves = ts.flatMap leaves := by
  rw [leaves, leavesOf_eq_flatMap]

@[simp] theorem trace_leaf (symbol : Text) : (Tree.leaf symbol).trace = [] := by
  rw [trace]

@[simp] theorem trace_node (symbol : Text) (p : Production) (ts : List Tree) :
    (Tree.node symbol p ts).trace = ⟨symbol, p⟩ :: ts.flatMap trace := by
  rw [trace, traceOf_eq_flatMap]

theorem root_or_mem_tail {t : Tree} {e : Expansion} (he : e ∈ t.trace) :
    e.symbol = t.root ∨ e ∈ t.trace.tail := by
  cases t with
  | leaf symbol =>
    rw [trace_leaf] at he
    cases he
  | node symbol p ts =>
    rw [trace_node] at he ⊢
    rcases List.mem_cons.1 he with rfl | he
    · exact .inl rfl
    · exact .inr he

theorem root_mem_tokens {p : Production} {ts : List Tree} (tokens : ts.map root = p.tokens)
    {t : Tree} (h : t ∈ ts) : t.root ∈ p.tokens := by
  rw [← tokens]
  exact List.mem_map_of_mem h

end Tree

/-! ### Trees of a well-formed grammar -/

namespace Grammar

variable {g : Grammar}

/-- Tokens are not empty, so no leaf is unless it is the root. -/
theorem HasTree.leaf_ne_nil (hg : g.WellFormed) {t : Tree} (ht : g.HasTree t)
    (hroot : t.root ≠ []) : ∀ l ∈ t.leaves, l ≠ [] := by
  induction ht with
  | leaf _ =>
    intro l hl
    rw [Tree.leaves_leaf, List.mem_singleton] at hl
    rw [hl]
    exact hroot
  | node declared mem tokens _ ih =>
    intro l hl
    rw [Tree.leaves_node] at hl
    obtain ⟨c, hc, hl⟩ := List.mem_flatMap.1 hl
    have htoken := Tree.root_mem_tokens tokens hc
    exact ih c hc ((hg.production declared mem).token_ne_nil _ htoken) l hl

theorem HasTree.declared_of_mem_trace {t : Tree} (ht : g.HasTree t) {e : Expansion}
    (he : e ∈ t.trace) :
    ∃ alternatives, g.productions? e.symbol = some alternatives ∧ e.production ∈ alternatives := by
  induction ht with
  | leaf _ =>
    rw [Tree.trace_leaf] at he
    cases he
  | node declared mem _ _ ih =>
    rw [Tree.trace_node] at he
    rcases List.mem_cons.1 he with rfl | he
    · exact ⟨_, declared, mem⟩
    · obtain ⟨c, hc, he⟩ := List.mem_flatMap.1 he
      exact ih c hc he

end Grammar

end BnfSentences
