import BnfSentences.Proofs.Derivation.Trees

/-!
# Cutting a trace back into trees

A symbol is replaced at once or not at all, so the next replacement of a trace says
whether the next symbol is a leaf. A root and a trace belong to one tree only:
`HasTree.eq_of_trace_append`, in which the trees may come from two grammars.
-/

namespace BnfSentences.Grammar

variable {g h : Grammar}

/-! ### Replacements of declared symbols -/

def Declares (g : Grammar) (es : List Expansion) : Prop :=
  ∀ e ∈ es, g.productions? e.symbol ≠ none

theorem declares_nil (g : Grammar) : g.Declares [] := by
  intro e he
  cases he

theorem declares_append_iff {es fs : List Expansion} :
    g.Declares (es ++ fs) ↔ g.Declares es ∧ g.Declares fs :=
  List.forall_mem_append

theorem HasTree.declares_trace {t : Tree} (ht : g.HasTree t) : g.Declares t.trace := by
  intro e he hnone
  obtain ⟨alternatives, hsome, -⟩ := ht.declared_of_mem_trace he
  rw [hsome] at hnone
  cases hnone

theorem declares_flatMap_trace {ts : List Tree} (hts : ∀ t ∈ ts, g.HasTree t) :
    g.Declares (ts.flatMap Tree.trace) := by
  intro e he
  obtain ⟨t, ht, he⟩ := List.mem_flatMap.1 he
  exact (hts t ht).declares_trace e he

/-! ### Cutting -/

/-- Where the trace of a tree ends is known from its root. -/
def CutsTrace (g h : Grammar) (t : Tree) : Prop :=
  ∀ ⦃u : Tree⦄ ⦃es fs : List Expansion⦄, h.HasTree u → t.root = u.root → g.Declares es →
    h.Declares fs → t.trace ++ es = u.trace ++ fs → t = u ∧ es = fs

theorem cutsTrace_row {ts us : List Tree} (hcuts : ∀ t ∈ ts, g.CutsTrace h t)
    (hts : ∀ t ∈ ts, g.HasTree t) (hus : ∀ u ∈ us, h.HasTree u)
    (hroots : ts.map Tree.root = us.map Tree.root) {es fs : List Expansion} (hes : g.Declares es)
    (hfs : h.Declares fs)
    (htrace : ts.flatMap Tree.trace ++ es = us.flatMap Tree.trace ++ fs) :
    ts = us ∧ es = fs := by
  induction ts generalizing us with
  | nil =>
    obtain rfl := List.map_eq_nil_iff.1 hroots.symm
    exact ⟨rfl, htrace⟩
  | cons t ts ih =>
    cases us with
    | nil => cases hroots
    | cons u us =>
      obtain ⟨hroot, hrest⟩ := List.cons.inj hroots
      rw [List.forall_mem_cons] at hcuts hts hus
      rw [List.flatMap_cons, List.flatMap_cons, List.append_assoc, List.append_assoc] at htrace
      have hafter : g.Declares (ts.flatMap Tree.trace ++ es) :=
        declares_append_iff.2 ⟨declares_flatMap_trace hts.2, hes⟩
      have hafter' : h.Declares (us.flatMap Tree.trace ++ fs) :=
        declares_append_iff.2 ⟨declares_flatMap_trace hus.2, hfs⟩
      obtain ⟨rfl, hcut⟩ := hcuts.1 hus.1 hroot hafter hafter' htrace
      obtain ⟨rfl, rfl⟩ := ih hcuts.2 hts.2 hus.2 hrest hcut
      exact ⟨rfl, rfl⟩

theorem HasTree.eq_of_trace_append {t : Tree} (ht : g.HasTree t) : g.CutsTrace h t := by
  induction ht with
  | leaf hterm =>
    intro u es fs hu hroot hes hfs htrace
    cases hu with
    | leaf _ =>
      obtain rfl := hroot
      rw [Tree.trace_leaf] at htrace
      exact ⟨rfl, htrace⟩
    | node _ _ _ _ =>
      obtain rfl := hroot
      -- what comes next replaces a symbol that the first grammar does not declare
      rw [Tree.trace_leaf, Tree.trace_node] at htrace
      rw [List.nil_append, List.cons_append] at htrace
      rw [htrace] at hes
      exact absurd hterm (hes _ List.mem_cons_self)
  | node _ _ tokens trees ih =>
    intro u es fs hu hroot hes hfs htrace
    cases hu with
    | leaf hterm =>
      obtain rfl := hroot
      rw [Tree.trace_leaf, Tree.trace_node] at htrace
      rw [List.nil_append, List.cons_append] at htrace
      rw [← htrace] at hfs
      exact absurd hterm (hfs _ List.mem_cons_self)
    | node _ _ tokens' trees' =>
      rw [Tree.trace_node, Tree.trace_node, List.cons_append, List.cons_append] at htrace
      obtain ⟨hfirst, hcut⟩ := List.cons.inj htrace
      obtain ⟨rfl, rfl⟩ := Expansion.mk.inj hfirst
      obtain ⟨rfl, rfl⟩ :=
        cutsTrace_row ih trees trees' (tokens.trans tokens'.symm) hes hfs hcut
      exact ⟨rfl, rfl⟩

theorem HasTree.eq_of_trace {t u : Tree} (ht : g.HasTree t) (hu : h.HasTree u)
    (hroot : t.root = u.root) (htrace : t.trace = u.trace) : t = u := by
  have hcut := ht.eq_of_trace_append hu hroot (declares_nil g) (declares_nil h)
  rw [List.append_nil, List.append_nil] at hcut
  exact (hcut htrace).1

end BnfSentences.Grammar
