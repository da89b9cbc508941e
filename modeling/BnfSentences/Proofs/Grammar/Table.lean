import BnfSentences.Grammar.WellFormed

/-!
# The table of a grammar

The table stays sorted while rules come in, so a name is refused exactly if it is
there. `ofDeclarations_eq_ok_iff` says which declarations make which grammar.
-/

namespace BnfSentences.Grammar

theorem bind_eq_ok_iff {α β : Type} {x : Except Error α} {f : α → Except Error β} {b : β} :
    x >>= f = .ok b ↔ ∃ a, x = .ok a ∧ f a = .ok b := by
  cases x <;> simp [bind, Except.bind]

theorem bind_eq_error_iff {α β : Type} {x : Except Error α} {f : α → Except Error β} {e : Error} :
    x >>= f = .error e ↔ x = .error e ∨ ∃ a, x = .ok a ∧ f a = .error e := by
  cases x <;> simp [bind, Except.bind]

/-! ### Sorted tables -/

theorem names_nodup {table : List Rule} (h : Sorted table) : (table.map Rule.name).Nodup := by
  refine List.pairwise_map.2 (h.imp ?_)
  intro q r hqr heq
  rw [heq, Text.precedes_irrefl] at hqr
  cases hqr

theorem eq_of_perm {s t : List Rule} (hs : Sorted s) (ht : Sorted t) (h : s.Perm t) : s = t := by
  refine List.Perm.eq_of_pairwise ?_ hs ht h
  intro q r _ _ hqr hrq
  have := Text.precedes_trans hqr hrq
  rw [Text.precedes_irrefl] at this
  cases this

theorem insert_perm {r : Rule} {table table' : List Rule} (h : insert r table = some table') :
    table'.Perm (r :: table) := by
  fun_induction insert r table generalizing table' with
  | case1 => rw [← Option.some.inj h]
  | case2 => rw [← Option.some.inj h]
  | case3 => cases h
  | case4 q qs _ _ ih =>
    obtain ⟨qs', hqs, rfl⟩ := Option.map_eq_some_iff.1 h
    exact ((ih hqs).cons q).trans (List.Perm.swap r q qs)

theorem insert_sorted {r : Rule} {table table' : List Rule} (hs : Sorted table)
    (h : insert r table = some table') : Sorted table' := by
  fun_induction insert r table generalizing table' with
  | case1 =>
    rw [← Option.some.inj h]
    exact List.pairwise_singleton _ _
  | case2 q qs hlt =>
    rw [← Option.some.inj h]
    refine List.pairwise_cons.2 ⟨fun p hp => ?_, hs⟩
    rcases List.mem_cons.1 hp with rfl | hp
    · exact hlt
    · exact Text.precedes_trans hlt (List.rel_of_pairwise_cons hs hp)
  | case3 => cases h
  | case4 q qs hlt hne ih =>
    obtain ⟨qs', hqs, rfl⟩ := Option.map_eq_some_iff.1 h
    refine List.pairwise_cons.2 ⟨fun p hp => ?_, ih hs.of_cons hqs⟩
    rcases List.mem_cons.1 ((insert_perm hqs).subset hp) with rfl | hp
    · exact (Text.precedes_total hne).resolve_left hlt
    · exact List.rel_of_pairwise_cons hs hp

theorem insert_eq_none_iff {r : Rule} {table : List Rule} (hs : Sorted table) :
    insert r table = none ↔ r.name ∈ table.map Rule.name := by
  fun_induction insert r table with
  | case1 => simp
  | case2 q qs hlt =>
    simp only [reduceCtorEq, false_iff]
    intro hmem
    obtain ⟨p, hp, heq⟩ := List.mem_map.1 hmem
    have hlp : Text.precedes r.name p.name := by
      rcases List.mem_cons.1 hp with rfl | hp
      · exact hlt
      · exact Text.precedes_trans hlt (List.rel_of_pairwise_cons hs hp)
    rw [heq, Text.precedes_irrefl] at hlp
    cases hlp
  | case3 q qs _ heq => simp [heq]
  | case4 q qs _ hne ih =>
    rw [Option.map_eq_none_iff, ih hs.of_cons, List.map_cons, List.mem_cons]
    simp [hne]

theorem exists_sorted_perm {rs : List Rule} (h : (rs.map Rule.name).Nodup) :
    ∃ table, Sorted table ∧ table.Perm rs := by
  induction rs with
  | nil => exact ⟨[], List.Pairwise.nil, .refl _⟩
  | cons r rs ih =>
    rw [List.map_cons, List.nodup_cons] at h
    obtain ⟨table, hs, hperm⟩ := ih h.2
    cases hins : insert r table with
    | none =>
      have htaken := (hperm.map Rule.name).subset ((insert_eq_none_iff hs).1 hins)
      exact absurd htaken h.1
    | some table' =>
      exact ⟨table', insert_sorted hs hins, (insert_perm hins).trans (hperm.cons r)⟩

/-! ### Declaring -/

theorem mem_of_map_parse_eq {ds : List Text} {rs : List Rule} (h : ds.map Rule.parse = rs.map .ok)
    {r : Rule} : r ∈ rs ↔ ∃ d ∈ ds, Rule.parse d = .ok r := by
  rw [← List.mem_map, h, List.mem_map]
  simp

theorem eq_nil_iff_of_map_parse_eq {ds : List Text} {rs : List Rule}
    (h : ds.map Rule.parse = rs.map .ok) : ds = [] ↔ rs = [] := by
  have hlength := congrArg List.length h
  rw [List.length_map, List.length_map] at hlength
  rw [← List.length_eq_zero_iff, hlength, List.length_eq_zero_iff]

theorem declare_eq_ok_iff {table table' : List Rule} {d : Text} :
    declare table d = .ok table' ↔ ∃ r, Rule.parse d = .ok r ∧ insert r table = some table' := by
  rw [declare, bind_eq_ok_iff]
  refine exists_congr fun r => and_congr_right fun _ => ?_
  cases insert r table <;> simp [throw, throwThe, MonadExceptOf.throw, pure, Except.pure]

theorem foldlM_declare_eq_ok_iff {table table' : List Rule} {ds : List Text} (hs : Sorted table) :
    ds.foldlM declare table = .ok table' ↔
      ∃ rs, ds.map Rule.parse = rs.map .ok ∧ ((rs ++ table).map Rule.name).Nodup ∧
        Sorted table' ∧ table'.Perm (rs ++ table) := by
  induction ds generalizing table with
  | nil =>
    constructor
    · intro h
      obtain rfl := Except.ok.inj h
      exact ⟨[], rfl, names_nodup hs, hs, .refl _⟩
    · rintro ⟨rs, hrs, -, hs', hperm⟩
      obtain rfl := List.map_eq_nil_iff.1 hrs.symm
      rw [eq_of_perm hs' hs hperm]
      rfl
  | cons d ds ih =>
    rw [List.foldlM_cons, bind_eq_ok_iff]
    constructor
    · rintro ⟨t, ht, h⟩
      obtain ⟨r, hr, hins⟩ := declare_eq_ok_iff.1 ht
      obtain ⟨rs, hrs, hnodup, hs', hperm⟩ := (ih (insert_sorted hs hins)).1 h
      have hmove : (rs ++ t).Perm (r :: rs ++ table) :=
        ((insert_perm hins).append_left rs).trans List.perm_middle
      exact ⟨r :: rs, by rw [List.map_cons, List.map_cons, hr, hrs],
        (hmove.map Rule.name).nodup_iff.1 hnodup, hs', hperm.trans hmove⟩
    · rintro ⟨rs, hrs, hnodup, hs', hperm⟩
      cases rs with
      | nil => cases hrs
      | cons r rs =>
        obtain ⟨hr, hrs⟩ := List.cons.inj hrs
        have hfresh : r.name ∉ table.map Rule.name := by
          intro hmem
          rw [List.cons_append, List.map_cons, List.map_append] at hnodup
          exact (List.nodup_cons.1 hnodup).1 (List.mem_append_right _ hmem)
        obtain ⟨t, hins⟩ := Option.ne_none_iff_exists'.1 (mt (insert_eq_none_iff hs).1 hfresh)
        have hmove : (rs ++ t).Perm (r :: rs ++ table) :=
          ((insert_perm hins).append_left rs).trans List.perm_middle
        exact ⟨t, declare_eq_ok_iff.2 ⟨r, hr, hins⟩, (ih (insert_sorted hs hins)).2
          ⟨rs, hrs, (hmove.map Rule.name).nodup_iff.2 hnodup, hs', hperm.trans hmove.symm⟩⟩

theorem ofDeclarations_eq_ok_iff {ds : List Text} {g : Grammar} :
    ofDeclarations ds = .ok g ↔
      ds ≠ [] ∧ ∃ rs, ds.map Rule.parse = rs.map .ok ∧ (rs.map Rule.name).Nodup ∧
        Sorted g.rules ∧ g.rules.Perm rs := by
  have hfold : ∀ table, ds.foldlM declare [] = .ok table ↔
      ∃ rs, ds.map Rule.parse = rs.map .ok ∧ (rs.map Rule.name).Nodup ∧
        Sorted table ∧ table.Perm rs := by
    intro table
    rw [foldlM_declare_eq_ok_iff List.Pairwise.nil]
    simp only [List.append_nil]
  rw [ofDeclarations, bind_eq_ok_iff]
  constructor
  · rintro ⟨table, htable, h⟩
    obtain ⟨rs, hrs, hnodup, hs, hperm⟩ := (hfold table).1 htable
    split at h
    · cases h
    · next hne =>
      obtain rfl := Except.ok.inj h
      refine ⟨?_, rs, hrs, hnodup, hs, hperm⟩
      intro hnil
      rw [(eq_nil_iff_of_map_parse_eq hrs).1 hnil] at hperm
      exact hne (List.isEmpty_iff.2 hperm.eq_nil)
  · rintro ⟨hne, rs, hrs, hnodup, hs, hperm⟩
    have hrules : ¬ g.rules.isEmpty := by
      rw [List.isEmpty_iff]
      intro hnil
      rw [hnil, List.nil_perm] at hperm
      exact hne ((eq_nil_iff_of_map_parse_eq hrs).2 hperm)
    refine ⟨g.rules, (hfold g.rules).2 ⟨rs, hrs, hnodup, hs, hperm⟩, ?_⟩
    rw [if_neg hrules]
    rfl

theorem mem_rules_iff {ds : List Text} {g : Grammar} (h : ofDeclarations ds = .ok g) {r : Rule} :
    r ∈ g.rules ↔ ∃ d ∈ ds, Rule.parse d = .ok r := by
  obtain ⟨-, rs, hrs, -, -, hperm⟩ := ofDeclarations_eq_ok_iff.1 h
  rw [hperm.mem_iff, mem_of_map_parse_eq hrs]

end BnfSentences.Grammar
