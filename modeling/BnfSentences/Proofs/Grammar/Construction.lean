import BnfSentences.Generator.Basic
import BnfSentences.Proofs.Grammar.Declarations
import BnfSentences.Proofs.Grammar.Table
import Mathlib.Data.List.Nodup

/-!
# Constructed grammars

A grammar comes from declarations, with or without a configuration, from a text
or from a file. All of them are well-formed, and every well-formed grammar is one.
-/

namespace BnfSentences

namespace Generator

variable {fresh : ChaCha.Key} {ds : List Text} {c : Config} {gen : Generator ChaCha}

theorem declares_of_ofConfig (h : ofConfig fresh ds c = .ok gen) :
    Grammar.ofDeclarations ds = .ok gen.grammar := by
  obtain ⟨g, hg, h⟩ := Grammar.bind_eq_ok_iff.1 h
  obtain rfl := Except.ok.inj h
  exact hg

theorem source_eq_of_ofConfig {ds' : List Text} {gen' : Generator ChaCha}
    (h : ofConfig fresh ds c = .ok gen) (h' : ofConfig fresh ds' c = .ok gen') :
    gen.source = gen'.source := by
  obtain ⟨g, -, h⟩ := Grammar.bind_eq_ok_iff.1 h
  obtain ⟨g', -, h'⟩ := Grammar.bind_eq_ok_iff.1 h'
  obtain rfl := Except.ok.inj h
  obtain rfl := Except.ok.inj h'
  rfl

end Generator

namespace Grammar

/-- What the public constructors return when they succeed. -/
inductive Constructed : Grammar → Prop where
  | ofDeclarations {ds : List Text} {g : Grammar} (h : Grammar.ofDeclarations ds = .ok g) :
      Constructed g
  | ofConfig {fresh : ChaCha.Key} {ds : List Text} {c : Config} {gen : Generator ChaCha}
      (h : Generator.ofConfig fresh ds c = .ok gen) : Constructed gen.grammar
  | ofText {s : Text} {g : Grammar} (h : Grammar.ofText s = .ok g) : Constructed g
  | ofFile {file : FileContent} {g : Grammar} (h : Grammar.ofFile file = .ok g) : Constructed g

/-! ### Every constructor reads declarations -/

theorem Constructed.exists_declarations {g : Grammar} (h : g.Constructed) :
    ∃ ds, Grammar.ofDeclarations ds = .ok g := by
  cases h with
  | ofDeclarations h => exact ⟨_, h⟩
  | ofConfig h => exact ⟨_, Generator.declares_of_ofConfig h⟩
  | ofText h => exact ⟨_, h⟩
  | ofFile h =>
    obtain ⟨ds, -, h⟩ := bind_eq_ok_iff.1 h
    exact ⟨ds, h⟩

theorem wellFormed_of_ofDeclarations {ds : List Text} {g : Grammar}
    (h : Grammar.ofDeclarations ds = .ok g) : g.WellFormed := by
  obtain ⟨hne, rs, hrs, -, hs, hperm⟩ := ofDeclarations_eq_ok_iff.1 h
  refine ⟨?_, hs, ?_⟩
  · intro hnil
    rw [hnil, List.nil_perm] at hperm
    exact hne ((eq_nil_iff_of_map_parse_eq hrs).2 hperm)
  · intro r hr
    obtain ⟨d, -, hd⟩ := (mem_rules_iff h).1 hr
    exact Rule.wellFormed_of_parse hd

theorem ofDeclarations_text {g : Grammar} (hg : g.WellFormed) {rs : List Rule}
    (hrs : rs.Perm g.rules) : Grammar.ofDeclarations (rs.map Rule.text) = .ok g := by
  refine ofDeclarations_eq_ok_iff.2 ⟨?_, rs, ?_, ?_, hg.sorted, hrs.symm⟩
  · intro hnil
    rw [List.map_eq_nil_iff.1 hnil, List.nil_perm] at hrs
    exact hg.rules_ne_nil hrs
  · rw [List.map_map]
    refine List.map_congr_left fun r hr => ?_
    exact Rule.parse_text (hg.rule r (hrs.subset hr))
  · exact (hrs.map Rule.name).nodup_iff.2 (names_nodup hg.sorted)

theorem constructed_iff_wellFormed {g : Grammar} : g.Constructed ↔ g.WellFormed := by
  constructor
  · intro h
    obtain ⟨ds, hds⟩ := h.exists_declarations
    exact wellFormed_of_ofDeclarations hds
  · intro h
    exact .ofDeclarations (ofDeclarations_text h (.refl _))

/-! ### Looking symbols up -/

theorem exists_rule_of_productions? {g : Grammar} {symbol : Text} {alternatives : List Production}
    (h : g.productions? symbol = some alternatives) :
    ∃ r ∈ g.rules, r.name = symbol ∧ r.alternatives = alternatives := by
  obtain ⟨r, hr, halt⟩ := Option.map_eq_some_iff.1 h
  have hname := List.find?_some hr
  exact ⟨r, List.mem_of_find?_eq_some hr, by simpa using hname, halt⟩

theorem mem_symbols_iff {g : Grammar} {symbol : Text} :
    symbol ∈ g.symbols ↔ ∃ alternatives, g.productions? symbol = some alternatives := by
  constructor
  · intro h
    obtain ⟨r, hr, hname⟩ := List.mem_map.1 h
    cases hfind : g.rule? symbol with
    | none => exact absurd (beq_iff_eq.2 hname) (List.find?_eq_none.1 hfind r hr)
    | some q => exact ⟨q.alternatives, by rw [productions?, hfind]; rfl⟩
  · rintro ⟨alternatives, h⟩
    obtain ⟨r, hr, rfl, -⟩ := exists_rule_of_productions? h
    exact List.mem_map_of_mem hr

theorem WellFormed.productions?_of_mem {g : Grammar} (hg : g.WellFormed) {r : Rule}
    (hr : r ∈ g.rules) : g.productions? r.name = some r.alternatives := by
  cases hfind : g.rules.find? (·.name == r.name) with
  | none => exact absurd (beq_self_eq_true r.name) (List.find?_eq_none.1 hfind r hr)
  | some q =>
    have hq := List.mem_of_find?_eq_some hfind
    have hname : q.name = r.name := by simpa using List.find?_some hfind
    obtain rfl := List.inj_on_of_nodup_map (names_nodup hg.sorted) hq hr hname
    rw [productions?, rule?, hfind]
    rfl

theorem WellFormed.productions?_eq_some_iff {g : Grammar} (hg : g.WellFormed) {symbol : Text}
    {alternatives : List Production} :
    g.productions? symbol = some alternatives ↔ ⟨symbol, alternatives⟩ ∈ g.rules := by
  constructor
  · intro h
    obtain ⟨r, hr, rfl, rfl⟩ := exists_rule_of_productions? h
    exact hr
  · intro h
    exact hg.productions?_of_mem h

theorem WellFormed.alternatives_ne_nil {g : Grammar} (hg : g.WellFormed) {symbol : Text}
    {alternatives : List Production} (h : g.productions? symbol = some alternatives) :
    alternatives ≠ [] := by
  obtain ⟨r, hr, -, rfl⟩ := exists_rule_of_productions? h
  exact (hg.rule r hr).alternatives_ne_nil

theorem WellFormed.production {g : Grammar} (hg : g.WellFormed) {symbol : Text}
    {alternatives : List Production} (h : g.productions? symbol = some alternatives)
    {p : Production} (hp : p ∈ alternatives) : p.WellFormed := by
  obtain ⟨r, hr, -, rfl⟩ := exists_rule_of_productions? h
  exact (hg.rule r hr).alternative p hp

/-! ### An example -/

/-- The grammar `s ::= x s y |`, in which a blank alternative ends the nesting. -/
def nested : Grammar :=
  ⟨[⟨['s'], [⟨[['x'], ['s'], ['y']]⟩, ⟨[]⟩]⟩]⟩

theorem constructed_nested : nested.Constructed :=
  .ofDeclarations (show Grammar.ofDeclarations ["s ::= x s y |".toList] = .ok nested from rfl)

end Grammar

end BnfSentences
