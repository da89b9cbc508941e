import BnfSentences.Proofs.Grammar.Construction
import BnfSentences.Proofs.Json.Writing

/-!
# Symbol tables as JSON

`json_decodes` says that both JSON texts of a grammar are well-formed and give back its
symbol table, whatever characters are in its names and tokens.
-/

namespace BnfSentences

/-! ### Writing loses nothing -/

theorem Production.json_injective : Function.Injective Production.json := by
  intro p q h
  have htokens := List.map_injective_iff.2 Json.text_injective (Json.arr.inj h)
  cases p
  cases q
  exact congrArg _ htokens

theorem Production.printable_json (p : Production) : Json.Printable p.json := by
  refine .arr fun v hv => ?_
  obtain ⟨t, -, rfl⟩ := List.mem_map.1 hv
  exact Json.printable_text t

namespace Rule

/-- What a rule adds to the symbol table: its name and its alternatives. -/
def entry (r : Rule) : CodePoints × Json :=
  (CodePoints.ofText r.name, .arr (r.alternatives.map Production.json))

theorem entry_injective : Function.Injective entry := by
  rintro ⟨name, alternatives⟩ ⟨name', alternatives'⟩ h
  obtain ⟨hnames, hjson⟩ := Prod.mk.inj h
  obtain rfl : name = name' := CodePoints.ofText_injective hnames
  obtain rfl : alternatives = alternatives' :=
    List.map_injective_iff.2 Production.json_injective (Json.arr.inj hjson)
  rfl

theorem printable_entry (r : Rule) : Json.Printable r.entry.2 := by
  refine .arr fun v hv => ?_
  obtain ⟨p, -, rfl⟩ := List.mem_map.1 hv
  exact p.printable_json

end Rule

namespace Grammar

theorem json_eq_entries (g : Grammar) :
    g.json = .obj [(CodePoints.ofText "rules".toList, .obj (g.rules.map Rule.entry))] := by
  unfold json Json.object
  rw [List.map_map]
  rfl

theorem json_eq_iff {g h : Grammar} : g.json = h.json ↔ g.rules = h.rules := by
  rw [json_eq_entries, json_eq_entries]
  constructor
  · intro heq
    have htables : g.rules.map Rule.entry = h.rules.map Rule.entry := by simpa using heq
    exact List.map_injective_iff.2 Rule.entry_injective htables
  · intro heq
    rw [heq]

theorem printable_json (g : Grammar) : Json.Printable g.json := by
  have hrules : Json.Printable
      (.object (g.rules.map fun r => (r.name, .arr (r.alternatives.map Production.json)))) := by
    apply Json.printable_object
    intro m hm
    obtain ⟨r, -, rfl⟩ := List.mem_map.1 hm
    exact r.printable_entry
  exact Json.printable_object (List.forall_mem_singleton.2 hrules)

/-! ### The symbol table -/

/-- The value under the one key `rules`: for every symbol the tokens of its alternatives. -/
def symbolTable (g : Grammar) : Json :=
  .obj [(CodePoints.ofText "rules".toList, .obj (g.symbols.map fun name =>
    (CodePoints.ofText name, .arr (((g.productions? name).getD []).map fun p =>
      .arr (p.tokens.map fun t => .str (CodePoints.ofText t))))))]

theorem json_eq_symbolTable {g : Grammar} (hg : g.WellFormed) : g.json = g.symbolTable := by
  rw [json_eq_entries, symbolTable, symbols, List.map_map]
  have hentries : ∀ r ∈ g.rules, r.entry =
      (CodePoints.ofText r.name, .arr (((g.productions? r.name).getD []).map fun p =>
        .arr (p.tokens.map fun t => .str (CodePoints.ofText t)))) := by
    intro r hr
    rw [hg.productions?_of_mem hr]
    rfl
  rw [List.map_congr_left hentries]
  rfl

variable {g : Grammar} {l : Json.Layout}

theorem isText_json_iff (hg : g.WellFormed) (hl : l.Blank) {v : Json} :
    Json.IsText v (Json.write l 0 g.json) ↔ v = g.symbolTable := by
  have htext := Json.isText_write hl g.printable_json
  rw [← json_eq_symbolTable hg]
  constructor
  · intro hv
    exact Json.eq_of_isText hv htext
  · rintro rfl
    exact htext

theorem read_json (hg : g.WellFormed) (hl : l.Blank) :
    Json.read (Json.write l 0 g.json) = some g.symbolTable :=
  Json.read_eq_some_of_isText ((isText_json_iff hg hl).2 rfl)

/-- Both JSON texts of a grammar are well-formed and have its symbol table for their only
value, so they tell grammars with different rules apart. -/
theorem json_decodes (hg : g.Constructed) :
    g.symbols.Nodup ∧
      (∀ name ∈ g.symbols, ∃ alternatives, g.productions? name = some alternatives) ∧
      (∀ s ∈ [g.json.compact, g.json.pretty],
        (∀ v, Json.IsText v s ↔ v = g.symbolTable) ∧ Json.read s = some g.symbolTable) ∧
      ∀ h : Grammar, (g.json.compact = h.json.compact ↔ g.rules = h.rules) ∧
        (g.json.pretty = h.json.pretty ↔ g.rules = h.rules) := by
  have hwell := constructed_iff_wellFormed.1 hg
  refine ⟨names_nodup hwell.sorted, ?_, ?_, ?_⟩
  · intro name hname
    obtain ⟨r, hr, rfl⟩ := List.mem_map.1 hname
    exact ⟨r.alternatives, hwell.productions?_of_mem hr⟩
  · intro s hs
    rcases List.mem_pair.1 hs with rfl | rfl
    · exact ⟨fun _ => isText_json_iff hwell Json.blank_compact, read_json hwell Json.blank_compact⟩
    · exact ⟨fun _ => isText_json_iff hwell Json.blank_pretty, read_json hwell Json.blank_pretty⟩
  · intro h
    rw [← json_eq_iff]
    exact ⟨Json.write_inj Json.blank_compact g.printable_json h.printable_json,
      Json.write_inj Json.blank_pretty g.printable_json h.printable_json⟩

/-- Quotation marks, control characters, and one beyond the basic plane. -/
def quoted : Grammar :=
  ⟨[⟨"\"\\".toList, [⟨["\x00\x1f\x08".toList, "😀".toList]⟩, ⟨[]⟩]⟩]⟩

theorem json_decodes_quoted :
    Grammar.ofDeclarations ["\"\\ ::= \x00\x1f\x08 😀 |".toList] = .ok quoted ∧
      quoted.json.compact =
        "\x7b\"rules\":\x7b\"\\\"\\\\\":[[\"\\u0000\\u001f\\b\",\"😀\"],[]]\x7d\x7d".toList ∧
      (∀ v, Json.IsText v quoted.json.compact ↔ v = quoted.symbolTable) ∧
      Json.read quoted.json.pretty = some quoted.symbolTable ∧
      quoted.json.compact ≠ nested.json.compact := by
  have hquoted : Grammar.ofDeclarations ["\"\\ ::= \x00\x1f\x08 😀 |".toList] = .ok quoted :=
    rfl
  obtain ⟨-, -, htexts, hother⟩ := json_decodes (.ofDeclarations hquoted)
  have hrules : quoted.rules ≠ nested.rules := by decide
  refine ⟨hquoted, by decide +kernel, (htexts _ ?_).1, (htexts _ ?_).2, ?_⟩
  · exact List.mem_pair.2 (.inl rfl)
  · exact List.mem_pair.2 (.inr rfl)
  · intro h
    exact hrules ((hother nested).1.1 h)

end Grammar

end BnfSentences
