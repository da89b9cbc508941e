import BnfSentences.Proofs.Derivation.Soundness

/-!
# Every tree is derived

Words that choose the alternatives of a tree in turn make the derivation follow
it. Every alternative has such a word, so the sentences that can be derived are
those of the trees: `derive_every_tree`.
-/

namespace BnfSentences

universe u

variable {σ : Type u} [Source σ]

/-! ### Sources that begin with some words -/

namespace Source

/-- The next words of a source are these. -/
def Begins (ws : List UInt32) (s : σ) : Prop :=
  take ws.length s = ws

theorem begins_append {ws vs : List UInt32} {s : σ} :
    Begins (ws ++ vs) s ↔ Begins ws s ∧ Begins vs (drop ws.length s) := by
  rw [Begins, List.length_append, take_add]
  constructor
  · intro h
    exact List.append_inj h (length_take ws.length s)
  · rintro ⟨hws, hvs⟩
    rw [show take ws.length s = ws from hws, show take vs.length (drop ws.length s) = vs from hvs]

theorem begins_tape (ws vs : List UInt32) : Begins ws (⟨ws ++ vs⟩ : Tape) :=
  (Tape.take_append ws vs).1

end Source

namespace Grammar

variable {g : Grammar}

/-! ### Blocks for the replacements of a tree -/

/-- A block that chooses the alternative of a replacement with at most `tries` words. -/
def ChoosesWithin (g : Grammar) (tries : Nat) (e : Expansion) (block : List UInt32) : Prop :=
  g.Chooses e block ∧ block.length ≤ tries

theorem forall₂_append_left_iff {R : Expansion → List UInt32 → Prop} {es fs : List Expansion}
    {bs : List (List UInt32)} :
    List.Forall₂ R (es ++ fs) bs ↔
      ∃ cs ds, bs = cs ++ ds ∧ List.Forall₂ R es cs ∧ List.Forall₂ R fs ds := by
  constructor
  · intro h
    induction es generalizing bs with
    | nil => exact ⟨[], bs, rfl, .nil, h⟩
    | cons e es ih =>
      obtain ⟨b, bs', hb, hrest, rfl⟩ := List.forall₂_cons_left_iff.1 h
      obtain ⟨cs, ds, rfl, hes, hfs⟩ := ih hrest
      exact ⟨b :: cs, ds, rfl, .cons hb hes, hfs⟩
  · rintro ⟨cs, ds, rfl, hes, hfs⟩
    exact List.rel_append hes hfs

theorem pick_of_chooses {tries : Nat} {symbol : Text} {p : Production} {block : List UInt32}
    {alternatives : List Production} {s : σ} (hdecl : g.productions? symbol = some alternatives)
    (h : g.ChoosesWithin tries ⟨symbol, p⟩ block) (hs : Source.Begins block s) :
    Choice.pick tries alternatives s = some (p, block.length, Source.drop block.length s) := by
  obtain ⟨⟨alternatives', hdecl', i, hi, hselects⟩, htries⟩ := h
  obtain rfl := Option.some.inj (hdecl'.symm.trans hdecl)
  refine Choice.pick_eq_some_iff.2 ⟨i, hi, htries, ?_, rfl⟩
  rw [show Source.take block.length s = block from hs]
  exact hselects

/-! ### Following a tree -/

/-- What a tree derives with words that fall into these blocks. -/
def derivationOf (ls : List Text) (es : List Expansion) (blocks : List (List UInt32)) :
    Derivation :=
  ⟨[' '].intercalate ls, es, blocks.flatten.length⟩

theorem ofTokens_of_trees {expand : Text → σ → Option (Derivation × σ)} {tries : Nat}
    {cs : List Tree} (hleaves : ∀ c ∈ cs, ∀ l ∈ c.leaves, l ≠ [])
    (hexpand : ∀ c ∈ cs, ∀ blocks s, List.Forall₂ (g.ChoosesWithin tries) c.trace blocks →
      Source.Begins blocks.flatten s → expand c.root s =
        some (derivationOf c.leaves c.trace blocks, Source.drop blocks.flatten.length s))
    {blocks : List (List UInt32)} {s : σ}
    (hblocks : List.Forall₂ (g.ChoosesWithin tries) (cs.flatMap Tree.trace) blocks)
    (hs : Source.Begins blocks.flatten s) :
    Derivation.ofTokens expand (cs.map Tree.root) s =
      some (derivationOf (cs.flatMap Tree.leaves) (cs.flatMap Tree.trace) blocks,
        Source.drop blocks.flatten.length s) := by
  induction cs generalizing blocks s with
  | nil =>
    obtain rfl := List.forall₂_nil_left_iff.1 hblocks
    rfl
  | cons c cs ih =>
    rw [List.flatMap_cons] at hblocks
    obtain ⟨bs, ds, rfl, hbs, hds⟩ := forall₂_append_left_iff.1 hblocks
    rw [List.flatten_append, Source.begins_append] at hs
    have hfirst := hexpand c List.mem_cons_self bs s hbs hs.1
    have hothers := ih (fun d hd => hleaves d (List.mem_cons_of_mem c hd))
      (fun d hd => hexpand d (List.mem_cons_of_mem c hd)) hds hs.2
    have hrest : ∀ l ∈ cs.flatMap Tree.leaves, l ≠ [] := by
      intro l hl
      obtain ⟨d, hd, hl⟩ := List.mem_flatMap.1 hl
      exact hleaves d (List.mem_cons_of_mem c hd) l hl
    rw [← Source.drop_add, ← List.length_append, ← List.flatten_append] at hothers
    rw [List.map_cons, Derivation.ofTokens_cons_eq_some_iff]
    refine ⟨_, _, _, hfirst, hothers, ?_⟩
    rw [derivationOf, derivationOf, derivationOf, Derivation.followedBy,
      Text.spaced_intercalate (hleaves c List.mem_cons_self) hrest, List.flatten_append,
      List.length_append, List.flatMap_cons, List.flatMap_cons]

theorem expand_of_tree (hg : g.WellFormed) {t : Tree} (ht : g.HasTree t) (hroot : t.root ≠ [])
    {tries depth : Nat} (hdepth : t.height ≤ depth) {blocks : List (List UInt32)} {s : σ}
    (hblocks : List.Forall₂ (g.ChoosesWithin tries) t.trace blocks)
    (hs : Source.Begins blocks.flatten s) :
    g.expand tries depth t.root s =
      some (derivationOf t.leaves t.trace blocks, Source.drop blocks.flatten.length s) := by
  -- One block for the root, then those of the children in the order of their traces.
  induction ht generalizing depth blocks s with
  | @leaf symbol hterm =>
    rw [Tree.trace_leaf] at hblocks
    obtain rfl := List.forall₂_nil_left_iff.1 hblocks
    rw [Tree.height] at hdepth
    obtain ⟨depth, rfl⟩ : ∃ k, depth = k + 1 := ⟨depth - 1, by omega⟩
    rw [Tree.root, expand_eq_some_iff hg, derivationOf, Tree.leaves_leaf, Tree.trace_leaf,
      List.intercalate_singleton]
    exact .inl ⟨hterm, rfl, rfl⟩
  | @node symbol alternatives p children declared mem tokens trees ih =>
    rw [Tree.trace_node] at hblocks
    obtain ⟨block, blocks', hblock, hothers, rfl⟩ := List.forall₂_cons_left_iff.1 hblocks
    rw [List.flatten_cons, Source.begins_append] at hs
    rw [Tree.height] at hdepth
    obtain ⟨depth, rfl⟩ : ∃ k, depth = k + 1 := ⟨depth - 1, by omega⟩
    have htoken : ∀ c ∈ children, c.root ≠ [] := by
      intro c hc
      exact (hg.production declared mem).token_ne_nil _ (Tree.root_mem_tokens tokens hc)
    have hchildren := ofTokens_of_trees
      (fun c hc => (trees c hc).leaf_ne_nil hg (htoken c hc))
      (fun c hc blocks s => ih c hc (htoken c hc)
        (Nat.le_trans (Tree.height_le_heightOf hc) (Nat.le_of_succ_le_succ hdepth)))
      hothers hs.2
    rw [tokens, ← Source.drop_add] at hchildren
    rw [Tree.root, expand_eq_some_iff hg, List.flatten_cons, List.length_append]
    have hpick := pick_of_chooses declared hblock hs.1
    refine .inr ⟨alternatives, p, _, _, _, declared, hpick, hchildren, ?_⟩
    rw [derivationOf, derivationOf, Derivation.under, Tree.leaves_node, Tree.trace_node,
      List.flatten_cons, List.length_append]

/-! ### Words for a tree -/

theorem HasTree.exists_words (hn : ∀ r ∈ g.rules, r.alternatives.length < UInt32.size)
    {t : Tree} (ht : g.HasTree t) :
    ∃ ws, List.Forall₂ (fun e w => g.Chooses e [w]) t.trace ws := by
  have hword : ∀ e ∈ t.trace, ∃ w, g.Chooses e [w] := by
    intro e he
    obtain ⟨alternatives, hdecl, hmem⟩ := ht.declared_of_mem_trace he
    obtain ⟨r, hr, -, rfl⟩ := exists_rule_of_productions? hdecl
    obtain ⟨i, hi, hget⟩ := List.getElem_of_mem hmem
    obtain ⟨w, hw⟩ := Choice.exists_index?_eq_some (hn r hr) ⟨i, hi⟩
    exact ⟨w, _, hdecl, ⟨i, hi⟩, hget, Choice.selects_singleton hw⟩
  generalize t.trace = es at hword
  induction es with
  | nil => exact ⟨[], .nil⟩
  | cons e es ih =>
    obtain ⟨w, hw⟩ := hword e List.mem_cons_self
    obtain ⟨ws, hws⟩ := ih fun f hf => hword f (List.mem_cons_of_mem e hf)
    exact ⟨w :: ws, .cons hw hws⟩

theorem derive_of_words (hg : g.WellFormed) {t : Tree} (ht : g.HasTree t) (hroot : t.root ≠ [])
    {ws : List UInt32} (hws : List.Forall₂ (fun e w => g.Chooses e [w]) t.trace ws)
    {lim : Limits} {s : σ} (hdepth : t.height ≤ lim.depth) (htries : 0 < lim.tries)
    (hs : Source.Begins ws s) :
    g.derive lim t.root s =
      .ok (⟨t.sentence, t.trace, ws.length⟩, Source.drop ws.length s) := by
  have hflat : (ws.map ([·])).flatten = ws := List.flatMap_singleton' ws
  have hblocks : List.Forall₂ (g.ChoosesWithin lim.tries) t.trace (ws.map ([·])) :=
    List.forall₂_map_right_iff.2 (hws.imp fun e w hw => ⟨hw, htries⟩)
  have hexpand := expand_of_tree hg ht hroot hdepth hblocks (s := s) (by rwa [hflat])
  rw [derivationOf, hflat] at hexpand
  exact derive_eq_ok_iff.2 ⟨hroot, hexpand⟩

/-! ### What can be derived -/

/-- Some source makes a derivation from a symbol return this. -/
def Returns (g : Grammar) (symbol : Text) (d : Derivation) : Prop :=
  ∃ (τ : Type) (_ : Source τ) (lim : Limits) (s s' : τ), g.derive lim symbol s = .ok (d, s')

theorem returns_of_tree (hg : g.WellFormed)
    (hn : ∀ r ∈ g.rules, r.alternatives.length < UInt32.size) {t : Tree} (ht : g.HasTree t)
    (hroot : t.root ≠ []) : ∃ d, g.Returns t.root d ∧ d.sentence = t.sentence := by
  obtain ⟨ws, hws⟩ := ht.exists_words hn
  have hs : Source.Begins ws (⟨ws ++ []⟩ : Tape) := Source.begins_tape ws []
  have hderive := @derive_of_words Tape _ g hg t ht hroot ws hws ⟨t.height, 1⟩ _
    (Nat.le_refl _) Nat.one_pos hs
  exact ⟨_, ⟨Tape, inferInstance, _, _, _, hderive⟩, rfl⟩

theorem tree_of_returns (hg : g.WellFormed) {symbol : Text} {d : Derivation}
    (h : g.Returns symbol d) :
    ∃ t : Tree, g.HasTree t ∧ t.root = symbol ∧ t.sentence = d.sentence := by
  obtain ⟨τ, _, lim, s, s', hderive⟩ := h
  obtain ⟨t, ht, hroot, hfollows⟩ := derive_follows hg hderive
  exact ⟨t, ht, hroot, hfollows.sentence.symm⟩

/-- Every tree has words, one for each replacement, that make any source derive it. So the trees
are what sources derive. -/
theorem derive_every_tree (hg : g.Constructed)
    (hn : ∀ r ∈ g.rules, r.alternatives.length < UInt32.size) {symbol : Text}
    (hsymbol : symbol ≠ []) :
    (∀ t : Tree, g.HasTree t → t.root = symbol →
      ∃ ws : List UInt32, ws.length = t.trace.length ∧
        ∀ (σ : Type u) [Source σ] (lim : Limits) (s : σ),
          t.height ≤ lim.depth → 0 < lim.tries → Source.Begins ws s →
            g.derive lim symbol s =
              .ok (⟨t.sentence, t.trace, ws.length⟩, Source.drop ws.length s)) ∧
    (∀ sentence, (∃ d, g.Returns symbol d ∧ d.sentence = sentence) ↔
      ∃ t : Tree, g.HasTree t ∧ t.root = symbol ∧ t.sentence = sentence) ∧
    ((∃ d, g.Returns symbol d) ↔ ∃ t : Tree, g.HasTree t ∧ t.root = symbol) := by
  have hwf := constructed_iff_wellFormed.1 hg
  refine ⟨?_, fun sentence => ⟨?_, ?_⟩, ?_, ?_⟩
  · rintro t ht rfl
    obtain ⟨ws, hws⟩ := ht.exists_words hn
    refine ⟨ws, hws.length_eq.symm, ?_⟩
    intro σ _ lim s hdepth htries hs
    exact derive_of_words hwf ht hsymbol hws hdepth htries hs
  · rintro ⟨d, hd, rfl⟩
    exact tree_of_returns hwf hd
  · rintro ⟨t, ht, rfl, rfl⟩
    exact returns_of_tree hwf hn ht hsymbol
  · rintro ⟨d, hd⟩
    obtain ⟨t, ht, hroot, -⟩ := tree_of_returns hwf hd
    exact ⟨t, ht, hroot⟩
  · rintro ⟨t, ht, rfl⟩
    obtain ⟨d, hd, -⟩ := returns_of_tree hwf hn ht hsymbol
    exact ⟨d, hd⟩

/-- The tree of `x y` with the blank alternative in the middle is derived with two words. -/
theorem derive_every_tree_nested :
    ∃ ws : List UInt32, ws.length = 2 ∧
      ∀ vs, nested.derive ⟨2, 1⟩ ['s'] (⟨ws ++ vs⟩ : Tape) =
        .ok (⟨['x', ' ', 'y'], [⟨['s'], ⟨[['x'], ['s'], ['y']]⟩⟩, ⟨['s'], ⟨[]⟩⟩], 2⟩, ⟨vs⟩) := by
  have hinner : nested.HasTree (.node ['s'] ⟨[]⟩ []) :=
    .node rfl (List.mem_cons_of_mem _ List.mem_cons_self) rfl (by simp)
  have htree : nested.HasTree (.node ['s'] ⟨[['x'], ['s'], ['y']]⟩
      [.leaf ['x'], .node ['s'] ⟨[]⟩ [], .leaf ['y']]) := by
    refine .node rfl List.mem_cons_self rfl ?_
    simpa using ⟨.leaf rfl, hinner, .leaf rfl⟩
  obtain ⟨ws, hlen, hderive⟩ :=
    (derive_every_tree constructed_nested (by decide) (List.cons_ne_nil 's' [])).1 _ htree rfl
  refine ⟨ws, hlen, fun vs => ?_⟩
  have h := hderive Tape ⟨2, 1⟩ ⟨ws ++ vs⟩ (by decide) (by decide) (Source.begins_tape ws vs)
  rw [(Tape.take_append ws vs).2, hlen] at h
  exact h

end Grammar

end BnfSentences
