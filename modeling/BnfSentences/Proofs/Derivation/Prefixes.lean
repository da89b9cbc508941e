import BnfSentences.Proofs.Derivation.Completeness
import BnfSentences.Proofs.Derivation.Limits

/-!
# What a derivation reads

A derivation reads one block of words for each replacement, and any other blocks that
choose the same alternatives make the same derivation: `expand_of_blocks`. So it depends
on nothing behind the words it reads, and the words that it rejects can be left out.
-/

namespace BnfSentences

universe u v

variable {σ : Type u} {τ : Type v}

namespace Derivation

/-- The derivation that reads these blocks of words instead of its own. -/
def reading (d : Derivation) (blocks : List (List UInt32)) : Derivation :=
  { d with draws := blocks.flatten.length }

theorem reading_followedBy (d e : Derivation) (bs cs : List (List UInt32)) :
    (d.reading bs).followedBy (e.reading cs) = (d.followedBy e).reading (bs ++ cs) := by
  simp [reading, followedBy]

theorem reading_under (d : Derivation) (symbol : Text) (p : Production) (drawn : Nat)
    (b : List UInt32) (bs : List (List UInt32)) :
    (d.reading bs).under symbol p b.length = (d.under symbol p drawn).reading (b :: bs) := by
  simp [reading, under]

end Derivation

namespace Grammar

variable [Source σ] [Source τ] {g : Grammar}

/-! ### The blocks of a run -/

/-- A run reads these blocks, one for each replacement, and nothing behind them. -/
structure Reads (g : Grammar) (tries : Nat) (blocks : List (List UInt32)) (d : Derivation)
    (s s' : σ) : Prop where
  chooses : List.Forall₂ (g.ChoosesWithin tries) d.trace blocks
  draws : d.draws = blocks.flatten.length
  begins : Source.Begins blocks.flatten s
  rest : s' = Source.drop d.draws s

namespace Reads

variable {tries : Nat}

theorem none {d : Derivation} (htrace : d.trace = []) (hdraws : d.draws = 0) (s : σ) :
    g.Reads tries [] d s s := by
  refine ⟨?_, hdraws, rfl, ?_⟩
  · rw [htrace]
    exact .nil
  · rw [hdraws]
    rfl

theorem followedBy {bs cs : List (List UInt32)} {d e : Derivation} {s s₁ s₂ : σ}
    (h : g.Reads tries bs d s s₁) (h' : g.Reads tries cs e s₁ s₂) :
    g.Reads tries (bs ++ cs) (d.followedBy e) s s₂ where
  chooses := List.rel_append h.chooses h'.chooses
  draws := by rw [Derivation.followedBy, h.draws, h'.draws, List.flatten_append, List.length_append]
  begins := by
    rw [List.flatten_append, Source.begins_append, ← h.draws, ← h.rest]
    exact ⟨h.begins, h'.begins⟩
  rest := by
    rw [Derivation.followedBy, Source.drop_add, ← h.rest]
    exact h'.rest

theorem under {bs : List (List UInt32)} {d : Derivation} {s s₁ s₂ : σ} {symbol : Text}
    {p : Production} {drawn : Nat}
    (hchooses : g.ChoosesWithin tries ⟨symbol, p⟩ (Source.take drawn s))
    (hrest : s₁ = Source.drop drawn s) (h : g.Reads tries bs d s₁ s₂) :
    g.Reads tries (Source.take drawn s :: bs) (d.under symbol p drawn) s s₂ where
  chooses := .cons hchooses h.chooses
  draws := by
    rw [Derivation.under, h.draws, List.flatten_cons, List.length_append, Source.length_take]
  begins := by
    rw [List.flatten_cons, Source.begins_append, Source.length_take, ← hrest]
    exact ⟨by rw [Source.Begins, Source.length_take], h.begins⟩
  rest := by
    rw [Derivation.under, Source.drop_add, ← hrest]
    exact h.rest

end Reads

theorem ofTokens_reads {expand : Text → σ → Option (Derivation × σ)} {tries : Nat}
    (hexpand : ∀ t s d s', expand t s = some (d, s') → ∃ blocks, g.Reads tries blocks d s s')
    {ts : List Text} {s s' : σ} {d : Derivation}
    (h : Derivation.ofTokens expand ts s = some (d, s')) :
    ∃ blocks, g.Reads tries blocks d s s' := by
  induction ts generalizing s d with
  | nil =>
    obtain ⟨rfl, rfl⟩ := Derivation.ofTokens_nil_eq_some_iff.1 h
    exact ⟨[], .none rfl rfl s'⟩
  | cons t ts ih =>
    obtain ⟨d₁, s₁, d₂, hfirst, hothers, rfl⟩ := Derivation.ofTokens_cons_eq_some_iff.1 h
    obtain ⟨bs, hbs⟩ := hexpand t s d₁ s₁ hfirst
    obtain ⟨cs, hcs⟩ := ih hothers
    exact ⟨bs ++ cs, hbs.followedBy hcs⟩

theorem expand_reads (hg : g.WellFormed) {tries depth : Nat} {symbol : Text} {s s' : σ}
    {d : Derivation} (h : g.expand tries depth symbol s = some (d, s')) :
    ∃ blocks, g.Reads tries blocks d s s' := by
  induction depth generalizing symbol s s' d with
  | zero => cases h
  | succ depth ih =>
    rcases (expand_eq_some_iff hg).1 h with
      ⟨-, rfl, rfl⟩ | ⟨alternatives, p, drawn, s₁, e, hdecl, hpick, htokens, rfl⟩
    · exact ⟨[], .none rfl rfl s'⟩
    · obtain ⟨i, hi, htries, hselects, hrest⟩ := Choice.pick_eq_some_iff.1 hpick
      obtain ⟨bs, hbs⟩ := ofTokens_reads (fun t s d s' ht => ih ht) htokens
      refine ⟨_, hbs.under ⟨⟨alternatives, hdecl, i, hi, hselects⟩, ?_⟩ hrest⟩
      rwa [Source.length_take]

/-! ### Other blocks with the same choices -/

omit [Source σ] in
theorem ofTokens_of_blocks {expand : Text → σ → Option (Derivation × σ)}
    {expand' : Text → τ → Option (Derivation × τ)} {tries : Nat}
    {ts : List Text} {s s' : σ} {d : Derivation}
    (h : Derivation.ofTokens expand ts s = some (d, s'))
    (hexpand : ∀ u s d s', expand u s = some (d, s') → ∀ blocks (t : τ),
      List.Forall₂ (g.ChoosesWithin tries) d.trace blocks → Source.Begins blocks.flatten t →
        expand' u t = some (d.reading blocks, Source.drop blocks.flatten.length t))
    {blocks : List (List UInt32)} {t : τ}
    (hblocks : List.Forall₂ (g.ChoosesWithin tries) d.trace blocks)
    (ht : Source.Begins blocks.flatten t) :
    Derivation.ofTokens expand' ts t =
      some (d.reading blocks, Source.drop blocks.flatten.length t) := by
  induction ts generalizing s d blocks t with
  | nil =>
    obtain ⟨rfl, -⟩ := Derivation.ofTokens_nil_eq_some_iff.1 h
    obtain rfl := List.forall₂_nil_left_iff.1 hblocks
    rfl
  | cons u ts ih =>
    obtain ⟨d₁, s₁, d₂, hfirst, hothers, rfl⟩ := Derivation.ofTokens_cons_eq_some_iff.1 h
    obtain ⟨bs, cs, rfl, hbs, hcs⟩ := forall₂_append_left_iff.1 hblocks
    rw [List.flatten_append, Source.begins_append] at ht
    have hfirst' := hexpand u s d₁ s₁ hfirst bs t hbs ht.1
    have hothers' := ih hothers hcs ht.2
    rw [← Source.drop_add, ← List.length_append, ← List.flatten_append] at hothers'
    rw [Derivation.ofTokens_cons_eq_some_iff]
    exact ⟨_, _, _, hfirst', hothers', (Derivation.reading_followedBy d₁ d₂ bs cs).symm⟩

theorem expand_of_blocks (hg : g.WellFormed) {tries tries' depth : Nat} {symbol : Text}
    {s s' : σ} {d : Derivation} (h : g.expand tries depth symbol s = some (d, s'))
    {blocks : List (List UInt32)} {t : τ}
    (hblocks : List.Forall₂ (g.ChoosesWithin tries') d.trace blocks)
    (ht : Source.Begins blocks.flatten t) :
    g.expand tries' depth symbol t =
      some (d.reading blocks, Source.drop blocks.flatten.length t) := by
  induction depth generalizing symbol s s' d blocks t with
  | zero => cases h
  | succ depth ih =>
    rw [expand_eq_some_iff hg]
    rcases (expand_eq_some_iff hg).1 h with
      ⟨hterm, rfl, rfl⟩ | ⟨alternatives, p, drawn, s₁, e, hdecl, hpick, htokens, rfl⟩
    · obtain rfl := List.forall₂_nil_left_iff.1 hblocks
      exact .inl ⟨hterm, rfl, rfl⟩
    · obtain ⟨b, bs, hb, hbs, rfl⟩ := List.forall₂_cons_left_iff.1 hblocks
      rw [List.flatten_cons, Source.begins_append] at ht
      have hpick' := pick_of_chooses hdecl hb ht.1
      have htokens' := ofTokens_of_blocks htokens (fun u s d s' hu _ _ => ih hu) hbs ht.2
      rw [← Source.drop_add, ← List.length_append, ← List.flatten_cons] at htokens'
      exact .inr ⟨alternatives, p, b.length, _, _, hdecl, hpick', htokens',
        (Derivation.reading_under e symbol p drawn b bs).symm⟩

/-! ### Sources that agree -/

theorem derive_reads (hg : g.WellFormed) {lim : Limits} {symbol : Text} {s s' : σ}
    {d : Derivation} (h : g.derive lim symbol s = .ok (d, s')) :
    ∃ blocks, g.Reads lim.tries blocks d s s' :=
  expand_reads hg (derive_eq_ok_iff.1 h).2

theorem derive_of_blocks (hg : g.WellFormed) {lim : Limits} {symbol : Text} {s s' : σ}
    {d : Derivation} (h : g.derive lim symbol s = .ok (d, s')) {blocks : List (List UInt32)}
    (hblocks : List.Forall₂ (g.ChoosesWithin lim.tries) d.trace blocks) {t : τ}
    (ht : Source.Begins blocks.flatten t) :
    g.derive lim symbol t = .ok (d.reading blocks, Source.drop blocks.flatten.length t) := by
  obtain ⟨hsymbol, hexpand⟩ := derive_eq_ok_iff.1 h
  exact derive_eq_ok_iff.2 ⟨hsymbol, expand_of_blocks hg hexpand hblocks ht⟩

theorem derive_of_agree (hg : g.WellFormed) {lim : Limits} {symbol : Text} {s s' : σ}
    {d : Derivation} (h : g.derive lim symbol s = .ok (d, s')) {t : τ}
    (ht : Source.take d.draws t = Source.take d.draws s) :
    g.derive lim symbol t = .ok (d, Source.drop d.draws t) := by
  obtain ⟨blocks, hchooses, hdraws, hbegins, -⟩ := derive_reads hg h
  have hbegins' : Source.Begins blocks.flatten t := by
    rw [Source.Begins, ← hdraws, ht, hdraws]
    exact hbegins
  have hsame : d.reading blocks = d := by rw [Derivation.reading, ← hdraws]
  have hderive := derive_of_blocks hg h hchooses hbegins'
  rwa [hsame, ← hdraws] at hderive

/-- The limits have no part in what a derivation returns. -/
theorem derive_unique (hg : g.WellFormed) {lim lim' : Limits} {symbol : Text} {s : σ}
    {r r' : Derivation × σ} (h : g.derive lim symbol s = .ok r)
    (h' : g.derive lim' symbol s = .ok r') : r = r' := by
  obtain ⟨hsymbol, hexpand⟩ := derive_eq_ok_iff.1 h
  obtain ⟨-, hexpand'⟩ := derive_eq_ok_iff.1 h'
  have hwide := expand_mono hg (Nat.le_max_left lim.tries lim'.tries)
    (Nat.le_max_left lim.depth lim'.depth) hexpand
  have hwide' := expand_mono hg (Nat.le_max_right lim.tries lim'.tries)
    (Nat.le_max_right lim.depth lim'.depth) hexpand'
  exact Option.some.inj (hwide.symm.trans hwide')

theorem take_eq_of_begins (hg : g.WellFormed) {lim lim' : Limits} {symbol : Text} {s s' : σ}
    {t t' : τ} {d e : Derivation} (h : g.derive lim symbol s = .ok (d, s'))
    (h' : g.derive lim' symbol t = .ok (e, t'))
    (hbefore : Source.take d.draws s <+: Source.take e.draws t) :
    Source.take d.draws s = Source.take e.draws t := by
  have hle : d.draws ≤ e.draws := by simpa using hbefore.length_le
  have hsplit : Source.take d.draws t <+: Source.take e.draws t := by
    rw [← Nat.add_sub_of_le hle, Source.take_add]
    exact List.prefix_append _ _
  have hagree : Source.take d.draws t = Source.take d.draws s := by
    have hboth := List.prefix_of_prefix_length_le hsplit hbefore (by simp)
    exact hboth.eq_of_length (by simp)
  -- The shorter run would also return on the longer one's source, and there is one result.
  have hderive := derive_of_agree hg h hagree
  have hsame := congrArg Prod.fst (derive_unique hg hderive h')
  rw [← hagree, show d = e from hsame]

/-! ### Without the rejected words -/

def rejects (g : Grammar) (e : Expansion) (w : UInt32) : Bool :=
  (g.productions? e.symbol).any fun alternatives => (Choice.index? alternatives.length w).isNone

/-- The words that are left when those are deleted that a replacement rejects before it
takes one. -/
def acceptedWords (g : Grammar) : List UInt32 → List Expansion → List UInt32
  | [], _ => []
  | _ :: _, [] => []
  | w :: ws, e :: es =>
    if g.rejects e w then g.acceptedWords ws (e :: es) else w :: g.acceptedWords ws es

theorem acceptedWords_sublist (ws : List UInt32) (es : List Expansion) :
    (g.acceptedWords ws es).Sublist ws := by
  fun_induction acceptedWords g ws es with
  | case1 => exact .slnil
  | case2 => exact List.nil_sublist _
  | case3 w ws e es _ ih => exact ih.cons w
  | case4 w ws e es _ ih => exact ih.cons_cons w

theorem acceptedWords_block {tries : Nat} {e : Expansion} {b : List UInt32}
    (h : g.ChoosesWithin tries e b) :
    ∃ w, g.ChoosesWithin tries e [w] ∧
      ∀ ws es, g.acceptedWords (b ++ ws) (e :: es) = w :: g.acceptedWords ws es := by
  obtain ⟨⟨alternatives, hdecl, i, hi, rejected, w, rfl, hrejected, haccepted⟩, htries⟩ := h
  rw [List.length_append, List.length_singleton] at htries
  have hchooses : g.Chooses e [w] :=
    ⟨alternatives, hdecl, i, hi, Choice.selects_singleton haccepted⟩
  refine ⟨w, ⟨hchooses, by rw [List.length_singleton]; omega⟩, fun ws es => ?_⟩
  clear htries
  induction rejected with
  | nil => simp [acceptedWords, rejects, hdecl, haccepted]
  | cons v rejected ih =>
    obtain ⟨hv, hothers⟩ := List.forall_mem_cons.1 hrejected
    have hrejects : g.rejects e v := by simp [rejects, hdecl, hv]
    rw [List.cons_append, List.cons_append, acceptedWords, if_pos hrejects]
    exact ih hothers

theorem acceptedWords_flatten {tries : Nat} {es : List Expansion}
    {blocks : List (List UInt32)} (h : List.Forall₂ (g.ChoosesWithin tries) es blocks) :
    List.Forall₂ (g.ChoosesWithin tries) es
      ((g.acceptedWords blocks.flatten es).map ([·])) := by
  induction h with
  | nil => exact .nil
  | cons hb _ ih =>
    obtain ⟨w, hw, haccepted⟩ := acceptedWords_block hb
    rw [List.flatten_cons, haccepted, List.map_cons]
    exact .cons hw ih

/-- A derivation is fixed by the words it draws, whatever comes behind them, and stays the same
without the words that are rejected. -/
theorem derive_of_words_read (hg : g.Constructed) {lim : Limits} {symbol : Text} {s s' : σ}
    {d : Derivation} (h : g.derive lim symbol s = .ok (d, s')) :
    s' = Source.drop d.draws s ∧
    (∀ t : τ, Source.take d.draws t = Source.take d.draws s →
      g.derive lim symbol t = .ok (d, Source.drop d.draws t)) ∧
    (∀ (lim' : Limits) (t t' : τ) (e : Derivation), g.derive lim' symbol t = .ok (e, t') →
      Source.take d.draws s <+: Source.take e.draws t ∨
        Source.take e.draws t <+: Source.take d.draws s →
      Source.take d.draws s = Source.take e.draws t) ∧
    (g.acceptedWords (Source.take d.draws s) d.trace).Sublist (Source.take d.draws s) ∧
    (g.acceptedWords (Source.take d.draws s) d.trace).length = d.trace.length ∧
    ∀ t : τ, Source.Begins (g.acceptedWords (Source.take d.draws s) d.trace) t →
      g.derive lim symbol t =
        .ok ({ d with draws := d.trace.length }, Source.drop d.trace.length t) := by
  have hwf := constructed_iff_wellFormed.1 hg
  obtain ⟨blocks, hchooses, hdraws, hbegins, hrest⟩ := derive_reads hwf h
  have hwords : Source.take d.draws s = blocks.flatten := by
    rw [hdraws]
    exact hbegins
  have haccepted := acceptedWords_flatten hchooses
  have hlength := haccepted.length_eq
  rw [List.length_map] at hlength
  refine ⟨hrest, fun t ht => derive_of_agree hwf h ht, ?_, acceptedWords_sublist _ _, ?_, ?_⟩
  · rintro lim' t t' e h' (hbefore | hbefore)
    · exact take_eq_of_begins hwf h h' hbefore
    · exact (take_eq_of_begins hwf h' h hbefore).symm
  · rw [hwords, hlength]
  · intro t ht
    have hflat : ((g.acceptedWords blocks.flatten d.trace).map ([·])).flatten =
        g.acceptedWords blocks.flatten d.trace := List.flatMap_singleton' _
    have hderive := derive_of_blocks hwf h haccepted (t := t) (by rwa [hflat, ← hwords])
    rwa [Derivation.reading, hflat, ← hlength] at hderive

def replacementsOfXY : List Expansion :=
  [⟨['s'], ⟨[['x'], ['s'], ['y']]⟩⟩, ⟨['s'], ⟨[]⟩⟩]

/-- The second of three words is rejected: without it the others make the same sentence. -/
theorem derive_of_words_read_nested :
    (∀ vs, nested.derive ⟨2, 2⟩ ['s'] (⟨[0, 0x40000000, 0x80000000] ++ vs⟩ : Tape) =
      .ok (⟨['x', ' ', 'y'], replacementsOfXY, 3⟩, ⟨vs⟩)) ∧
    nested.acceptedWords [0, 0x40000000, 0x80000000] replacementsOfXY = [0, 0x80000000] ∧
    ∀ vs, nested.derive ⟨2, 2⟩ ['s'] (⟨[0, 0x80000000] ++ vs⟩ : Tape) =
      .ok (⟨['x', ' ', 'y'], replacementsOfXY, 2⟩, ⟨vs⟩) := by
  have hderive : nested.derive ⟨2, 2⟩ ['s'] (⟨[0, 0x40000000, 0x80000000]⟩ : Tape) =
      .ok (⟨['x', ' ', 'y'], replacementsOfXY, 3⟩, ⟨[]⟩) := rfl
  obtain ⟨-, hagree, -, -, -, hkept⟩ :=
    @derive_of_words_read Tape Tape _ _ nested constructed_nested _ _ _ _ _ hderive
  refine ⟨fun vs => ?_, rfl, fun vs => ?_⟩
  · exact hagree ⟨[0, 0x40000000, 0x80000000] ++ vs⟩ rfl
  · exact hkept ⟨[0, 0x80000000] ++ vs⟩ rfl

end Grammar

end BnfSentences
