import BnfSentences.Proofs.Derivation.Soundness
import BnfSentences.Proofs.Derivation.Traces

/-!
# Replay of a trace

An event shows a replacement as it is reported: the symbol, and the alternative as one text.
It concerns the first symbol of its name that is still to be derived, since the symbols in
front of that one are terminals. So the events of a derivation and the symbol that it starts
from give the sentence back, without the grammar or the source: `sentence_of_events`.
-/

namespace BnfSentences

universe u v

/-! ### Events -/

/-- A replacement as it is reported, its alternative written as a text. -/
structure Event where
  symbol : Text
  alternative : Text
  deriving DecidableEq

def Expansion.event (e : Expansion) : Event :=
  ⟨e.symbol, e.production.text⟩

def Derivation.events (d : Derivation) : List Event :=
  d.trace.map Expansion.event

namespace Event

def passes (e : Event) (symbol : Text) : Bool :=
  symbol != e.symbol

/-- The terminals that these symbols come to by these events. Each event replaces the first
symbol of its name by the words of its alternative, and what stands in front of that stays. -/
def replay : List Event → List Text → List Text
  | [], symbols => symbols
  | e :: es, symbols =>
    symbols.takeWhile e.passes ++
      replay es (Text.words e.alternative ++ (symbols.dropWhile e.passes).tail)

def sentence (symbol : Text) (es : List Event) : Text :=
  [' '].intercalate (replay es [symbol])

/-! ### One event -/

theorem replay_of_passes {symbol : Text} {es : List Event} (h : ∀ e ∈ es.head?, e.passes symbol)
    (symbols : List Text) : replay es (symbol :: symbols) = symbol :: replay es symbols := by
  cases es with
  | nil => rfl
  | cons e es =>
    have hpasses := h e rfl
    rw [replay, replay, List.takeWhile_cons_of_pos hpasses, List.dropWhile_cons_of_pos hpasses,
      List.cons_append]

theorem replay_event {e : Expansion} (h : e.production.WellFormed) (es : List Event)
    (symbols : List Text) :
    replay (e.event :: es) (e.symbol :: symbols) = replay es (e.production.tokens ++ symbols) := by
  have hself : ¬ e.event.passes e.symbol := by simp [passes, Expansion.event]
  have hwords : Text.words e.event.alternative = e.production.tokens := by
    apply Text.words_intercalate
    intro t ht
    exact ⟨h.token_ne_nil t ht, h.token_no_gap t ht⟩
  rw [replay, List.takeWhile_cons_of_neg hself, List.dropWhile_cons_of_neg hself, hwords]
  rfl

end Event

namespace Grammar

open Event

variable {g : Grammar}

/-! ### Replaying a tree -/

/-- The events of a tree replace its root by its leaves, whatever is to be derived after it. -/
def Replays (g : Grammar) (t : Tree) : Prop :=
  ∀ ⦃es : List Expansion⦄ (symbols : List Text), g.Declares es →
    replay ((t.trace ++ es).map Expansion.event) (t.root :: symbols) =
      t.leaves ++ replay (es.map Expansion.event) symbols

theorem replays_leaf {symbol : Text} (hterm : g.productions? symbol = none) :
    g.Replays (.leaf symbol) := by
  intro es symbols hes
  rw [Tree.trace_leaf, Tree.leaves_leaf, List.nil_append]
  apply replay_of_passes
  intro e he
  rw [List.head?_map] at he
  obtain ⟨x, hx, rfl⟩ := Option.map_eq_some_iff.1 he
  -- the next event replaces a declared symbol, which a terminal is not
  have hdecl := hes x (List.mem_of_head? hx)
  apply bne_iff_ne.2
  intro hsymbol
  rw [← show symbol = x.symbol from hsymbol] at hdecl
  exact hdecl hterm

theorem replay_row {ts : List Tree} (hts : ∀ t ∈ ts, g.HasTree t) (h : ∀ t ∈ ts, g.Replays t)
    {es : List Expansion} (symbols : List Text) (hes : g.Declares es) :
    replay ((ts.flatMap Tree.trace ++ es).map Expansion.event) (ts.map Tree.root ++ symbols) =
      ts.flatMap Tree.leaves ++ replay (es.map Expansion.event) symbols := by
  induction ts with
  | nil => rfl
  | cons t ts ih =>
    obtain ⟨-, htrees⟩ := List.forall_mem_cons.1 hts
    obtain ⟨hfirst, hothers⟩ := List.forall_mem_cons.1 h
    have hafter : g.Declares (ts.flatMap Tree.trace ++ es) :=
      declares_append_iff.2 ⟨declares_flatMap_trace htrees, hes⟩
    rw [List.flatMap_cons, List.flatMap_cons, List.append_assoc, List.append_assoc, List.map_cons,
      List.cons_append, hfirst _ hafter, ih htrees hothers]

theorem HasTree.replays (hg : g.WellFormed) {t : Tree} (ht : g.HasTree t) : g.Replays t := by
  induction ht with
  | leaf hterm => exact replays_leaf hterm
  | @node symbol alternatives p children declared mem tokens trees ih =>
    intro es symbols hes
    rw [Tree.trace_node, Tree.leaves_node, List.cons_append, List.map_cons]
    rw [Tree.root, replay_event (e := ⟨symbol, p⟩) (hg.production declared mem), ← tokens]
    exact replay_row trees ih symbols hes

theorem HasTree.sentence_events (hg : g.WellFormed) {t : Tree} (ht : g.HasTree t) :
    Event.sentence t.root (t.trace.map Expansion.event) = t.sentence := by
  have hreplay := ht.replays hg [] (declares_nil g)
  rw [List.append_nil, List.map_nil, replay, List.append_nil] at hreplay
  rw [Event.sentence, hreplay, Tree.sentence]

/-! ### Replaying a derivation -/

variable {h : Grammar} {σ : Type u} {τ : Type v} [Source σ] [Source τ]

theorem sentence_eq_of_derive (hg : g.Constructed) {lim : Limits} {symbol : Text} {s s' : σ}
    {d : Derivation} (hd : g.derive lim symbol s = .ok (d, s')) :
    d.sentence = Event.sentence symbol d.events := by
  have hwf := constructed_iff_wellFormed.1 hg
  obtain ⟨t, ht, rfl, hfollows⟩ := derive_follows hwf hd
  have hsentence : d.sentence = t.sentence := hfollows.sentence
  rw [Derivation.events, hfollows.trace, ht.sentence_events hwf, hsentence]

/-- The sentence of a derivation is computed from its symbol and its events alone. -/
theorem sentence_of_events (hg : g.Constructed) (hh : h.Constructed) {lim lim' : Limits}
    {symbol : Text} {s s' : σ} {t t' : τ} {d e : Derivation}
    (hd : g.derive lim symbol s = .ok (d, s')) (he : h.derive lim' symbol t = .ok (e, t')) :
    d.sentence = Event.sentence symbol d.events ∧ e.sentence = Event.sentence symbol e.events ∧
      (d.events = e.events → d.sentence = e.sentence) := by
  have hfirst := sentence_eq_of_derive hg hd
  have hsecond := sentence_eq_of_derive hh he
  refine ⟨hfirst, hsecond, ?_⟩
  intro hevents
  rw [hfirst, hevents, ← hsecond]

/-- The grammar `s ::= z | | x s y`, `t ::= x y`, which shares two alternatives with `nested`. -/
def renested : Grammar :=
  ⟨[⟨['s'], [⟨[['z']]⟩, ⟨[]⟩, ⟨[['x'], ['s'], ['y']]⟩]⟩, ⟨['t'], [⟨[['x'], ['y']]⟩]⟩]⟩

/-- The same alternatives at other places of other rules, chosen by other words. -/
theorem sentence_of_events_renested :
    Grammar.ofDeclarations ["t ::= x y".toList, "s ::= z | | x s y".toList] = .ok renested ∧
      ∃ d e : Derivation, ∃ s' t' : Tape,
        nested.derive ⟨2, 2⟩ ['s'] (⟨[0, 0x40000000, 0x80000000]⟩ : Tape) = .ok (d, s') ∧
        renested.derive ⟨2, 1⟩ ['s'] (⟨[0xC0000000, 0x60000000]⟩ : Tape) = .ok (e, t') ∧
        d.events = [⟨['s'], "x s y".toList⟩, ⟨['s'], []⟩] ∧ d.events = e.events ∧
        d.sentence = e.sentence ∧ d.draws ≠ e.draws := by
  have hbuilt : Grammar.ofDeclarations ["t ::= x y".toList, "s ::= z | | x s y".toList] =
      .ok renested := rfl
  have hd : nested.derive ⟨2, 2⟩ ['s'] (⟨[0, 0x40000000, 0x80000000]⟩ : Tape) =
      .ok (⟨['x', ' ', 'y'], [⟨['s'], ⟨[['x'], ['s'], ['y']]⟩⟩, ⟨['s'], ⟨[]⟩⟩], 3⟩, ⟨[]⟩) := rfl
  have he : renested.derive ⟨2, 1⟩ ['s'] (⟨[0xC0000000, 0x60000000]⟩ : Tape) =
      .ok (⟨['x', ' ', 'y'], [⟨['s'], ⟨[['x'], ['s'], ['y']]⟩⟩, ⟨['s'], ⟨[]⟩⟩], 2⟩, ⟨[]⟩) := rfl
  obtain ⟨-, -, hsame⟩ := sentence_of_events constructed_nested (.ofDeclarations hbuilt) hd he
  exact ⟨hbuilt, _, _, _, _, hd, he, rfl, rfl, hsame rfl, by decide⟩

end Grammar

end BnfSentences
