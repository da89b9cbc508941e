import BnfSentences.Proofs.Grammar.Construction

/-!
# Faults of declarations

A declaration is at fault if it is no rule or if it names one that an earlier declaration
names. A grammar is built exactly if there are declarations and none of them is at fault, and
otherwise the first fault is reported: `ofDeclarations_reports_first_fault`.
-/

namespace BnfSentences.Grammar

/-- What is wrong with the declaration at index `i`: it is no rule, or one before it names
the same non-terminal. -/
inductive FaultAt (ds : List Text) (i : Nat) : Error → Prop where
  | refused {d : Text} {e : Error} (here : ds[i]? = some d) (refused : Rule.parse d = .error e) :
      FaultAt ds i e
  | repeated {j : Nat} {c d : Text} {q r : Rule} (here : ds[i]? = some d)
      (declares : Rule.parse d = .ok r) (before : j < i) (there : ds[j]? = some c)
      (declared : Rule.parse c = .ok q) (same : q.name = r.name) :
      FaultAt ds i (.duplicateName r.name)

def FirstFault (ds : List Text) (i : Nat) (e : Error) : Prop :=
  FaultAt ds i e ∧ ∀ j < i, ∀ e', ¬ FaultAt ds j e'

variable {ds before after : List Text} {i : Nat} {e : Error}

/-! ### Where a fault is -/

theorem FaultAt.exists_split (h : FaultAt ds i e) :
    ∃ before d after, ds = before ++ d :: after ∧ before.length = i := by
  obtain ⟨d, hd⟩ : ∃ d, ds[i]? = some d := by
    cases h with
    | refused here _ => exact ⟨_, here⟩
    | repeated here _ _ _ _ _ => exact ⟨_, here⟩
  obtain ⟨hi, rfl⟩ := List.getElem?_eq_some_iff.1 hd
  refine ⟨ds.take i, ds[i], ds.drop (i + 1), ?_, ?_⟩
  · rw [← List.drop_eq_getElem_cons hi, List.take_append_drop]
  · rw [List.length_take]
    omega

theorem FaultAt.congr {ds' : List Text} (h : FaultAt ds i e) (hsame : ∀ j ≤ i, ds[j]? = ds'[j]?) :
    FaultAt ds' i e := by
  cases h with
  | refused here refused =>
    rw [hsame i (Nat.le_refl i)] at here
    exact .refused here refused
  | repeated here declares earlier there declared same =>
    rw [hsame i (Nat.le_refl i)] at here
    rw [hsame _ (Nat.le_of_lt earlier)] at there
    exact .repeated here declares earlier there declared same

theorem faultAt_append_iff (hi : i < before.length) :
    FaultAt (before ++ after) i e ↔ FaultAt before i e := by
  have hsame : ∀ j ≤ i, (before ++ after)[j]? = before[j]? := by
    intro j hj
    apply List.getElem?_append_left
    omega
  constructor
  · intro h
    exact h.congr hsame
  · intro h
    exact h.congr fun j hj => (hsame j hj).symm

theorem faultAt_length_iff {d : Text} :
    FaultAt (before ++ d :: after) before.length e ↔
      Rule.parse d = .error e ∨ ∃ r, Rule.parse d = .ok r ∧
        (∃ c ∈ before, ∃ q, Rule.parse c = .ok q ∧ q.name = r.name) ∧
          .duplicateName r.name = e := by
  have hhere : (before ++ d :: after)[before.length]? = some d := by
    rw [List.getElem?_append_right (Nat.le_refl _), Nat.sub_self]
    rfl
  have hthere : ∀ j < before.length, (before ++ d :: after)[j]? = before[j]? := by
    intro j hj
    exact List.getElem?_append_left hj
  constructor
  · intro h
    cases h with
    | refused here refused =>
      obtain rfl := Option.some.inj (hhere.symm.trans here)
      exact .inl refused
    | repeated here declares earlier there declared same =>
      obtain rfl := Option.some.inj (hhere.symm.trans here)
      rw [hthere _ earlier] at there
      have hmem := List.mem_of_getElem? there
      exact .inr ⟨_, declares, ⟨_, hmem, _, declared, same⟩, rfl⟩
  · rintro (hrefused | ⟨r, hr, ⟨c, hc, q, hq, hname⟩, rfl⟩)
    · exact .refused hhere hrefused
    · obtain ⟨j, hj, rfl⟩ := List.getElem_of_mem hc
      have hget : (before ++ d :: after)[j]? = some before[j] := by
        rw [hthere j hj, List.getElem?_eq_getElem hj]
      exact .repeated hhere hr hj hget hq hname

/-! ### Steps -/

theorem declare_eq_error_iff {table : List Rule} (hs : Sorted table) {d : Text} :
    declare table d = .error e ↔
      Rule.parse d = .error e ∨ ∃ r, Rule.parse d = .ok r ∧ r.name ∈ table.map Rule.name ∧
        .duplicateName r.name = e := by
  rw [declare, bind_eq_error_iff]
  refine or_congr_right (exists_congr fun r => and_congr_right fun _ => ?_)
  rw [← insert_eq_none_iff hs]
  cases insert r table <;> simp [throw, throwThe, MonadExceptOf.throw, pure, Except.pure]

theorem mem_names_of_foldlM {table : List Rule} (h : before.foldlM declare [] = .ok table)
    {name : Text} :
    name ∈ table.map Rule.name ↔ ∃ c ∈ before, ∃ q, Rule.parse c = .ok q ∧ q.name = name := by
  obtain ⟨rs, hrs, -, -, hperm⟩ := (foldlM_declare_eq_ok_iff List.Pairwise.nil).1 h
  rw [List.append_nil] at hperm
  rw [(hperm.map Rule.name).mem_iff, List.mem_map]
  constructor
  · rintro ⟨q, hq, rfl⟩
    obtain ⟨c, hc, hparse⟩ := (mem_of_map_parse_eq hrs).1 hq
    exact ⟨c, hc, q, hparse, rfl⟩
  · rintro ⟨c, hc, q, hparse, rfl⟩
    exact ⟨q, (mem_of_map_parse_eq hrs).2 ⟨c, hc, hparse⟩, rfl⟩

theorem declare_eq_error_iff_faultAt {table : List Rule}
    (h : before.foldlM declare [] = .ok table) {d : Text} :
    declare table d = .error e ↔ FaultAt (before ++ d :: after) before.length e := by
  obtain ⟨-, -, -, hs, -⟩ := (foldlM_declare_eq_ok_iff List.Pairwise.nil).1 h
  rw [declare_eq_error_iff hs, faultAt_length_iff]
  simp only [mem_names_of_foldlM h]

/-! ### Runs -/

theorem foldlM_eq_error_iff {α β : Type} {f : β → α → Except Error β} {xs : List α} {b : β} :
    xs.foldlM f b = .error e ↔
      ∃ before x after b', xs = before ++ x :: after ∧ before.foldlM f b = .ok b' ∧
        f b' x = .error e := by
  induction xs generalizing b with
  | nil =>
    constructor
    · intro h
      cases h
    · rintro ⟨before, x, after, -, hnil, -⟩
      simp at hnil
  | cons y ys ih =>
    rw [List.foldlM_cons, bind_eq_error_iff]
    constructor
    · rintro (hy | ⟨c, hc, hys⟩)
      · exact ⟨[], y, ys, b, rfl, rfl, hy⟩
      · obtain ⟨before, x, after, b', rfl, hbefore, hx⟩ := ih.1 hys
        refine ⟨y :: before, x, after, b', rfl, ?_, hx⟩
        rw [List.foldlM_cons, bind_eq_ok_iff]
        exact ⟨c, hc, hbefore⟩
    · rintro ⟨before, x, after, b', hsplit, hbefore, hx⟩
      cases before with
      | nil =>
        obtain ⟨rfl, rfl⟩ := List.cons.inj hsplit
        obtain rfl := Except.ok.inj hbefore
        exact .inl hx
      | cons z before =>
        obtain ⟨rfl, rfl⟩ := List.cons.inj hsplit
        rw [List.foldlM_cons, bind_eq_ok_iff] at hbefore
        obtain ⟨c, hc, hbefore⟩ := hbefore
        exact .inr ⟨c, hc, ih.2 ⟨before, x, after, b', rfl, hbefore, hx⟩⟩

theorem not_faultAt_of_foldlM {table : List Rule} (h : ds.foldlM declare [] = .ok table) :
    ¬ FaultAt ds i e := by
  intro hfault
  obtain ⟨before, d, after, rfl, rfl⟩ := hfault.exists_split
  rw [List.foldlM_append, bind_eq_ok_iff] at h
  obtain ⟨t, hbefore, h⟩ := h
  rw [List.foldlM_cons, (declare_eq_error_iff_faultAt hbefore).2 hfault] at h
  cases h

theorem foldlM_declare_eq_error_iff :
    ds.foldlM declare [] = .error e ↔ ∃ i, FirstFault ds i e := by
  constructor
  · intro h
    obtain ⟨before, d, after, table, rfl, hbefore, hd⟩ := foldlM_eq_error_iff.1 h
    refine ⟨before.length, (declare_eq_error_iff_faultAt hbefore).1 hd, ?_⟩
    intro j hj e' hfault
    rw [faultAt_append_iff hj] at hfault
    exact not_faultAt_of_foldlM hbefore hfault
  · rintro ⟨i, hfault, hfirst⟩
    obtain ⟨before, d, after, rfl, rfl⟩ := hfault.exists_split
    cases hbefore : before.foldlM declare [] with
    | error e' =>
      -- a declaration before the first fault would be refused
      obtain ⟨front, c, back, table, rfl, hfront, hc⟩ := foldlM_eq_error_iff.1 hbefore
      have hearlier : front.length < (front ++ c :: back).length := by simp
      have hfault' : FaultAt (front ++ c :: back) front.length e' :=
        (declare_eq_error_iff_faultAt hfront).1 hc
      exact absurd ((faultAt_append_iff hearlier).2 hfault') (hfirst _ hearlier e')
    | ok table =>
      have hd := (declare_eq_error_iff_faultAt hbefore).2 hfault
      exact foldlM_eq_error_iff.2 ⟨before, d, after, table, rfl, hbefore, hd⟩

theorem eq_nil_of_foldlM (h : ds.foldlM declare [] = .ok []) : ds = [] := by
  obtain ⟨rs, hrs, -, -, hperm⟩ := (foldlM_declare_eq_ok_iff List.Pairwise.nil).1 h
  rw [List.append_nil, List.nil_perm] at hperm
  exact (eq_nil_iff_of_map_parse_eq hrs).2 hperm

theorem ofDeclarations_eq_error_iff :
    ofDeclarations ds = .error e ↔
      ds = [] ∧ e = .noDeclarations ∨ ∃ i, FirstFault ds i e := by
  rw [ofDeclarations, bind_eq_error_iff, foldlM_declare_eq_error_iff, or_comm]
  apply or_congr_left
  constructor
  · rintro ⟨table, htable, h⟩
    split at h
    · next hempty =>
      rw [List.isEmpty_iff.1 hempty] at htable
      exact ⟨eq_nil_of_foldlM htable, (Except.error.inj h).symm⟩
    · cases h
  · rintro ⟨rfl, rfl⟩
    exact ⟨[], rfl, rfl⟩

/-! ### Whole lists -/

theorem FirstFault.append_take (h : FirstFault ds i e) (others : List Text) :
    FirstFault (ds.take (i + 1) ++ others) i e := by
  obtain ⟨hfault, hfirst⟩ := h
  have hsame : ∀ j ≤ i, ds[j]? = (ds.take (i + 1) ++ others)[j]? := by
    intro j hj
    obtain ⟨before, d, after, rfl, rfl⟩ := hfault.exists_split
    have hlength : j < ((before ++ d :: after).take (before.length + 1)).length := by simp; omega
    rw [List.getElem?_append_left hlength, List.getElem?_take_of_lt (Nat.lt_succ_of_le hj)]
  refine ⟨hfault.congr hsame, ?_⟩
  intro j hj e' hearlier
  apply hfirst j hj e'
  apply hearlier.congr
  intro k hk
  exact (hsame k (by omega)).symm

theorem grammar_ofConfig (fresh : ChaCha.Key) (ds : List Text) (c : Config) :
    (Generator.ofConfig fresh ds c).map Generator.grammar = ofDeclarations ds := by
  unfold Generator.ofConfig
  cases ofDeclarations ds with
  | error e => rfl
  | ok g => rfl

/-- Declarations make a grammar of exactly their rules, or fail with the first fault among them,
whatever comes after it and whatever the configuration. -/
theorem ofDeclarations_reports_first_fault (ds : List Text) :
    ((∃ g, ofDeclarations ds = .ok g) ↔
      ds ≠ [] ∧ ∃ rs : List Rule, ds.map Rule.parse = rs.map .ok ∧ (rs.map Rule.name).Nodup) ∧
    (∀ g, ofDeclarations ds = .ok g →
      ∃ rs : List Rule, ds.map Rule.parse = rs.map .ok ∧ g.rules.Perm rs ∧
        ∀ r ∈ rs, g.productions? r.name = some r.alternatives) ∧
    (∀ e, ofDeclarations ds = .error e ↔
      ds = [] ∧ e = .noDeclarations ∨ ∃ i, FirstFault ds i e) ∧
    (∀ i e, FirstFault ds i e → ∀ others,
      ofDeclarations (ds.take (i + 1) ++ others) = .error e) ∧
    ∀ (fresh : ChaCha.Key) (c : Config),
      (Generator.ofConfig fresh ds c).map Generator.grammar = ofDeclarations ds := by
  refine ⟨⟨?_, ?_⟩, ?_, ?_, ?_, ?_⟩
  · rintro ⟨g, hg⟩
    obtain ⟨hne, rs, hrs, hnames, -⟩ := ofDeclarations_eq_ok_iff.1 hg
    exact ⟨hne, rs, hrs, hnames⟩
  · rintro ⟨hne, rs, hrs, hnames⟩
    obtain ⟨table, hs, hperm⟩ := exists_sorted_perm hnames
    exact ⟨⟨table⟩, ofDeclarations_eq_ok_iff.2 ⟨hne, rs, hrs, hnames, hs, hperm⟩⟩
  · intro g hg
    obtain ⟨-, rs, hrs, -, -, hperm⟩ := ofDeclarations_eq_ok_iff.1 hg
    refine ⟨rs, hrs, hperm, ?_⟩
    intro r hr
    exact (wellFormed_of_ofDeclarations hg).productions?_of_mem (hperm.symm.subset hr)
  · intro e
    exact ofDeclarations_eq_error_iff
  · intro i e hfirst others
    exact ofDeclarations_eq_error_iff.2 (.inr ⟨i, hfirst.append_take others⟩)
  · intro fresh c
    exact grammar_ofConfig fresh ds c

/-- The third declaration repeats a name with other blanks, and the fourth is no rule at all. -/
theorem ofDeclarations_reports_first_fault_blanks :
    FirstFault ["b ::= y".toList, "a ::= x".toList, " a\t::= z".toList, "c".toList] 2
        (.duplicateName ['a']) ∧
      (∀ others, ofDeclarations (["b ::= y".toList, "a ::= x".toList, " a\t::= z".toList] ++
        others) = .error (.duplicateName ['a'])) ∧
      ∃ g rs, ofDeclarations ["b ::= y".toList, "a ::= x".toList] = .ok g ∧ g.rules.Perm rs ∧
        ["b ::= y".toList, "a ::= x".toList].map Rule.parse = rs.map .ok := by
  have hfirst : FirstFault
      ["b ::= y".toList, "a ::= x".toList, " a\t::= z".toList, "c".toList] 2
        (.duplicateName ['a']) := by
    constructor
    · exact @FaultAt.repeated _ 2 1 "a ::= x".toList " a\t::= z".toList ⟨['a'], [⟨[['x']]⟩]⟩
        ⟨['a'], [⟨[['z']]⟩]⟩ rfl rfl (by decide) rfl rfl rfl
    · intro j hj e' hfault
      have hbefore : ["b ::= y".toList, "a ::= x".toList].foldlM declare [] =
          .ok [⟨['a'], [⟨[['x']]⟩]⟩, ⟨['b'], [⟨[['y']]⟩]⟩] := rfl
      exact not_faultAt_of_foldlM hbefore ((faultAt_append_iff hj).1 hfault)
  obtain ⟨-, -, -, hreports, -⟩ := ofDeclarations_reports_first_fault
    ["b ::= y".toList, "a ::= x".toList, " a\t::= z".toList, "c".toList]
  obtain ⟨-, hrules, -⟩ := ofDeclarations_reports_first_fault ["b ::= y".toList, "a ::= x".toList]
  obtain ⟨rs, hrs, hperm, -⟩ := hrules _ rfl
  exact ⟨hfirst, hreports 2 _ hfirst, _, rs, rfl, hperm, hrs⟩

end BnfSentences.Grammar
