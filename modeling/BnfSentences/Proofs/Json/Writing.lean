import BnfSentences.Json.Writer
import BnfSentences.Proofs.Json.Spelling
import BnfSentences.Proofs.Text.Utf8

/-!
# What is written is well-formed

`isText_write` says that the written form of a value is a spelling of it in every layout
that adds nothing but blanks, so it is read as that value again.
-/

namespace BnfSentences

/-! ### Texts as strings -/

namespace CodePoints

theorem ofText_injective : Function.Injective ofText := by
  intro s t h
  have hread := text?_ofText s
  rw [h, text?_ofText] at hread
  exact (Option.some.inj hread).symm

theorem valid_ofText (s : Text) : ∀ n ∈ ofText s, n.isValidChar := by
  intro n hn
  obtain ⟨c, -, rfl⟩ := List.mem_map.1 hn
  exact c.valid

end CodePoints

namespace Json

/-! ### What can be written -/

/-- Values that have a spelling: their strings have characters and no surrogates, and
their numbers are numbers. -/
inductive Printable : Json → Prop where
  | null : Printable .null
  | bool (value : Bool) : Printable (.bool value)
  | num {literal : Text} (number : isNumber literal) : Printable (.num literal)
  | str {ns : CodePoints} (valid : ∀ n ∈ ns, n.isValidChar) : Printable (.str ns)
  | arr {vs : List Json} (elements : ∀ v ∈ vs, Printable v) : Printable (.arr vs)
  | obj {ms : List (CodePoints × Json)} (keys : ∀ m ∈ ms, ∀ n ∈ m.1, n.isValidChar)
      (values : ∀ m ∈ ms, Printable m.2) : Printable (.obj ms)

theorem text_injective : Function.Injective text := by
  intro s t h
  exact CodePoints.ofText_injective (str.inj h)

theorem printable_text (s : Text) : Printable (.text s) :=
  .str (CodePoints.valid_ofText s)

theorem printable_object {ms : List (Text × Json)} (h : ∀ m ∈ ms, Printable m.2) :
    Printable (.object ms) := by
  refine .obj ?_ ?_
  · intro m hm
    obtain ⟨⟨key, v⟩, -, rfl⟩ := List.mem_map.1 hm
    exact CodePoints.valid_ofText key
  · intro m hm
    obtain ⟨⟨key, v⟩, hv, rfl⟩ := List.mem_map.1 hm
    exact h (key, v) hv

/-- A layout that adds blanks only. -/
structure Layout.Blank (l : Layout) : Prop where
  before (depth : Nat) : IsBlank (l.before depth)
  afterColon : IsBlank l.afterColon

theorem blank_compact : Layout.compact.Blank :=
  ⟨fun _ => isBlank_nil, isBlank_nil⟩

theorem blank_pretty : Layout.pretty.Blank := by
  refine ⟨?_, by simp [Layout.pretty, IsBlank, isSpace]⟩
  intro depth c hc
  rcases List.mem_cons.1 hc with rfl | hc
  · rfl
  · rw [List.eq_of_mem_replicate hc]
    rfl

/-! ### Strings -/

theorem hexDigit?_digitChar {d : Nat} (h : d < 16) : hexDigit? d.digitChar = some d := by
  have hall : ∀ d < 16, hexDigit? (Nat.digitChar d) = some d := by decide
  exact hall d h

theorem character_hexUnit {n : Nat} (h : n < 0x10000) : Character n ('\\' :: 'u' :: hexUnit n) := by
  have hdigit : ∀ m, hexDigit? (m % 16).digitChar = some (m % 16) :=
    fun m => hexDigit?_digitChar (Nat.mod_lt m (by decide))
  have hvalue : n / 0x1000 % 16 * 0x1000 + n / 0x100 % 16 * 0x100 + n / 0x10 % 16 * 0x10 +
      n % 16 = n := by
    omega
  have hunit := Character.unit (hdigit (n / 0x1000)) (hdigit (n / 0x100)) (hdigit (n / 0x10))
    (hdigit n)
  rw [hvalue] at hunit
  exact hunit

theorem character_writeCodePoint {n : Nat} (h : n.isValidChar) :
    Character n (writeCodePoint n) := by
  unfold writeCodePoint
  -- The seven escapes with a letter or a mark of their own.
  iterate 7
    split
    · next hn =>
      rw [hn]
      exact .escape rfl
  next hquote hbackslash _ _ _ _ _ =>
    split
    · next hn =>
      have hcontrol : n < 0x20 := hn.resolve_right (not_not_intro h)
      exact character_hexUnit (by omega)
    · next hn =>
      have hn' : (Char.ofNat n).toNat = n := Utf8.toNat_ofNat_of_valid h
      have hne : ∀ c : Char, n ≠ c.toNat → Char.ofNat n ≠ c := by
        rintro _ hc rfl
        exact hc hn'.symm
      have hcontrol : 0x20 ≤ (Char.ofNat n).toNat := by
        rw [hn']
        exact Nat.not_lt.1 fun hlt => hn (.inl hlt)
      have hplain := Character.plain (hne '"' hquote) (hne '\\' hbackslash) hcontrol
      rwa [hn'] at hplain

theorem characters_writeString {ns : CodePoints} (h : ∀ n ∈ ns, n.isValidChar) :
    Characters ns (ns.flatMap writeCodePoint) := by
  induction ns with
  | nil => exact .none
  | cons n ns ih =>
    rw [List.flatMap_cons]
    exact .next (character_writeCodePoint (h n List.mem_cons_self))
      (ih fun m hm => h m (List.mem_cons_of_mem n hm))

theorem joinPairs_eq_self {ns : CodePoints} (h : ∀ n ∈ ns, n.isValidChar) : joinPairs ns = ns := by
  fun_induction joinPairs ns with
  | case1 high low ns hpair _ =>
    have hvalid := h high List.mem_cons_self
    simp [isHighSurrogate] at hpair
    unfold Nat.isValidChar at hvalid
    omega
  | case2 high low ns _ ih => rw [ih fun m hm => h m (List.mem_cons_of_mem high hm)]
  | case3 => rfl

theorem spells_writeString {ns : CodePoints} (h : ∀ n ∈ ns, n.isValidChar) :
    Spells (.value (.str ns)) (writeString ns) := by
  have hspells := Spells.str (characters_writeString h)
  rw [joinPairs_eq_self h] at hspells
  exact hspells

/-! ### Values -/

variable {l : Layout}

theorem spells_writeElements (hl : l.Blank) (depth : Nat) {v : Json} {vs : List Json}
    (h : ∀ w ∈ v :: vs, Spells (.value w) (write l (depth + 1) w)) :
    ∃ s t, l.before (depth + 1) ++ write l (depth + 1) v ++ writeElements l depth vs = s ++ t ∧
      Spells (.padded v) s ∧ Spells (.elements vs) t := by
  induction vs generalizing v with
  | nil =>
    have hv := h v List.mem_cons_self
    refine ⟨_, [']'], ?_, .padded (hl.before (depth + 1)) hv (hl.before depth), .noElement⟩
    simp [writeElements]
  | cons w vs ih =>
    obtain ⟨s, t, hst, hfirst, hothers⟩ := ih fun u hu => h u (List.mem_cons_of_mem v hu)
    have hv := Spells.padded (hl.before (depth + 1)) (h v List.mem_cons_self) isBlank_nil
    refine ⟨_, ',' :: (s ++ t), ?_, hv, .element hfirst hothers⟩
    rw [writeElements, ← hst]
    simp

theorem spells_writeKey (hl : l.Blank) (depth : Nat) {key : CodePoints}
    (h : ∀ n ∈ key, n.isValidChar) :
    Spells (.padded (.str key)) (l.before depth ++ writeString key) := by
  have hname := Spells.padded (hl.before depth) (spells_writeString h) isBlank_nil
  rwa [List.append_nil] at hname

theorem spells_writeMembers (hl : l.Blank) (depth : Nat) {m : CodePoints × Json}
    {ms : List (CodePoints × Json)} (hkeys : ∀ m' ∈ m :: ms, ∀ n ∈ m'.1, n.isValidChar)
    (h : ∀ m' ∈ m :: ms, Spells (.value m'.2) (write l (depth + 1) m'.2)) :
    ∃ k s t, l.before (depth + 1) ++ writeString m.1 ++ ':' :: l.afterColon ++
        write l (depth + 1) m.2 ++ writeMembers l depth ms = k ++ ':' :: (s ++ t) ∧
      Spells (.padded (.str m.1)) k ∧ Spells (.padded m.2) s ∧ Spells (.members ms) t := by
  induction ms generalizing m with
  | nil =>
    have hname := spells_writeKey hl (depth + 1) (hkeys m List.mem_cons_self)
    have hv := Spells.padded hl.afterColon (h m List.mem_cons_self) (hl.before depth)
    refine ⟨_, _, ['\x7d'], ?_, hname, hv, .noMember⟩
    simp [writeMembers]
  | cons m' ms ih =>
    obtain ⟨k, s, t, hst, hkey, hfirst, hothers⟩ := ih
      (fun q hq => hkeys q (List.mem_cons_of_mem m hq)) fun q hq => h q (List.mem_cons_of_mem m hq)
    have hname := spells_writeKey hl (depth + 1) (hkeys m List.mem_cons_self)
    have hv := Spells.padded hl.afterColon (h m List.mem_cons_self) isBlank_nil
    refine ⟨_, _, ',' :: (k ++ ':' :: (s ++ t)), ?_, hname, hv, .member hkey hfirst hothers⟩
    rw [writeMembers, ← hst]
    simp

theorem spells_write (hl : l.Blank) {v : Json} (h : Printable v) (depth : Nat) :
    Spells (.value v) (write l depth v) := by
  induction h generalizing depth with
  | null => exact .null
  | bool value =>
    cases value
    · exact .false
    · exact .true
  | num number =>
    rw [write]
    exact .num number
  | str valid => exact spells_writeString valid
  | @arr vs _ ih =>
    cases vs with
    | nil => exact Spells.emptyArray isBlank_nil
    | cons v vs =>
      obtain ⟨s, t, hst, hfirst, hothers⟩ :=
        spells_writeElements hl depth fun w hw => ih w hw (depth + 1)
      have hspells := Spells.array hfirst hothers
      rw [← hst] at hspells
      rw [write]
      exact hspells
  | @obj ms keys _ ih =>
    cases ms with
    | nil => exact Spells.emptyObject isBlank_nil
    | cons m ms =>
      obtain ⟨k, s, t, hst, hname, hfirst, hothers⟩ :=
        spells_writeMembers hl depth keys fun m hm => ih m hm (depth + 1)
      have hspells := Spells.object hname hfirst hothers
      rw [← hst] at hspells
      rw [write]
      exact hspells

theorem isText_write (hl : l.Blank) {v : Json} (h : Printable v) : IsText v (write l 0 v) := by
  have htext := Spells.padded isBlank_nil (spells_write hl h 0) isBlank_nil
  rwa [List.append_nil, List.nil_append] at htext

theorem write_inj (hl : l.Blank) {v w : Json} (hv : Printable v) (hw : Printable w) :
    write l 0 v = write l 0 w ↔ v = w := by
  constructor
  · intro h
    have hv' := isText_write hl hv
    rw [h] at hv'
    exact eq_of_isText hv' (isText_write hl hw)
  · rintro rfl
    rfl

end Json

end BnfSentences
