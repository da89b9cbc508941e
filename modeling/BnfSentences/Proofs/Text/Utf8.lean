import BnfSentences.Proofs.Text.Words
import BnfSentences.Text.Utf8

/-!
# What decodes

`decode_eq_some_iff` says that octets decode to a text exactly if they are its
encoding. `decode_line` decodes them up to the first newline, and `inLines_cutLines`
says where octets are cut.
-/

namespace BnfSentences.Utf8

/-! ### Octets of one character -/

def IsTail (b : UInt8) : Prop :=
  0x80 ≤ b.toNat ∧ b.toNat ≤ 0xBF

def extendAll (bits : Nat) (bs : Bytes) : Nat :=
  bs.foldl (fun n b => n * 64 + (b.toNat - 0x80)) bits

/-- The octets are all that the character still owes. -/
def Owed.Paid (o : Owed) (bs : Bytes) : Prop :=
  ∃ b tail, bs = b :: tail ∧ o.least.toNat ≤ b.toNat ∧ b.toNat ≤ o.greatest.toNat ∧
    tail.length = o.after ∧ ∀ d ∈ tail, IsTail d

/-- The octets are taken for one character, the one with number `n`. -/
def Spells (bs : Bytes) (n : Nat) : Prop :=
  ∃ b tail, bs = b :: tail ∧
    (b.toNat < 0x80 ∧ tail = [] ∧ n = b.toNat ∨
      ∃ o, Owed.ofFirst b = some o ∧ o.Paid tail ∧ n = extendAll o.bits tail)

theorem ofFirst_eq_some_iff {b : UInt8} {o : Owed} :
    Owed.ofFirst b = some o ↔
      (0xC2 ≤ b.toNat ∧ b.toNat ≤ 0xDF ∧ o = ⟨b.toNat - 0xC0, 0x80, 0xBF, 0⟩) ∨
      (0xE0 ≤ b.toNat ∧ b.toNat ≤ 0xEF ∧ o = ⟨b.toNat - 0xE0, if b.toNat = 0xE0 then 0xA0 else 0x80,
        if b.toNat = 0xED then 0x9F else 0xBF, 1⟩) ∨
      (0xF0 ≤ b.toNat ∧ b.toNat ≤ 0xF4 ∧ o = ⟨b.toNat - 0xF0, if b.toNat = 0xF0 then 0x90 else 0x80,
        if b.toNat = 0xF4 then 0x8F else 0xBF, 2⟩) := by
  unfold Owed.ofFirst
  simp only
  grind

theorem extendAll_cons (o : Owed) (b : UInt8) (bs : Bytes) :
    extendAll o.bits (b :: bs) = extendAll (o.extend b) bs := by
  unfold extendAll Owed.extend
  rw [List.foldl_cons]

theorem paid_cons_iff {o : Owed} {b : UInt8} {bs : Bytes} :
    o.Paid (b :: bs) ↔ (o.least.toNat ≤ b.toNat ∧ b.toNat ≤ o.greatest.toNat) ∧
      bs.length = o.after ∧ ∀ d ∈ bs, IsTail d := by
  simp [Owed.Paid, and_assoc]

theorem paid_tail_iff {bits k : Nat} {bs : Bytes} :
    Owed.Paid ⟨bits, 0x80, 0xBF, k⟩ bs ↔ bs.length = k + 1 ∧ ∀ d ∈ bs, IsTail d := by
  cases bs with
  | nil => simp [Owed.Paid]
  | cons b bs =>
    simp only [paid_cons_iff, List.length_cons, Nat.add_right_cancel_iff, List.forall_mem_cons,
      IsTail, UInt8.reduceToNat]
    exact and_left_comm

/-! ### The decoder takes characters off the front -/

theorem decodeFrom_of_paid {o : Owed} {cs : Bytes} (h : o.Paid cs) (rest : Bytes) :
    decodeFrom (some o) (cs ++ rest) =
      (decodeFrom none rest).map (Char.ofNat (extendAll o.bits cs) :: ·) := by
  induction cs generalizing o with
  | nil => simp [Owed.Paid] at h
  | cons b cs ih =>
    obtain ⟨hrange, hlength, htails⟩ := paid_cons_iff.1 h
    rw [← UInt8.le_iff_toNat_le, ← UInt8.le_iff_toNat_le] at hrange
    rw [List.cons_append, decodeFrom, if_pos hrange, ← hlength, extendAll_cons]
    cases cs with
    | nil => rfl
    | cons d cs => exact ih (paid_tail_iff.2 ⟨List.length_cons, htails⟩)

theorem exists_paid_of_decodeFrom {o : Owed} {bs : Bytes} {s : Text}
    (h : decodeFrom (some o) bs = some s) : ∃ cs rest, bs = cs ++ rest ∧ o.Paid cs := by
  induction bs generalizing o with
  | nil => cases h
  | cons b bs ih =>
    rw [decodeFrom] at h
    split at h
    · next hrange =>
      rw [UInt8.le_iff_toNat_le, UInt8.le_iff_toNat_le] at hrange
      cases hk : o.after with
      | zero => exact ⟨[b], bs, rfl, paid_cons_iff.2 ⟨hrange, hk.symm, by simp⟩⟩
      | succ k =>
        rw [hk] at h
        obtain ⟨cs, rest, rfl, hpaid⟩ := ih h
        obtain ⟨hlength, htails⟩ := paid_tail_iff.1 hpaid
        exact ⟨b :: cs, rest, rfl, paid_cons_iff.2 ⟨hrange, hlength.trans hk.symm, htails⟩⟩
    · cases h

theorem decodeFrom_of_spells {cs : Bytes} {n : Nat} (h : Spells cs n) (rest : Bytes) :
    decodeFrom none (cs ++ rest) = (decodeFrom none rest).map (Char.ofNat n :: ·) := by
  obtain ⟨b, tail, rfl, ⟨hb, rfl, rfl⟩ | ⟨o, ho, hpaid, rfl⟩⟩ := h
  · have hsmall : b < 0x80 := UInt8.lt_iff_toNat_lt.2 hb
    rw [List.singleton_append, decodeFrom, if_pos hsmall]
  · have hlarge : ¬ b < 0x80 := by
      have hfirst := ofFirst_eq_some_iff.1 ho
      rw [UInt8.lt_iff_toNat_lt]
      simp
      omega
    rw [List.cons_append, decodeFrom, if_neg hlarge, ho]
    exact decodeFrom_of_paid hpaid rest

theorem exists_spells_of_decodeFrom {b : UInt8} {bs : Bytes} {s : Text}
    (h : decodeFrom none (b :: bs) = some s) :
    ∃ cs rest n, b :: bs = b :: cs ++ rest ∧ Spells (b :: cs) n := by
  rw [decodeFrom] at h
  split at h
  · next hb => exact ⟨[], bs, _, rfl, b, [], rfl, .inl ⟨UInt8.lt_iff_toNat_lt.1 hb, rfl, rfl⟩⟩
  · cases ho : Owed.ofFirst b with
    | none =>
      rw [ho] at h
      cases h
    | some o =>
      rw [ho] at h
      obtain ⟨cs, rest, rfl, hpaid⟩ := exists_paid_of_decodeFrom h
      exact ⟨cs, rest, _, rfl, b, cs, rfl, .inr ⟨o, ho, hpaid, rfl⟩⟩

/-! ### Characters are spelled by their encoding -/

theorem eq_of_map_toNat {cs ds : Bytes} (h : cs.map UInt8.toNat = ds.map UInt8.toNat) : cs = ds :=
  (List.map_inj_right fun _ _ => UInt8.toNat_inj.1).1 h

theorem toNat_ofNat_of_valid {n : Nat} (h : n.isValidChar) : (Char.ofNat n).toNat = n := by
  rw [Char.ofNat, dif_pos h]
  rfl

theorem encodeChar_one {c : Char} {a : UInt8} (ha : a.toNat < 0x80) (hc : c.toNat = a.toNat) :
    String.utf8EncodeChar c = [a] := by
  apply eq_of_map_toNat
  unfold String.utf8EncodeChar
  simp only [show c.val.toNat = c.toNat from rfl, hc]
  rw [if_pos (by omega)]
  simp

theorem encodeChar_two {c : Char} {a b : UInt8} (ha : 0xC2 ≤ a.toNat ∧ a.toNat ≤ 0xDF)
    (hb : IsTail b) (hc : c.toNat = (a.toNat - 0xC0) * 64 + (b.toNat - 0x80)) :
    String.utf8EncodeChar c = [a, b] := by
  unfold IsTail at hb
  apply eq_of_map_toNat
  unfold String.utf8EncodeChar
  simp only [show c.val.toNat = c.toNat from rfl]
  rw [if_neg (by omega), if_pos (by omega)]
  simp only [List.map_cons, List.map_nil, UInt8.toNat_ofNat', List.cons.injEq, and_true]
  constructor
  all_goals omega

theorem encodeChar_three {c : Char} {a b d : UInt8} (ha : 0xE0 ≤ a.toNat ∧ a.toNat ≤ 0xEF)
    (hb : IsTail b) (hd : IsTail d) (hlow : 0x800 ≤ c.toNat)
    (hc : c.toNat = ((a.toNat - 0xE0) * 64 + (b.toNat - 0x80)) * 64 + (d.toNat - 0x80)) :
    String.utf8EncodeChar c = [a, b, d] := by
  unfold IsTail at hb hd
  apply eq_of_map_toNat
  unfold String.utf8EncodeChar
  simp only [show c.val.toNat = c.toNat from rfl]
  rw [if_neg (by omega), if_neg (by omega), if_pos (by omega)]
  simp only [List.map_cons, List.map_nil, UInt8.toNat_ofNat', List.cons.injEq, and_true]
  and_intros
  all_goals omega

theorem encodeChar_four {c : Char} {a b d e : UInt8} (ha : 0xF0 ≤ a.toNat ∧ a.toNat ≤ 0xF4)
    (hb : IsTail b) (hd : IsTail d) (he : IsTail e) (hlow : 0x10000 ≤ c.toNat)
    (hc : c.toNat = (((a.toNat - 0xF0) * 64 + (b.toNat - 0x80)) * 64 + (d.toNat - 0x80)) * 64 +
      (e.toNat - 0x80)) :
    String.utf8EncodeChar c = [a, b, d, e] := by
  unfold IsTail at hb hd he
  apply eq_of_map_toNat
  unfold String.utf8EncodeChar
  simp only [show c.val.toNat = c.toNat from rfl]
  rw [if_neg (by omega), if_neg (by omega), if_neg (by omega)]
  simp only [List.map_cons, List.map_nil, UInt8.toNat_ofNat', List.cons.injEq, and_true]
  and_intros
  all_goals omega

theorem exists_octet {n : Nat} (h : n < 256) : ∃ a : UInt8, a.toNat = n :=
  ⟨UInt8.ofNat n, UInt8.toNat_ofNat_of_lt' h⟩

theorem spells_encodeChar (c : Char) : Spells (String.utf8EncodeChar c) c.toNat := by
  have hvalid : c.toNat < 0xD800 ∨ 0xDFFF < c.toNat ∧ c.toNat < 0x110000 := c.valid
  by_cases h₁ : c.toNat < 0x80
  · obtain ⟨a, ha⟩ := exists_octet (n := c.toNat) (by omega)
    rw [encodeChar_one (by omega) ha.symm]
    exact ⟨a, [], rfl, .inl ⟨by omega, rfl, ha.symm⟩⟩
  -- The last octet is the same for all longer characters.
  obtain ⟨e, he⟩ := exists_octet (n := 0x80 + c.toNat % 64) (by omega)
  have htail : IsTail e := by unfold IsTail; omega
  by_cases h₂ : c.toNat < 0x800
  · obtain ⟨a, ha⟩ := exists_octet (n := 0xC0 + c.toNat / 64) (by omega)
    rw [encodeChar_two (a := a) (by omega) htail (by omega)]
    refine ⟨a, [e], rfl, .inr ⟨_, ofFirst_eq_some_iff.2 (.inl ⟨by omega, by omega, rfl⟩), ?_, ?_⟩⟩
    · simp [paid_cons_iff]
      omega
    · unfold extendAll
      simp only [List.foldl]
      omega
  obtain ⟨d, hd⟩ := exists_octet (n := 0x80 + c.toNat / 64 % 64) (by omega)
  have htail' : IsTail d := by unfold IsTail; omega
  by_cases h₃ : c.toNat < 0x10000
  · obtain ⟨a, ha⟩ := exists_octet (n := 0xE0 + c.toNat / 4096) (by omega)
    rw [encodeChar_three (a := a) (by omega) htail' htail (by omega) (by omega)]
    refine ⟨a, [d, e], rfl,
      .inr ⟨_, ofFirst_eq_some_iff.2 (.inr (.inl ⟨by omega, by omega, rfl⟩)), ?_, ?_⟩⟩
    · simp only [paid_cons_iff, apply_ite UInt8.toNat, UInt8.reduceToNat]
      refine ⟨?_, rfl, by simpa using htail⟩
      split <;> split <;> omega
    · unfold extendAll
      simp only [List.foldl]
      omega
  · obtain ⟨b, hb⟩ := exists_octet (n := 0x80 + c.toNat / 4096 % 64) (by omega)
    obtain ⟨a, ha⟩ := exists_octet (n := 0xF0 + c.toNat / 262144) (by omega)
    have htail'' : IsTail b := by unfold IsTail; omega
    rw [encodeChar_four (a := a) (by omega) htail'' htail' htail (by omega) (by omega)]
    refine ⟨a, [b, d, e], rfl,
      .inr ⟨_, ofFirst_eq_some_iff.2 (.inr (.inr ⟨by omega, by omega, rfl⟩)), ?_, ?_⟩⟩
    · simp only [paid_cons_iff, apply_ite UInt8.toNat, UInt8.reduceToNat]
      refine ⟨?_, rfl, by simpa using ⟨htail', htail⟩⟩
      split <;> split <;> omega
    · unfold extendAll
      simp only [List.foldl]
      omega

theorem eq_encodeChar_of_spells {cs : Bytes} {n : Nat} (h : Spells cs n) :
    cs = String.utf8EncodeChar (Char.ofNat n) := by
  obtain ⟨a, tail, rfl, ⟨ha, rfl, hn⟩ | ⟨o, ho, hpaid, hn⟩⟩ := h
  · have hchar := toNat_ofNat_of_valid (n := n) (.inl (by omega))
    exact (encodeChar_one ha (by omega)).symm
  obtain ⟨b, tail, rfl, hlow, hhigh, hlength, htails⟩ := hpaid
  unfold extendAll at hn
  rcases ofFirst_eq_some_iff.1 ho with ⟨hl, hu, rfl⟩ | ⟨hl, hu, rfl⟩ | ⟨hl, hu, rfl⟩
  · obtain rfl := List.eq_nil_of_length_eq_zero hlength
    simp only [List.foldl, UInt8.reduceToNat] at hn hlow hhigh
    have hchar := toNat_ofNat_of_valid (n := n) (.inl (by omega))
    exact (encodeChar_two ⟨hl, hu⟩ ⟨hlow, hhigh⟩ (by omega)).symm
  · obtain ⟨d, rfl⟩ := List.length_eq_one_iff.1 hlength
    have hd := htails d (by simp)
    simp only [List.foldl, apply_ite UInt8.toNat, UInt8.reduceToNat] at hn hlow hhigh
    have hb : IsTail b ∧ (a.toNat = 0xE0 → 0xA0 ≤ b.toNat) ∧ (a.toNat = 0xED → b.toNat ≤ 0x9F) := by
      unfold IsTail
      split at hlow <;> split at hhigh <;> omega
    have hrange : 0x800 ≤ n ∧ n.isValidChar := by
      unfold IsTail at hb hd
      unfold Nat.isValidChar
      omega
    have hchar := toNat_ofNat_of_valid hrange.2
    exact (encodeChar_three ⟨hl, hu⟩ hb.1 hd (by omega) (by omega)).symm
  · obtain ⟨d, tail, rfl⟩ := List.exists_cons_of_length_eq_add_one hlength
    obtain ⟨e, rfl⟩ := List.length_eq_one_iff.1 (Nat.succ.inj hlength)
    have hd := htails d (by simp)
    have he := htails e (by simp)
    simp only [List.foldl, apply_ite UInt8.toNat, UInt8.reduceToNat] at hn hlow hhigh
    have hb : IsTail b ∧ (a.toNat = 0xF0 → 0x90 ≤ b.toNat) ∧ (a.toNat = 0xF4 → b.toNat ≤ 0x8F) := by
      unfold IsTail
      split at hlow <;> split at hhigh <;> omega
    have hrange : 0x10000 ≤ n ∧ n.isValidChar := by
      unfold IsTail at hb hd he
      unfold Nat.isValidChar
      omega
    have hchar := toNat_ofNat_of_valid hrange.2
    exact (encodeChar_four ⟨hl, hu⟩ hb.1 hd he (by omega) (by omega)).symm

/-! ### Texts -/

theorem encode_cons (c : Char) (s : Text) : encode (c :: s) = String.utf8EncodeChar c ++ encode s :=
  List.flatMap_cons

theorem decode_encode (s : Text) : decode (encode s) = some s := by
  induction s with
  | nil => rfl
  | cons c s ih =>
    have hrest : decodeFrom none (encode s) = some s := ih
    rw [encode_cons, decode, decodeFrom_of_spells (spells_encodeChar c), hrest, Char.ofNat_toNat]
    rfl

theorem eq_encode_of_decode {bs : Bytes} {s : Text} (h : decode bs = some s) : bs = encode s := by
  induction hn : bs.length using Nat.strongRecOn generalizing bs s with
  | ind n ih =>
    cases bs with
    | nil =>
      obtain rfl := Option.some.inj h
      rfl
    | cons b bs =>
      obtain ⟨cs, rest, k, hbs, hspells⟩ := exists_spells_of_decodeFrom h
      rw [hbs, List.length_append, List.length_cons] at hn
      rw [decode, hbs, decodeFrom_of_spells hspells] at h
      obtain ⟨t, ht, rfl⟩ := Option.map_eq_some_iff.1 h
      have hrest : rest = encode t := ih rest.length (by omega) ht rfl
      rw [hbs, encode_cons, ← eq_encodeChar_of_spells hspells, ← hrest]

theorem decode_eq_some_iff {bs : Bytes} {s : Text} : decode bs = some s ↔ bs = encode s :=
  ⟨eq_encode_of_decode, fun h => by rw [h, decode_encode]⟩

theorem decode_eq_none_iff {bs : Bytes} : decode bs = none ↔ ∀ s, bs ≠ encode s := by
  simp [Option.eq_none_iff_forall_ne_some, decode_eq_some_iff]

/-! ### Lines -/

theorem cutLines_eq_singleton {bs : Bytes} (hne : bs ≠ []) (h : newline ∉ bs) :
    cutLines bs = [bs] := by
  induction bs with
  | nil => exact absurd rfl hne
  | cons b bs ih =>
    rw [List.mem_cons, not_or] at h
    rw [cutLines, if_neg (Ne.symm h.1)]
    cases bs with
    | nil => rfl
    | cons d bs => rw [ih (List.cons_ne_nil d bs) h.2]

theorem cutLines_append {u : Bytes} (h : newline ∉ u) (v : Bytes) :
    cutLines (u ++ newline :: v) = (u ++ [newline]) :: cutLines v := by
  induction u with
  | nil => simp [cutLines]
  | cons b u ih =>
    rw [List.mem_cons, not_or] at h
    rw [List.cons_append, cutLines, if_neg (Ne.symm h.1), ih h.2]
    rfl

/-- Octets in lines. A newline ends each of them, but need not end the last one. -/
inductive InLines : Bytes → List Bytes → Prop where
  | none : InLines [] []
  | last {line : Bytes} (line_ne : line ≠ []) (noNewline : 0x0A ∉ line) : InLines line [line]
  | next {line rest : Bytes} {lines : List Bytes} (noNewline : 0x0A ∉ line)
      (others : InLines rest lines) :
      InLines (line ++ 0x0A :: rest) ((line ++ [0x0A]) :: lines)

theorem InLines.cutLines_eq {bs : Bytes} {lines : List Bytes} (h : InLines bs lines) :
    cutLines bs = lines := by
  induction h with
  | none => rfl
  | last line_ne noNewline => exact cutLines_eq_singleton line_ne noNewline
  | next noNewline _ ih => exact (cutLines_append noNewline _).trans (congrArg _ ih)

theorem inLines_cutLines (bs : Bytes) : InLines bs (cutLines bs) := by
  induction bs using Text.firstSeparator_induction (· == newline) with
  | whole u hu =>
    have hnewline : newline ∉ u := fun h => hu _ h (beq_self_eq_true _)
    by_cases hne : u = []
    · rw [hne]
      exact .none
    · rw [cutLines_eq_singleton hne hnewline]
      exact .last hne hnewline
  | part u x t hu hx ih =>
    obtain rfl := beq_iff_eq.1 hx
    have hnewline : newline ∉ u := fun h => hu _ h (beq_self_eq_true _)
    rw [cutLines_append hnewline]
    exact .next hnewline ih

theorem decode_line (u : Bytes) : decode (u ++ [newline]) = (decode u).map (· ++ ['\n']) := by
  rw [decode_append_newline]
  cases decode u <;> rfl

theorem newline_notMem_of_decode {bs : Bytes} {s : Text} (h : decode bs = some s)
    (hbs : newline ∉ bs) : '\n' ∉ s := by
  intro hs
  obtain ⟨u, v, rfl⟩ := List.append_of_mem hs
  rw [eq_encode_of_decode h, encode, List.flatMap_append, List.flatMap_cons] at hbs
  have hnewline : newline ∈ String.utf8EncodeChar '\n' := by decide
  exact hbs (List.mem_append_right _ (List.mem_append_left _ hnewline))

theorem newline_notMem_encode {s : Text} (h : '\n' ∉ s) : newline ∉ encode s := by
  intro hs
  obtain ⟨bs, cs, hcut⟩ := List.append_of_mem hs
  have hdecode := decode_encode s
  rw [hcut, decode_append_newline] at hdecode
  obtain ⟨u, -, hv⟩ := Option.bind_eq_some_iff.1 hdecode
  obtain ⟨v, -, rfl⟩ := Option.map_eq_some_iff.1 hv
  exact h (List.mem_append_right u List.mem_cons_self)

theorem cutLines_encode {s : Text} (h : '\n' ∉ s) (t : Text) :
    cutLines (encode (s ++ '\n' :: t)) = encode (s ++ ['\n']) :: cutLines (encode t) := by
  have hline : ∀ v, encode (s ++ '\n' :: v) = encode s ++ newline :: encode v := by
    intro v
    rw [encode, List.flatMap_append, List.flatMap_cons]
    rfl
  rw [hline, hline, cutLines_append (newline_notMem_encode h)]
  rfl

end BnfSentences.Utf8
