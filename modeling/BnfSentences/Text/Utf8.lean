import BnfSentences.Text.Basic

/-!
# UTF-8

`decode` reads octets as characters, octet by octet, and refuses every sequence
that is not UTF-8. A newline octet is a character of its own wherever it stands,
so a sequence can be decoded line by line: `decode_append_newline`.
-/

namespace BnfSentences.Utf8

/-- What a character still owes after its first octets: the bits read so far, the
range of the next octet, and how many octets follow that one. -/
structure Owed where
  bits : Nat
  least : UInt8
  greatest : UInt8
  after : Nat

/-- What the first octet of a longer character owes. The ranges leave out
overlong forms, surrogates and numbers above the last code point. -/
def Owed.ofFirst (b : UInt8) : Option Owed :=
  let n := b.toNat
  if n < 0xC2 then none
  else if n ≤ 0xDF then some ⟨n - 0xC0, 0x80, 0xBF, 0⟩
  else if n = 0xE0 then some ⟨0, 0xA0, 0xBF, 1⟩
  else if n = 0xED then some ⟨0xD, 0x80, 0x9F, 1⟩
  else if n ≤ 0xEF then some ⟨n - 0xE0, 0x80, 0xBF, 1⟩
  else if n = 0xF0 then some ⟨0, 0x90, 0xBF, 2⟩
  else if n ≤ 0xF3 then some ⟨n - 0xF0, 0x80, 0xBF, 2⟩
  else if n = 0xF4 then some ⟨4, 0x80, 0x8F, 2⟩
  else none

def Owed.extend (o : Owed) (b : UInt8) : Nat :=
  o.bits * 64 + (b.toNat - 0x80)

/-- The characters of `bs` that follow a character of which `owed` is missing. -/
def decodeFrom : Option Owed → Bytes → Option Text
  | none, [] => some []
  | some _, [] => none
  | none, b :: bs =>
    if b < 0x80 then (decodeFrom none bs).map (Char.ofNat b.toNat :: ·)
    else
      match Owed.ofFirst b with
      | none => none
      | some owed => decodeFrom (some owed) bs
  | some o, b :: bs =>
    if o.least ≤ b ∧ b ≤ o.greatest then
      match o.after with
      | 0 => (decodeFrom none bs).map (Char.ofNat (o.extend b) :: ·)
      | k + 1 => decodeFrom (some ⟨o.extend b, 0x80, 0xBF, k⟩) bs
    else none

def decode (bs : Bytes) : Option Text :=
  decodeFrom none bs

def encode (s : Text) : Bytes :=
  s.flatMap String.utf8EncodeChar

/-! ### Newlines -/

def newline : UInt8 := 0x0A

/-- The octets cut after every newline; each piece but the last ends in one. -/
def cutLines : Bytes → List Bytes
  | [] => []
  | b :: bs =>
    if b = newline then [b] :: cutLines bs
    else
      match cutLines bs with
      | [] => [[b]]
      | piece :: pieces => (b :: piece) :: pieces

/-! ### Line by line -/

theorem Owed.le_least_of_ofFirst {b : UInt8} {o : Owed} (h : Owed.ofFirst b = some o) :
    0x80 ≤ o.least := by
  unfold Owed.ofFirst at h
  simp only at h
  repeat' split at h
  all_goals simp only [Option.some.injEq, reduceCtorEq] at h
  all_goals simp [← h]

theorem decodeFrom_append_newline (owed : Option Owed) (h : ∀ o ∈ owed, 0x80 ≤ o.least)
    (bs cs : Bytes) :
    decodeFrom owed (bs ++ newline :: cs) =
      (decodeFrom owed bs).bind fun s => (decode cs).map (s ++ '\n' :: ·) := by
  fun_induction decodeFrom owed bs with
  | case1 => simp [decodeFrom, decode, newline]
  | case2 o =>
    have ho : ¬ o.least ≤ newline := by
      have := h o rfl
      simp only [UInt8.le_iff_toNat_le, newline] at this ⊢
      simp at this ⊢
      omega
    simp [decodeFrom, ho]
  | case3 b bs hb ih =>
    simp [decodeFrom, hb, ih h, Option.map_bind, Option.bind_map, Function.comp_def]
  | case4 b bs hb hf => simp [decodeFrom, hb, hf]
  | case5 b bs hb o hf ih =>
    simp [decodeFrom, hb, hf, ih (fun _ hx => by cases hx; exact Owed.le_least_of_ofFirst hf)]
  | case6 o b bs hr ha ih =>
    simp [decodeFrom, hr, ha, ih (fun _ hx => by cases hx), Option.map_bind, Option.bind_map,
      Function.comp_def]
  | case7 o b bs hr k ha ih =>
    simp [decodeFrom, hr, ha, ih (by simp)]
  | case8 o b bs hr => simp [decodeFrom, hr]

theorem decode_append_newline (bs cs : Bytes) :
    decode (bs ++ newline :: cs) =
      (decode bs).bind fun s => (decode cs).map (s ++ '\n' :: ·) :=
  decodeFrom_append_newline none (fun _ h => by cases h) bs cs

end BnfSentences.Utf8
