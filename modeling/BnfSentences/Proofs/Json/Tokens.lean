import BnfSentences.Json.Reader

/-!
# The tokens of a value

`tokens` is a JSON value as a row of tokens. `ofTokens?_eq_some_iff` says that the reader
takes the value back out of them, however deep it is nested, and out of no other row.
-/

namespace BnfSentences.Json

/-! ### Values as tokens -/

mutual

def tokens : Json → List Token
  | .null => [.null]
  | .bool value => [.bool value]
  | .num literal => [.num literal]
  | .str value => [.str value]
  | .arr [] => [.openArray, .closeArray]
  | .arr (v :: vs) => .openArray :: (tokens v ++ elementTokens vs)
  | .obj [] => [.openObject, .closeObject]
  | .obj ((key, v) :: ms) => .openObject :: .str key :: .colon :: (tokens v ++ memberTokens ms)

/-- The elements after the first of an array, and its end. -/
def elementTokens : List Json → List Token
  | [] => [.closeArray]
  | v :: vs => .comma :: (tokens v ++ elementTokens vs)

def memberTokens : List (CodePoints × Json) → List Token
  | [] => [.closeObject]
  | (key, v) :: ms => .comma :: .str key :: .colon :: (tokens v ++ memberTokens ms)

end

theorem tokens_ne_closeArray (v : Json) (ts rest : List Token) :
    v.tokens ++ ts ≠ .closeArray :: rest := by
  fun_cases tokens v <;> exact nofun

theorem elementTokens_ne_nil (vs : List Json) : elementTokens vs ≠ [] := by
  cases vs <;> exact nofun

theorem memberTokens_ne_nil (ms : List (CodePoints × Json)) : memberTokens ms ≠ [] := by
  cases ms <;> exact nofun

/-! ### One step of the reader -/

variable {n : Nat}

theorem readValue_openArray {ts : List Token} (h : ∀ rest, ts ≠ .closeArray :: rest) :
    readValue (n + 1) (.openArray :: ts) =
      (readElements n ts).map fun (vs, rest) => (.arr vs, rest) := by
  cases ts with
  | nil => rfl
  | cons t ts =>
    cases t with
    | closeArray => exact absurd rfl (h ts)
    | _ => rfl

theorem readValue_openObject {ts : List Token} (h : ∀ rest, ts ≠ .closeObject :: rest) :
    readValue (n + 1) (.openObject :: ts) =
      (readMembers n ts).map fun (ms, rest) => (.obj ms, rest) := by
  cases ts with
  | nil => rfl
  | cons t ts =>
    cases t with
    | closeObject => exact absurd rfl (h ts)
    | _ => rfl

/-- A budget is enough for the values that have no more tokens. -/
structure ReadsWithin (n : Nat) : Prop where
  value (v : Json) (rest : List Token) (h : v.tokens.length ≤ n) :
    readValue n (v.tokens ++ rest) = some (v, rest)
  elements (v : Json) (vs : List Json) (rest : List Token)
    (h : v.tokens.length + (elementTokens vs).length ≤ n) :
    readElements n (v.tokens ++ (elementTokens vs ++ rest)) = some (v :: vs, rest)
  members (key : CodePoints) (v : Json) (ms : List (CodePoints × Json)) (rest : List Token)
    (h : v.tokens.length + (memberTokens ms).length ≤ n) :
    readMembers n (.str key :: .colon :: (v.tokens ++ (memberTokens ms ++ rest))) =
      some ((key, v) :: ms, rest)

theorem readValue_succ (ih : ReadsWithin n) (v : Json) (rest : List Token)
    (h : v.tokens.length ≤ n + 1) : readValue (n + 1) (v.tokens ++ rest) = some (v, rest) := by
  cases v with
  | null => rfl
  | bool value => rfl
  | num literal => rfl
  | str value => rfl
  | arr vs =>
    cases vs with
    | nil => rfl
    | cons v vs =>
      simp only [tokens, List.length_cons, List.length_append] at h
      have hread := ih.elements v vs rest (by omega)
      rw [tokens, List.cons_append, List.append_assoc,
        readValue_openArray (tokens_ne_closeArray v _), hread]
      rfl
  | obj ms =>
    cases ms with
    | nil => rfl
    | cons m ms =>
      obtain ⟨key, v⟩ := m
      simp only [tokens, List.length_cons, List.length_append] at h
      have hread := ih.members key v ms rest (by omega)
      simp only [tokens, List.cons_append, List.append_assoc, readValue, hread]
      rfl

theorem readElements_succ (ih : ReadsWithin n) (v : Json) (vs : List Json) (rest : List Token)
    (h : v.tokens.length + (elementTokens vs).length ≤ n + 1) :
    readElements (n + 1) (v.tokens ++ (elementTokens vs ++ rest)) = some (v :: vs, rest) := by
  have hpos := List.length_pos_iff.2 (elementTokens_ne_nil vs)
  rw [readElements, ih.value v _ (by omega)]
  cases vs with
  | nil => rfl
  | cons w vs =>
    simp only [elementTokens, List.length_cons, List.length_append] at h
    have hread := ih.elements w vs rest (by omega)
    simp only [elementTokens, List.cons_append, List.append_assoc, hread]
    rfl

theorem readMembers_succ (ih : ReadsWithin n) (key : CodePoints) (v : Json)
    (ms : List (CodePoints × Json)) (rest : List Token)
    (h : v.tokens.length + (memberTokens ms).length ≤ n + 1) :
    readMembers (n + 1) (.str key :: .colon :: (v.tokens ++ (memberTokens ms ++ rest))) =
      some ((key, v) :: ms, rest) := by
  have hpos := List.length_pos_iff.2 (memberTokens_ne_nil ms)
  rw [readMembers, ih.value v _ (by omega)]
  cases ms with
  | nil => rfl
  | cons m ms =>
    obtain ⟨k, w⟩ := m
    simp only [memberTokens, List.length_cons, List.length_append] at h
    have hread := ih.members k w ms rest (by omega)
    simp only [memberTokens, List.cons_append, List.append_assoc, hread]
    rfl

/-! ### What one step takes -/

/-- Whatever the budget, what is read as a value are the tokens of that value. -/
structure TakesWithin (n : Nat) : Prop where
  value {ts rest : List Token} {v : Json} (h : readValue n ts = some (v, rest)) :
    ts = v.tokens ++ rest
  elements {ts rest : List Token} {vs : List Json} (h : readElements n ts = some (vs, rest)) :
    ∃ v ws, vs = v :: ws ∧ ts = v.tokens ++ (elementTokens ws ++ rest)
  members {ts rest : List Token} {ms : List (CodePoints × Json)}
    (h : readMembers n ts = some (ms, rest)) :
    ∃ key v ns, ms = (key, v) :: ns ∧
      ts = .str key :: .colon :: (v.tokens ++ (memberTokens ns ++ rest))

theorem eq_of_readValue_succ (ih : TakesWithin n) {ts rest : List Token} {v : Json}
    (h : readValue (n + 1) ts = some (v, rest)) : ts = v.tokens ++ rest := by
  cases ts with
  | nil => cases h
  | cons t ts =>
    cases t with
    | null | bool | num | str =>
      cases h
      rfl
    | closeArray | closeObject | comma | colon => cases h
    | openArray =>
      by_cases hclose : ∃ us, ts = .closeArray :: us
      · obtain ⟨us, rfl⟩ := hclose
        cases h
        rfl
      · rw [readValue_openArray fun us hus => hclose ⟨us, hus⟩] at h
        obtain ⟨⟨vs, us⟩, hread, heq⟩ := Option.map_eq_some_iff.1 h
        obtain ⟨w, ws, rfl, rfl⟩ := ih.elements hread
        cases heq
        simp [tokens]
    | openObject =>
      by_cases hclose : ∃ us, ts = .closeObject :: us
      · obtain ⟨us, rfl⟩ := hclose
        cases h
        rfl
      · rw [readValue_openObject fun us hus => hclose ⟨us, hus⟩] at h
        obtain ⟨⟨ms, us⟩, hread, heq⟩ := Option.map_eq_some_iff.1 h
        obtain ⟨key, w, ns, rfl, rfl⟩ := ih.members hread
        cases heq
        simp [tokens]

theorem eq_of_readElements_succ (ih : TakesWithin n) {ts rest : List Token} {vs : List Json}
    (h : readElements (n + 1) ts = some (vs, rest)) :
    ∃ v ws, vs = v :: ws ∧ ts = v.tokens ++ (elementTokens ws ++ rest) := by
  rw [readElements] at h
  split at h
  · next v us hread =>
    cases h
    exact ⟨v, [], rfl, ih.value hread⟩
  · next v us hread =>
    obtain ⟨⟨ws, rest'⟩, hothers, heq⟩ := Option.map_eq_some_iff.1 h
    obtain ⟨w, ws, rfl, rfl⟩ := ih.elements hothers
    cases heq
    refine ⟨v, w :: ws, rfl, ?_⟩
    rw [ih.value hread]
    simp [elementTokens]
  · cases h

theorem eq_of_readMembers_succ (ih : TakesWithin n) {ts rest : List Token}
    {ms : List (CodePoints × Json)} (h : readMembers (n + 1) ts = some (ms, rest)) :
    ∃ key v ns, ms = (key, v) :: ns ∧
      ts = .str key :: .colon :: (v.tokens ++ (memberTokens ns ++ rest)) := by
  unfold readMembers at h
  split at h
  · cases h
  · next key ts hn =>
    cases hn
    split at h
    · next v us hread =>
      cases h
      exact ⟨key, v, [], rfl, congrArg (.str key :: .colon :: ·) (ih.value hread)⟩
    · next v us hread =>
      obtain ⟨⟨ns, rest'⟩, hothers, heq⟩ := Option.map_eq_some_iff.1 h
      obtain ⟨key', w, ns, rfl, rfl⟩ := ih.members hothers
      cases heq
      refine ⟨key, v, (key', w) :: ns, rfl, ?_⟩
      rw [ih.value hread]
      simp [memberTokens]
    · cases h
  · cases h

/-! ### Whole values -/

theorem readsWithin (n : Nat) : ReadsWithin n := by
  induction n with
  | zero =>
    have hpos : ∀ v : Json, 0 < v.tokens.length := by
      intro v
      fun_cases tokens v <;> exact Nat.succ_pos _
    refine ⟨?_, ?_, ?_⟩
    · intro v rest h
      have := hpos v
      omega
    · intro v vs rest h
      have := hpos v
      omega
    · intro key v ms rest h
      have := hpos v
      omega
  | succ n ih => exact ⟨readValue_succ ih, readElements_succ ih, readMembers_succ ih⟩

theorem takesWithin (n : Nat) : TakesWithin n := by
  induction n with
  | zero => exact ⟨nofun, nofun, nofun⟩
  | succ n ih =>
    exact ⟨eq_of_readValue_succ ih, eq_of_readElements_succ ih, eq_of_readMembers_succ ih⟩

theorem ofTokens?_tokens (v : Json) : ofTokens? v.tokens = some v := by
  have hread := (readsWithin (2 * v.tokens.length + 1)).value v [] (by omega)
  rw [List.append_nil] at hread
  rw [ofTokens?, hread]

theorem ofTokens?_eq_some_iff {ts : List Token} {v : Json} :
    ofTokens? ts = some v ↔ ts = v.tokens := by
  constructor
  · intro h
    unfold ofTokens? at h
    split at h
    · next hread =>
      cases h
      simpa using (takesWithin _).value hread
    · cases h
  · rintro rfl
    exact ofTokens?_tokens v

end BnfSentences.Json
