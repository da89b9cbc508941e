import BnfSentences.Proofs.Text.Words
import BnfSentences.Text.Lines

/-!
# Lines written and read

No line of a text has a newline in it. `lines_intercalate` reads lines back that
were joined by newlines.
-/

namespace BnfSentences.Text

/-! ### Returns -/

theorem dropReturn_eq_self {s : Text} (h : s.getLast? ≠ some '\r') : dropReturn s = s := by
  fun_induction dropReturn s with
  | case1 => rfl
  | case2 => exact absurd rfl h
  | case3 c s hne ih =>
    cases s with
    | nil => rfl
    | cons d s => rw [ih (by rwa [List.getLast?_cons_cons] at h)]

theorem isPrefix_dropReturn (s : Text) : dropReturn s <+: s := by
  fun_induction dropReturn s with
  | case1 => exact List.prefix_rfl
  | case2 => exact List.nil_prefix
  | case3 c s _ ih => exact List.cons_prefix_cons.2 ⟨rfl, ih⟩

theorem dropReturn_append_return (s : Text) : dropReturn (s ++ ['\r']) = s := by
  induction s with
  | nil => rfl
  | cons c s ih =>
    rw [List.cons_append, dropReturn, ih]
    simp

theorem dropReturn_eq (s : Text) :
    dropReturn s = if s.getLast? = some '\r' then s.dropLast else s := by
  split
  · next h =>
    obtain ⟨u, rfl⟩ := List.getLast?_eq_some_iff.1 h
    rw [dropReturn_append_return, List.dropLast_concat]
  · next h => exact dropReturn_eq_self h

/-! ### Lines -/

theorem lines_eq_singleton {s : Text} (hne : s ≠ []) (h : '\n' ∉ s) : lines s = [s] := by
  simp [lines, List.splitOn_eq_singleton h, linesOfPieces, hne]

theorem lines_cons {u : Text} (h : '\n' ∉ u) (t : Text) :
    lines (u ++ '\n' :: t) = dropReturn u :: lines t := by
  rw [lines, List.splitOn_append_cons_self_of_not_mem h, linesOfPieces]
  · rfl
  · exact List.splitOn_ne_nil _ _

/-- Only the return directly before a newline goes with it. -/
theorem lines_cons_return {u : Text} (h : '\n' ∉ u) (t : Text) :
    lines (u ++ '\r' :: '\n' :: t) = u :: lines t := by
  have hreturn : '\n' ∉ u ++ ['\r'] := by simp [h]
  have hline := lines_cons hreturn t
  rwa [List.append_assoc, List.singleton_append, dropReturn_append_return] at hline

theorem mem_linesOfPieces {ps : List Text} {l : Text} (h : l ∈ linesOfPieces ps) :
    ∃ p ∈ ps, l <:+: p := by
  fun_induction linesOfPieces ps with
  | case1 => cases h
  | case2 last hl => cases h
  | case3 last hl =>
    obtain rfl := List.mem_singleton.1 h
    exact ⟨l, List.mem_cons_self, List.infix_rfl⟩
  | case4 p ps _ ih =>
    rcases List.mem_cons.1 h with rfl | h
    · exact ⟨p, List.mem_cons_self, (isPrefix_dropReturn p).isInfix⟩
    · obtain ⟨q, hq, hl⟩ := ih h
      exact ⟨q, List.mem_cons_of_mem p hq, hl⟩

theorem newline_notMem_of_mem_lines {s l : Text} (h : l ∈ lines s) : '\n' ∉ l := by
  obtain ⟨p, hp, hl⟩ := mem_linesOfPieces h
  exact fun hn => (mem_splitOn hp).2 (hl.subset hn)

theorem lines_flatMap {ending : Text} {read : Text → Text} {ls : List Text}
    (h : ∀ l ∈ ls, ∀ t, lines (l ++ ending ++ t) = read l :: lines t) :
    lines (ls.flatMap (· ++ ending)) = ls.map read := by
  induction ls with
  | nil => rfl
  | cons l ls ih =>
    have hothers := ih fun k hk => h k (List.mem_cons_of_mem l hk)
    rw [List.flatMap_cons, h l List.mem_cons_self, hothers, List.map_cons]

theorem splitOn_ended {ls : List Text} (h : ∀ l ∈ ls, '\n' ∉ l) :
    (ls.flatMap (· ++ ['\n'])).splitOn '\n' = ls ++ [[]] := by
  induction ls with
  | nil => rfl
  | cons l ls ih =>
    have hothers := ih fun k hk => h k (List.mem_cons_of_mem l hk)
    have hline : '\n' ∉ l := h l List.mem_cons_self
    rw [List.flatMap_cons, List.append_assoc, List.singleton_append,
      List.splitOn_append_cons_self_of_not_mem hline, hothers, List.cons_append]

/-- Lines that are neither empty nor end in a return are read as they were written. -/
theorem lines_intercalate {ls : List Text}
    (h : ∀ l ∈ ls, l ≠ [] ∧ '\n' ∉ l ∧ l.getLast? ≠ some '\r') :
    lines (['\n'].intercalate ls) = ls := by
  have hpieces : linesOfPieces ls = ls := by
    induction ls with
    | nil => rfl
    | cons l ls ih =>
      have hl := h l List.mem_cons_self
      have hls := ih fun k hk => h k (List.mem_cons_of_mem l hk)
      cases ls with
      | nil => simp [linesOfPieces, hl.1]
      | cons k ls => rw [linesOfPieces, hls, dropReturn_eq_self hl.2.2]; exact List.cons_ne_nil k ls
  cases ls with
  | nil => rfl
  | cons l ls =>
    rw [lines, List.splitOn_intercalate '\n' (fun k hk => (h k hk).2.1) (List.cons_ne_nil l ls),
      hpieces]

end BnfSentences.Text
