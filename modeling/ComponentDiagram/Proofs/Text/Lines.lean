import ComponentDiagram.Text.Lines
import Mathlib

/-! The lines of a text, and the one that a place in the text is on. -/
namespace ComponentDiagram.Text

theorem newline_not_mem_lines (cs : List Char) : ∀ line ∈ lines cs, '\n' ∉ line := by
  induction cs with
  | nil => simp [lines]
  | cons c cs ih =>
    obtain ⟨line, others, h⟩ := List.exists_cons_of_ne_nil (lines_ne_nil cs)
    rw [h, List.forall_mem_cons] at ih
    rw [lines]
    split
    · rw [h]
      exact List.forall_mem_cons.mpr ⟨List.not_mem_nil, List.forall_mem_cons.mpr ih⟩
    · rename_i hc
      rw [h]
      refine List.forall_mem_cons.mpr ⟨?_, ih.2⟩
      rw [List.mem_cons, not_or]
      exact ⟨Ne.symm hc, ih.1⟩

theorem lines_line {line : List Char} (h : '\n' ∉ line) : lines line = [line] := by
  induction line with
  | nil => rfl
  | cons c line ih =>
    rw [List.mem_cons, not_or] at h
    rw [lines, if_neg (Ne.symm h.1), ih h.2]

theorem lines_append_line {line : List Char} (h : '\n' ∉ line) (rest : List Char) :
    lines (line ++ '\n' :: rest) = line :: lines rest := by
  induction line with
  | nil => rw [List.nil_append, lines, if_pos rfl]
  | cons c line ih =>
    rw [List.mem_cons, not_or] at h
    rw [List.cons_append, lines, if_neg (Ne.symm h.1), ih h.2]

theorem unlines_cons {ls : List (List Char)} (h : ls ≠ []) (line : List Char) :
    unlines (line :: ls) = line ++ '\n' :: unlines ls := by
  rw [unlines, List.intercalate_cons_of_ne_nil h, List.append_assoc]
  rfl

theorem unlines_concat {ls : List (List Char)} (h : ls ≠ []) (line : List Char) :
    unlines (ls ++ [line]) = unlines ls ++ '\n' :: line := by
  induction ls with
  | nil => exact absurd rfl h
  | cons first ls ih =>
    cases ls with
    | nil => simp [unlines, List.intercalate]
    | cons next ls =>
      rw [List.cons_append, unlines_cons (by simp), ih (List.cons_ne_nil _ _),
        unlines_cons (List.cons_ne_nil _ _), List.append_assoc, List.cons_append]

/-- Lines that are put together are split again where they were. -/
theorem lines_unlines {ls : List (List Char)} (hne : ls ≠ []) (h : ∀ line ∈ ls, '\n' ∉ line) :
    lines (unlines ls) = ls := by
  induction ls with
  | nil => exact absurd rfl hne
  | cons line ls ih =>
    obtain ⟨hline, hls⟩ := List.forall_mem_cons.mp h
    cases ls with
    | nil => rw [unlines, List.intercalate_singleton, lines_line hline]
    | cons next ls =>
      rw [unlines_cons (List.cons_ne_nil _ _), lines_append_line hline,
        ih (List.cons_ne_nil _ _) hls]

/-! ## Places -/

/-- What stands behind the last line feed. -/
def lastLine (cs : List Char) : List Char := (cs.reverse.takeWhile (· != '\n')).reverse

theorem lastLine_newline (cs : List Char) : lastLine (cs ++ ['\n']) = [] := by
  simp [lastLine]

theorem lastLine_concat (cs : List Char) {c : Char} (h : c ≠ '\n') :
    lastLine (cs ++ [c]) = lastLine cs ++ [c] := by
  simp [lastLine, h]

theorem lines_eq_cons (cs : List Char) :
    lines cs = cs.takeWhile (· != '\n') :: (lines cs).tail := by
  induction cs with
  | nil => rfl
  | cons c cs ih =>
    rw [lines]
    split
    · rename_i hc
      simp [hc]
    · rename_i hc
      rw [ih]
      simp [hc]

/-- Behind a stretch of text, the line goes on that the stretch ends on. -/
theorem drop_lines (a b : List Char) : (lines (a ++ b)).drop (a.count '\n') =
    (lastLine a ++ b.takeWhile (· != '\n')) :: (lines b).tail := by
  induction a using List.reverseRecOn generalizing b with
  | nil => exact lines_eq_cons b
  | append_singleton a c ih =>
    rw [List.append_assoc, List.singleton_append, List.count_append]
    by_cases hc : c = '\n'
    · subst hc
      rw [List.count_singleton_self, ← List.drop_drop, ih, lastLine_newline, lines, if_pos rfl]
      exact lines_eq_cons b
    · rw [List.count_singleton, if_neg (by simpa using hc), Nat.add_zero, ih,
        lastLine_concat a hc, List.takeWhile_cons_of_pos (by simpa using hc), lines, if_neg hc,
        lines_eq_cons b]
      simp

theorem getElem?_lines (a b : List Char) :
    (lines (a ++ b))[a.count '\n']? = some (lastLine a ++ b.takeWhile (· != '\n')) := by
  rw [← List.head?_drop, drop_lines, List.head?_cons]

end ComponentDiagram.Text
