import ComponentDiagram.Text.Lines
import Mathlib

/-! White space at the ends of a text, and at the ends of words joined by spaces. -/
namespace ComponentDiagram

variable {β : Type}

/-- A list without the elements at both ends that pass. -/
def strip (p : β → Bool) (l : List β) : List β := ((l.dropWhile p).reverse.dropWhile p).reverse

theorem strip_eq_self {p : β → Bool} {l : List β} (hf : ∀ b ∈ l.head?, p b = false)
    (hl : ∀ b ∈ l.getLast?, p b = false) : strip p l = l := by
  have hdrop {m : List β} (h : ∀ b ∈ m.head?, p b = false) : m.dropWhile p = m := by
    cases m with
    | nil => rfl
    | cons b m => rw [List.dropWhile_cons_of_neg (by simp [h b rfl])]
  rw [strip, hdrop hf, hdrop, List.reverse_reverse]
  rwa [List.head?_reverse]

private theorem strip_start (p : β → Bool) (l : List β) : strip p l <+: l.dropWhile p := by
  rw [strip, ← List.reverse_suffix, List.reverse_reverse]
  exact List.dropWhile_suffix p

theorem strip_sublist (p : β → Bool) (l : List β) : (strip p l).Sublist l :=
  (strip_start p l).sublist.trans (List.dropWhile_sublist p)

theorem mem_of_mem_strip {p : β → Bool} {l : List β} {b : β} (h : b ∈ strip p l) : b ∈ l :=
  (strip_sublist p l).subset h

/-- The ends of a stripped list do not pass. -/
theorem strip_ends (p : β → Bool) (l : List β) :
    (∀ b ∈ (strip p l).head?, p b = false) ∧ (∀ b ∈ (strip p l).getLast?, p b = false) := by
  have hdrop (m : List β) : ∀ b ∈ (m.dropWhile p).head?, p b = false := by
    intro b hb
    have hnot := List.head?_dropWhile_not p m
    rw [Option.mem_def.mp hb] at hnot
    exact hnot
  constructor
  · obtain ⟨rest, hr⟩ := strip_start p l
    intro b hb
    apply hdrop l b
    rw [← hr, List.head?_append]
    simp only [Option.mem_def] at hb ⊢
    rw [hb]
    rfl
  · intro b hb
    rw [strip, List.getLast?_reverse] at hb
    exact hdrop _ b hb

namespace Text

theorem trim_eq_strip (cs : List Char) : trim cs = strip isWhitespace cs := rfl

theorem trimEnd_eq_self {cs : List Char} (h : ∀ c ∈ cs.getLast?, isWhitespace c = false) :
    trimEnd cs = cs := by
  rw [trimEnd]
  cases hr : cs.reverse with
  | nil => rw [List.reverse_eq_nil_iff.mp hr]; rfl
  | cons c rest =>
    have hc := h c (by rw [List.getLast?_eq_head?_reverse, hr]; rfl)
    rw [List.dropWhile_cons_of_neg (by simp [hc]), ← hr, List.reverse_reverse]

/-- What is trimmed at the end is white space. -/
theorem trimEnd_split (cs : List Char) :
    ∃ ws, cs = trimEnd cs ++ ws ∧ ∀ c ∈ ws, isWhitespace c = true := by
  refine ⟨(cs.reverse.takeWhile isWhitespace).reverse, ?_,
    fun c hc => List.mem_takeWhile_imp (List.mem_reverse.mp hc)⟩
  have h := congrArg List.reverse
    (List.takeWhile_append_dropWhile (p := isWhitespace) (l := cs.reverse))
  rw [List.reverse_append, List.reverse_reverse] at h
  exact h.symm

theorem last_of_trimEnd (cs : List Char) :
    ∀ c ∈ (trimEnd cs).getLast?, isWhitespace c = false := by
  intro c hc
  have hnot := List.head?_dropWhile_not isWhitespace cs.reverse
  rw [trimEnd, List.getLast?_reverse] at hc
  rw [Option.mem_def.mp hc] at hnot
  exact hnot

/-- A trimmed text ends with a character that is no white space. -/
theorem last_of_trimmed {cs : List Char} (h : trim cs = cs) :
    ∀ c ∈ cs.getLast?, isWhitespace c = false := by
  rw [← h]
  exact (strip_ends isWhitespace cs).2

theorem trim_trim (cs : List Char) : trim (trim cs) = trim cs := by
  have hends := strip_ends isWhitespace cs
  rw [trim_eq_strip, trim_eq_strip]
  exact strip_eq_self hends.1 hends.2

/-- A word is not empty, and white space throughout or nowhere. -/
def IsWord (cs : List Char) : Prop :=
  cs ≠ [] ∧ ((∀ c ∈ cs, isWhitespace c = true) ∨ ∀ c ∈ cs, isWhitespace c = false)

/-- The word is white space. -/
def isBlankWord (cs : List Char) : Bool := cs.all isWhitespace

theorem IsWord.not_blank {cs : List Char} (h : IsWord cs) (hb : isBlankWord cs = false) :
    ∀ c ∈ cs, isWhitespace c = false := by
  rcases h.2 with hall | hnone
  · rw [isBlankWord, List.all_eq_true.mpr hall] at hb
    cases hb
  · exact hnone

private theorem dropWhile_all {p : Char → Bool} {a b : List Char} (ha : ∀ c ∈ a, p c = true) :
    (a ++ b).dropWhile p = b.dropWhile p := by
  induction a with
  | nil => rfl
  | cons c a ih =>
    rw [List.cons_append, List.dropWhile_cons_of_pos (ha c (List.mem_cons_self ..)),
      ih fun d hd => ha d (List.mem_cons_of_mem c hd)]

theorem trimEnd_append {cs ws : List Char} (h : ∀ c ∈ ws, isWhitespace c = true) :
    trimEnd (cs ++ ws) = trimEnd cs := by
  rw [trimEnd, trimEnd, List.reverse_append, dropWhile_all fun c hc => h c (List.mem_reverse.mp hc)]

/-- White space behind a text is trimmed. -/
theorem trim_append {cs ws : List Char} (h : ∀ c ∈ ws, isWhitespace c = true) :
    trim (cs ++ ws) = trim cs := by
  rw [trim, trim, List.dropWhile_append]
  split
  · rename_i hempty
    rw [List.isEmpty_iff.mp hempty, List.dropWhile_eq_nil_iff.mpr h]
  · exact trimEnd_append h

/-- White space in front of joined words is words of white space. -/
theorem dropWhile_join {ws : List (List Char)} (h : ∀ w ∈ ws, IsWord w) :
    ([' '].intercalate ws).dropWhile isWhitespace =
      [' '].intercalate (ws.dropWhile isBlankWord) := by
  induction ws with
  | nil => rfl
  | cons w ws ih =>
    have hw := h w (List.mem_cons_self ..)
    have hrest := ih fun v hv => h v (List.mem_cons_of_mem w hv)
    cases hb : isBlankWord w with
    | true =>
      have hall : ∀ c ∈ w, isWhitespace c = true := List.all_eq_true.mp hb
      rw [List.dropWhile_cons_of_pos hb, ← hrest]
      cases ws with
      | nil =>
        rw [List.intercalate_singleton, List.dropWhile_eq_nil_iff.mpr hall]
        rfl
      | cons v ws =>
        rw [List.intercalate_cons_cons, List.append_assoc, dropWhile_all hall,
          dropWhile_all (by simp [isWhitespace])]
    | false =>
      rw [List.dropWhile_cons_of_neg (by simp [hb])]
      obtain ⟨c, tail, rfl⟩ := List.exists_cons_of_ne_nil hw.1
      have hc := hw.not_blank hb c (List.mem_cons_self ..)
      rw [List.intercalate_cons_cons_left, List.dropWhile_cons_of_neg (by simp [hc])]

theorem join_append {ws vs : List (List Char)} (hw : ws ≠ []) (hv : vs ≠ []) :
    [' '].intercalate (ws ++ vs) = [' '].intercalate ws ++ ' ' :: [' '].intercalate vs := by
  induction ws with
  | nil => exact absurd rfl hw
  | cons w ws ih =>
    cases ws with
    | nil =>
      rw [List.singleton_append, List.intercalate_cons_of_ne_nil hv, List.intercalate_singleton]
      simp
    | cons u ws =>
      rw [List.cons_append, List.intercalate_cons_of_ne_nil (by simp), ih (by simp),
        List.intercalate_cons_cons]
      simp

theorem mem_join {ws : List (List Char)} {c : Char} (h : c ∈ [' '].intercalate ws) :
    c = ' ' ∨ ∃ w ∈ ws, c ∈ w := by
  induction ws with
  | nil => cases h
  | cons w ws ih =>
    cases ws with
    | nil => exact .inr ⟨w, List.mem_cons_self .., by rwa [List.intercalate_singleton] at h⟩
    | cons v ws =>
      rw [List.intercalate_cons_cons, List.append_assoc, List.singleton_append, List.mem_append,
        List.mem_cons] at h
      rcases h with h | h | h
      · exact .inr ⟨w, List.mem_cons_self .., h⟩
      · exact .inl h
      · rcases ih h with h | ⟨u, hu, h⟩
        · exact .inl h
        · exact .inr ⟨u, List.mem_cons_of_mem w hu, h⟩

private theorem reverse_join (ws : List (List Char)) : ([' '].intercalate ws).reverse =
    [' '].intercalate (ws.reverse.map List.reverse) := by
  induction ws with
  | nil => rfl
  | cons w ws ih =>
    cases ws with
    | nil => simp [List.intercalate_singleton]
    | cons v ws =>
      rw [List.intercalate_cons_cons, List.reverse_append, List.reverse_append, ih,
        List.reverse_cons (a := w), List.map_append, List.map_singleton,
        join_append (by simp) (by simp), List.intercalate_singleton]
      rfl

/-- White space around joined words is words of white space. -/
theorem trim_join {ws : List (List Char)} (h : ∀ w ∈ ws, IsWord w) :
    trim ([' '].intercalate ws) = [' '].intercalate (strip isBlankWord ws) := by
  have hsub := List.dropWhile_suffix isBlankWord (l := ws)
  have hword : ∀ w ∈ (ws.dropWhile isBlankWord).reverse.map List.reverse, IsWord w := by
    intro w hw
    obtain ⟨v, hv, rfl⟩ := List.mem_map.mp hw
    have hv' := h v (hsub.subset (List.mem_reverse.mp hv))
    exact ⟨by simpa using hv'.1, by simpa using hv'.2⟩
  have hblank (vs : List (List Char)) : (vs.map List.reverse).dropWhile isBlankWord =
      (vs.dropWhile isBlankWord).map List.reverse := by
    rw [List.dropWhile_map]
    congr 2
    funext w
    simp [isBlankWord]
  rw [trim, trimEnd, dropWhile_join h, reverse_join, dropWhile_join hword, hblank, reverse_join,
    strip, List.map_reverse, List.map_map,
    show List.reverse ∘ List.reverse = @id (List Char) from funext List.reverse_reverse,
    List.map_id]

end Text

end ComponentDiagram
