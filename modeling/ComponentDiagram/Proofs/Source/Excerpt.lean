import ComponentDiagram.Proofs.Source.Coverage
import ComponentDiagram.Proofs.Text.Lines
import ComponentDiagram.Source.Excerpt

/-! What an error shows of a text: the lines around its place, each behind its own number, and a
marker between them. -/
namespace ComponentDiagram

/-- The items of a list from one to another, counted from one. -/
def between {β : Type} (first last : Nat) (l : List β) : List β := (l.take last).drop (first - 1)

section

variable {β : Type} (l : List β)

theorem length_between (first last : Nat) :
    (between first last l).length = min last l.length - (first - 1) := by
  rw [between, List.length_drop, List.length_take]

theorem mem_of_mem_between {first last : Nat} {x : β} (h : x ∈ between first last l) : x ∈ l :=
  List.mem_of_mem_take (List.mem_of_mem_drop h)

theorem between_append {first middle last : Nat} (hf : first ≤ middle + 1) (hm : middle ≤ last) :
    between first middle l ++ between (middle + 1) last l = between first last l := by
  have hlast : last - (first - 1) = middle - (first - 1) + (last - middle) := by omega
  have hmiddle : first - 1 + (middle - (first - 1)) = middle := by omega
  simp only [between, List.drop_take]
  rw [hlast, List.take_add, List.drop_drop, hmiddle, Nat.add_sub_cancel]

theorem between_self {n : Nat} (h : n < l.length) : between (n + 1) (n + 1) l = [l[n]] := by
  rw [between, List.drop_take, Nat.add_sub_cancel, Nat.add_sub_cancel_left,
    List.drop_eq_getElem_cons h]
  rfl

end

namespace ErrorContext

/-- Lines behind their numbers, which are counted from the first one on. -/
def labelled (first : Nat) (ls : List (List Char)) : List (List Char) :=
  (ls.zipIdx first).map fun (line, number) => lineLabel number ++ line

theorem labelled_append (first : Nat) (ls ms : List (List Char)) :
    labelled first (ls ++ ms) = labelled first ls ++ labelled (first + ls.length) ms := by
  rw [labelled, List.zipIdx_append, List.map_append]
  rfl

/-- Lines keep their numbers where only some of them are shown. -/
theorem between_labelled {first : Nat} (h : 0 < first) (last : Nat) (ls : List (List Char)) :
    between first last (labelled 1 ls) = labelled first (between first last ls) := by
  refine List.ext_getElem? fun i => ?_
  have hnumber : 1 + (first - 1 + i) = first + i := by omega
  simp only [between, labelled, List.getElem?_drop, List.getElem?_take, List.getElem?_map,
    List.getElem?_zipIdx, hnumber]
  split <;> rfl

/-- What is shown without a marker. -/
theorem numbered_apart (c : ErrorContext) (first : Nat) (ls : List (List Char))
    (h : c.line < first ∨ first + ls.length ≤ c.line) :
    c.numbered first ls = labelled first ls := by
  induction ls generalizing first with
  | nil => rfl
  | cons line ls ih =>
    rw [List.length_cons] at h
    have hfirst : (first : Int) ≠ c.line := by omega
    rw [numbered, if_neg hfirst]
    have hrest := ih (first + 1) (by omega)
    rw [Nat.cast_add, Nat.cast_one] at hrest
    rw [hrest]
    rfl

theorem numbered_append (c : ErrorContext) (first : Nat) (ls ms : List (List Char)) :
    c.numbered first (ls ++ ms) =
      c.numbered first ls ++ c.numbered (first + ls.length : Nat) ms := by
  induction ls generalizing first with
  | nil => rfl
  | cons line ls ih =>
    rw [List.cons_append, numbered, numbered]
    have hrest := ih (first + 1)
    rw [Nat.cast_add, Nat.cast_one] at hrest
    rw [hrest, List.append_assoc, List.length_cons, Nat.add_assoc, Nat.add_comm 1]

/-- The marker of a place, below the line that it is on. -/
def marker (p : Position) : List Char :=
  List.replicate ((lineLabel p.line).length + (p.column - 1)) ' ' ++ ['^', '^', '^']

/-- The lines from two before a place to two after it, as far as there are any, with the marker of
the place directly below its line. -/
def around (ls : List (List Char)) (p : Position) : List (List Char) :=
  between (max 1 (p.line - 2)) p.line (labelled 1 ls) ++
    marker p :: between (p.line + 1) (min ls.length (p.line + 2)) (labelled 1 ls)

/-- The lines around a place are its own, those above and those below. -/
theorem between_around {ls : List (List Char)} {n first last : Nat} (h : n < ls.length)
    (hf : first ≤ n + 1) (hl : n < last) : between first last ls =
      between first n ls ++ ls[n] :: between (n + 2) last ls := by
  rw [← between_append ls hf (show n ≤ last by omega),
    ← between_append ls (Nat.le_succ _) (show n + 1 ≤ last by omega), between_self ls h]
  rfl

/-- What is shown with a marker: the lines around its place, and no others. -/
theorem numbered_around {c : ErrorContext} {n k : Nat} {ls : List (List Char)} (h : n < ls.length)
    (hline : c.line = (n + 1 : Nat)) (hcolumn : c.column = (k + 1 : Nat)) :
    c.numbered (max 1 (n + 1 - 2) : Nat)
      (between (max 1 (n + 1 - 2)) (min ls.length (n + 1 + 2)) ls) = around ls ⟨n + 1, k + 1⟩ := by
  have hfirst : max 1 (n + 1 - 2) ≤ n + 1 ∧ 0 < max 1 (n + 1 - 2) := by omega
  have hlast : n < min ls.length (n + 1 + 2) := by omega
  rw [around]
  dsimp only
  generalize max 1 (n + 1 - 2) = first at *
  generalize min ls.length (n + 1 + 2) = last at *
  have hlength : first + (between first n ls).length = n + 1 := by
    rw [length_between]
    omega
  have hwidth : (((lineLabel (n + 1 : Nat)).length : Int) + c.column - 1).toNat =
      (lineLabel (n + 1 : Nat)).length + (k + 1 - 1) := by
    rw [hcolumn]
    omega
  have habove : between first (n + 1) ls = between first n ls ++ [ls[n]] := by
    rw [← between_append ls hfirst.1 (Nat.le_succ n), between_self ls h]
  have hbelow : c.numbered (n + 1 : Nat) (ls[n] :: between (n + 2) last ls) =
      (lineLabel (n + 1 : Nat) ++ ls[n]) :: marker ⟨n + 1, k + 1⟩ ::
        labelled (n + 2) (between (n + 2) last ls) := by
    rw [numbered, if_pos hline.symm, hwidth]
    have hrest := numbered_apart c (n + 2) (between (n + 2) last ls) (.inl (by omega))
    rw [← hrest]
    rfl
  rw [between_labelled hfirst.2, between_labelled (by omega), habove, labelled_append, hlength,
    between_around h hfirst.1 hlast, numbered_append, numbered_apart _ _ _ (by omega), hlength,
    hbelow, List.append_assoc]
  rfl

/-- The excerpt of a text is the lines around the place, as they are. -/
theorem lines_excerpt {text : String} {n : Nat} (h : n < (Text.lines text.toList).length) :
    Text.lines (excerpt text (n + 1 : Nat) 2).toList =
      between (max 1 (n + 1 - 2)) (min (Text.lines text.toList).length (n + 1 + 2))
        (Text.lines text.toList) := by
  have hlines := Text.newline_not_mem_lines text.toList
  rw [excerpt, String.toList_ofList]
  generalize Text.lines text.toList = ls at *
  have hfirst : ((n + 1 : Nat) - 1 - 2 : Int).toNat = max 1 (n + 1 - 2) - 1 := by omega
  have hlast : sliceEnd ls.length (min ls.length ((n + 1 : Nat) + 2 : Int)) =
      min ls.length (n + 1 + 2) := by
    rw [sliceEnd, if_neg (by omega)]
    omega
  rw [hfirst, hlast, ← between]
  refine Text.lines_unlines (fun hnil => ?_) fun line hline =>
    hlines line (mem_of_mem_between ls hline)
  have hlength := length_between ls (max 1 (n + 1 - 2)) (min ls.length (n + 1 + 2))
  rw [hnil, List.length_nil] at hlength
  omega

/-- Only an empty text has an empty excerpt: a text of several lines shows more than one. -/
theorem excerpt_ne_empty {text : String} (ht : text ≠ "") {n : Nat}
    (h : n < (Text.lines text.toList).length) : excerpt text (n + 1 : Nat) 2 ≠ "" := by
  intro he
  have hwindow : [[]] = between _ _ _ := he ▸ lines_excerpt h
  have htext := Text.unlines_lines text.toList
  generalize Text.lines text.toList = ls at *
  have hlength := congrArg List.length hwindow
  rw [length_between, List.length_singleton] at hlength
  obtain ⟨line, rfl⟩ := List.length_eq_one_iff.mp (show ls.length = 1 by omega)
  obtain rfl : n = 0 := Nat.lt_one_iff.mp h
  have hline : [[]] = [line] := hwindow
  cases hline
  exact ht (String.toList_inj.mp htext.symm)

theorem display_excerpt {text : String} (ht : text ≠ "") {n k : Nat} {c : ErrorContext}
    (h : n < (Text.lines text.toList).length) (hline : c.line = (n + 1 : Nat))
    (hcolumn : c.column = (k + 1 : Nat)) (hsnippet : c.snippet = some (excerpt text c.line 2)) :
    c.display.toList = Text.unlines
      (c.location.toList :: around (Text.lines text.toList) ⟨n + 1, k + 1⟩) := by
  have hfirst : max 1 (c.line - 2) = (max 1 (n + 1 - 2) : Nat) := by omega
  rw [hline] at hsnippet
  rw [display, hsnippet]
  dsimp only
  rw [if_neg (excerpt_ne_empty ht h), lines_excerpt h, hfirst, numbered_around h hline hcolumn,
    Text.unlines_cons (by simp [around])]
  simp

end ErrorContext

end ComponentDiagram
