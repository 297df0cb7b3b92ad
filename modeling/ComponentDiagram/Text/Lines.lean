/-! Lines of a text, ended by `\n` alone, cutting a text at its first separator, and white space at
the ends of a text. -/
namespace ComponentDiagram.Text

/-- The pieces between line feeds; there is always at least one. -/
def lines : List Char → List (List Char)
  | [] => [[]]
  | c :: rest =>
    if c = '\n' then [] :: lines rest
    else match lines rest with
      | [] => [[c]]
      | line :: others => (c :: line) :: others

/-- Put lines back together with a line feed between any two. -/
def unlines (ls : List (List Char)) : List Char :=
  ['\n'].intercalate ls

theorem lines_ne_nil (cs : List Char) : lines cs ≠ [] := by
  cases cs with
  | nil => simp [lines]
  | cons c rest =>
    simp only [lines]
    split
    · simp
    · split <;> simp

/-- Splitting loses nothing. -/
theorem unlines_lines (cs : List Char) : unlines (lines cs) = cs := by
  induction cs with
  | nil => rfl
  | cons c rest ih =>
    obtain ⟨line, others, h⟩ := List.exists_cons_of_ne_nil (lines_ne_nil rest)
    rw [h] at ih
    simp only [lines, h]
    by_cases hc : c = '\n'
    · subst hc
      simp [unlines, List.intercalate] at ih ⊢
      exact ih
    · rw [if_neg hc]
      cases others <;> simp_all [unlines, List.intercalate]

/-- Every line end, `\r\n` or a lone `\r`, becomes `\n`. -/
def unifyLineEnds : List Char → List Char
  | '\r' :: '\n' :: rest => '\n' :: unifyLineEnds rest
  | '\r' :: rest => '\n' :: unifyLineEnds rest
  | c :: rest => c :: unifyLineEnds rest
  | [] => []

/-- The text before the first separator, and the text after it if there is one. -/
def cutAt (separator : Char) : List Char → List Char × Option (List Char)
  | [] => ([], none)
  | c :: rest =>
    if c = separator then ([], some rest)
    else
      let (head, tail) := cutAt separator rest
      (c :: head, tail)

/-- `part` occurs somewhere in the text. -/
def contains (part : List Char) : List Char → Bool
  | [] => part.isEmpty
  | c :: rest => part.isPrefixOf (c :: rest) || contains part rest

/-- White space: the ASCII controls 9 to 13 and 28 to 31, the space, and Unicode's blanks. -/
def isWhitespace (c : Char) : Bool :=
  let code := c.toNat
  (9 ≤ code && code ≤ 13) || (28 ≤ code && code ≤ 32) || code == 0x85 || code == 0xA0 ||
  code == 0x1680 || (0x2000 ≤ code && code ≤ 0x200A) || code == 0x2028 || code == 0x2029 ||
  code == 0x202F || code == 0x205F || code == 0x3000

/-- Drop the white space at the end. -/
def trimEnd (cs : List Char) : List Char :=
  (cs.reverse.dropWhile isWhitespace).reverse

/-- Drop the white space at both ends. -/
def trim (cs : List Char) : List Char :=
  trimEnd (cs.dropWhile isWhitespace)

end ComponentDiagram.Text
