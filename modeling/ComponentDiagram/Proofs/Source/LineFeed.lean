import ComponentDiagram.Proofs.Source.Coverage

/-! Lines are cut by themselves. No lexeme reaches over a line feed or is decided by what stands
behind one, so the tokens of a text are those of its lines, each line moved to its place. -/
namespace ComponentDiagram

/-- The same column, some lines further down. -/
def Position.lowered (n : Nat) (p : Position) : Position := ⟨p.line + n, p.column⟩

theorem Position.step_lowered (n : Nat) (p : Position) (c : Char) :
    (p.lowered n).step c = (p.step c).lowered n := by
  unfold Position.step
  split
  · simp [Position.lowered, Nat.add_right_comm]
  · rfl

/-- A line feed leads to the start of the next line. -/
theorem Position.behind_newline (cs : List Char) :
    (Position.behind cs).step '\n' = (⟨1, 1⟩ : Position).lowered (cs.count '\n' + 1) := by
  simp [Position.behind, Position.step, Position.lowered, Nat.add_comm]

namespace Source

variable {b : List Char}

/-- What no blank can run into does not change the lexeme in front of it, blank or not. -/
theorem lexeme_append_solid (hb : Apart b) (hs : ∀ c ∈ b.head?, isBlank c = false) (c : Char)
    (a : List Char) : lexeme c (a ++ b) = lexeme c a := by
  cases hc : isBlank c with
  | false => exact lexeme_append hb hc a
  | true =>
    have hrun : blankRun (c :: (a ++ b)) = blankRun (c :: a) := blankRun_append hs (c :: a)
    simp only [lexeme, hc, hrun, if_true]

/-- What stands apart from a text is cut behind it, from the place where the text ends. -/
theorem scan_append (hb : Apart b) (hs : ∀ c ∈ b.head?, isBlank c = false) (p : Position)
    (a : List Char) : ∃ front, scan true p 0 a = front ++ [⟨.endOfInput, "", p.after a⟩] ∧
      scan true p 0 (a ++ b) = front ++ scan true (p.after a) 0 b := by
  induction p, a using scan_induction with
  | nil p => exact ⟨[], rfl, rfl⟩
  | lexed p c tail more k ts hl hts ih =>
    obtain ⟨front, hfront, happend⟩ := ih
    have hl' : lexeme c (tail ++ (more ++ b)) = (k, c :: tail) := by
      rw [← List.append_assoc, lexeme_append_solid hb hs, hl]
    refine ⟨⟨k, String.ofList (c :: tail), p⟩ :: front, ?_, ?_⟩
    · rw [hfront, Position.after_append, List.cons_append]
    · rw [List.append_assoc, scan_lexeme p hl', happend, Position.after_append, List.cons_append]

/-- A text that stands elsewhere is cut in the same way. -/
theorem scan_moved {f : Position → Position} (hf : ∀ p c, (f p).step c = f (p.step c))
    (p : Position) (n : Nat) (cs : List Char) :
    scan true (f p) n cs = (scan true p n cs).map (Token.moved f) := by
  induction cs generalizing p n with
  | nil => cases n <;> rfl
  | cons c rest ih =>
    cases n with
    | zero =>
      rw [scan_cons, scan_cons, hf, ih, List.map_cons]
      rfl
    | succ n => rw [scan, scan, hf, ih]

private theorem scan_newline (p : Position) (b : List Char) :
    scan true p 0 ('\n' :: b) = ⟨.newline, "\n", p⟩ :: scan true (p.step '\n') 0 b := by
  have hl : lexeme '\n' ([] ++ b) = (.newline, ['\n']) := rfl
  exact scan_lexeme p hl

/-- The tokens of two texts with a line feed between them, before blanks are left out. -/
theorem scan_lines (a b : List Char) : ∃ front,
    scan true ⟨1, 1⟩ 0 a = front ++ [⟨.endOfInput, "", .behind a⟩] ∧
      scan true ⟨1, 1⟩ 0 (a ++ '\n' :: b) = front ++ ⟨.newline, "\n", .behind a⟩ ::
        (scan true ⟨1, 1⟩ 0 b).map (Token.moved (Position.lowered (a.count '\n' + 1))) := by
  obtain ⟨front, hfront, happend⟩ :=
    scan_append (b := '\n' :: b) boundary_newline (by simp [isBlank]) ⟨1, 1⟩ a
  refine ⟨front, by rw [hfront, Position.after_start], ?_⟩
  rw [happend, Position.after_start, scan_newline, Position.behind_newline,
    scan_moved (Position.step_lowered _)]

theorem toList_append_line (a b : String) :
    (a ++ "\n" ++ b).toList = a.toList ++ '\n' :: b.toList := by
  simp only [String.toList_append, List.append_assoc]
  rfl

/-- Texts with a line feed between them are cut apart: the end of input of the first becomes the
line feed, and the tokens of the second stand as many lines further down as the first has lines. -/
theorem tokens_append_line (a b : String) (keepBlanks : Bool) :
    (tokens a keepBlanks).getLast? = some ⟨.endOfInput, "", .behind a.toList⟩ ∧
      tokens (a ++ "\n" ++ b) keepBlanks =
        (tokens a keepBlanks).dropLast ++ ⟨.newline, "\n", .behind a.toList⟩ ::
          (tokens b keepBlanks).map
            (Token.moved (Position.lowered (a.toList.count '\n' + 1))) := by
  obtain ⟨front, hfront, happend⟩ := scan_lines a.toList b.toList
  have htext := toList_append_line a b
  cases keepBlanks with
  | true =>
    simp only [tokens, htext, hfront, happend, List.dropLast_concat,
      List.getLast?_concat, and_self]
  | false =>
    have hkept (ts : List Token) (f : Position → Position) :
        (ts.map (Token.moved f)).filter (fun t => t.kind != .blank) =
          (ts.filter fun t => t.kind != .blank).map (Token.moved f) :=
      List.filter_map
    rw [tokens_false, tokens_false, tokens_false]
    simp only [tokens, htext, hfront, happend]
    simp [hkept]

end Source
end ComponentDiagram
