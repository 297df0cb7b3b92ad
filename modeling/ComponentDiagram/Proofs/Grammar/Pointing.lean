import ComponentDiagram.Proofs.Grammar.Refusing
import ComponentDiagram.Proofs.Source.Excerpt

/-! A syntax error stands at a token of the text that is read, and shows the lines around it. -/
namespace ComponentDiagram

/-! ## Where tokens stand -/

namespace Source

/-- Behind the text in front of a token, the text goes on as the token does. A line feed stands for
the end of the text here. -/
theorem scan_stands (p : Position) (cs : List Char) : ∀ t ∈ scan true p 0 cs, ∃ a b, cs = a ++ b ∧
    t.position = p.after a ∧ (b ++ ['\n']).head? = (t.text.toList ++ ['\n']).head? := by
  induction p, cs using scan_induction with
  | nil p => simp [Position.after]
  | lexed p c tail more k ts _ _ ih =>
    refine List.forall_mem_cons.mpr ⟨⟨[], _, rfl, rfl, by simp⟩, fun t ht => ?_⟩
    obtain ⟨a, b, rfl, hp, hb⟩ := ih t ht
    exact ⟨c :: tail ++ a, b, by rw [List.append_assoc], by rw [hp, Position.after_append], hb⟩

/-- A token starts on one of the lines: as the line goes on there, or as the end of a line. -/
theorem token_place {text : String} {keepBlanks : Bool} {t : Token}
    (h : t ∈ tokens text keepBlanks) : ∃ n left right,
      (Text.lines text.toList)[n]? = some (left ++ right) ∧
      t.position = ⟨n + 1, left.length + 1⟩ ∧
      (right ++ ['\n']).head? = (t.text.toList ++ ['\n']).head? := by
  have ht : t ∈ scan true ⟨1, 1⟩ 0 text.toList := by
    cases keepBlanks with
    | true => exact h
    | false =>
      rw [tokens_false] at h
      exact (List.mem_filter.mp h).1
  obtain ⟨a, b, htext, hp, hb⟩ := scan_stands _ _ t ht
  refine ⟨a.count '\n', Text.lastLine a, b.takeWhile (· != '\n'), ?_, ?_, ?_⟩
  · rw [htext, Text.getElem?_lines]
  · rw [hp, Position.after_start, Position.behind, Text.lastLine, List.length_reverse]
  · rw [← hb]
    cases b with
    | nil => rfl
    | cons c b =>
      by_cases hc : c = '\n' <;> simp [hc]

end Source

/-! ## Errors -/

/-- An error that points at a token of a text. What it shows is its location, the lines around the
token with a marker below the one that the token is on, and the message. -/
structure LocatedError.PointsAt (e : LocatedError) (text : String) (file : Option Path)
    (t : Token) : Prop where
  line : e.line = t.position.line
  column : e.column = t.position.column
  /-- The character above the marker is the first one of the token; for the end of a line and of the
  input there is none. -/
  place : ∃ n left right, (Text.lines text.toList)[n]? = some (left ++ right) ∧
    t.position = ⟨n + 1, left.length + 1⟩ ∧
    (right ++ ['\n']).head? = (t.text.toList ++ ['\n']).head?
  shown : e.text.toList = Text.unlines
    (s!"{ErrorContext.fileName file}:{t.position.line}:{t.position.column}".toList ::
      ErrorContext.around (Text.lines text.toList) t.position ++ [e.message.toList])

namespace Grammar

variable {α : Type} [Scalar α]

/-- Whatever an index, the token there is one of the text. -/
theorem token_mem (text : String) (file : Option Path) (i : Nat) :
    (Input.ofText text file).token i ∈ Source.tokens text false := by
  obtain ⟨q, htokens⟩ := Source.tokens_ended text
  rw [Input.token, ofText_tokens]
  cases hi : (Source.tokens text false).toArray[i]? with
  | some t => simpa using Array.mem_of_getElem? hi
  | none => simp [htokens]

theorem errorAt_pointsAt {text : String} (ht : text ≠ "") (file : Option Path) (m : String)
    {t : Token} (h : t ∈ Source.tokens text false) :
    ((Input.ofText text file).errorAt m t).PointsAt text file t := by
  have hplace := Source.token_place h
  refine ⟨rfl, rfl, hplace, ?_⟩
  obtain ⟨n, left, right, hline, hp, -⟩ := hplace
  have hn : n < (Text.lines text.toList).length := (List.getElem?_eq_some_iff.mp hline).1
  have herror : (Input.ofText text file).errorAt m t = ⟨m, some ⟨(n + 1 : Nat),
      (left.length + 1 : Nat), file, some (excerpt text (n + 1 : Nat) 2)⟩⟩ := by
    rw [Input.errorAt, hp]
    simp [Input.ofText, Input.ofTokens, ht]
  have hlocation : s!"{ErrorContext.fileName file}:{t.position.line}:{t.position.column}" =
      ErrorContext.location ⟨(n + 1 : Nat), (left.length + 1 : Nat), file,
        some (excerpt text (n + 1 : Nat) 2)⟩ := by
    rw [hp]
    rfl
  rw [herror, hlocation, hp, Text.unlines_concat (List.cons_ne_nil _ _),
    ← ErrorContext.display_excerpt ht hn rfl rfl rfl, LocatedError.text]
  simp

/-- A syntax error points at a token of the text, whichever statement or block it arose in. -/
theorem parse_pointsAt {text : String} {file : Option Path} {e : LocatedError}
    (h : (parse text file : Except Failure (Document α)) = .error (.syntaxError e)) :
    ∃ t ∈ Source.tokens text false, e.PointsAt text file t := by
  have ht : text ≠ "" := by
    rintro rfl
    cases h
  obtain ⟨last, hin⟩ := ofText_holds text file
  have hlegible := legible_token hin (legible_solid text)
  cases Reader.FailsOnly.document hlegible _ _ (parse_error.mp h) ⟨e⟩ with
  | intro m i =>
    have hmem := token_mem text file i
    exact ⟨_, hmem, errorAt_pointsAt ht file m hmem⟩

/-- An edge without a target, in the middle of a text. -/
def brokenText : String := "[a] A\n[b] B\n[c] C\n  a -> \n[d] D\n[e] E\n[f] F\n"

def brokenError : LocatedError :=
  ⟨"Expected target node", some ⟨4, 8, none, some "[b] B\n[c] C\n  a -> \n[d] D\n[e] E"⟩⟩

theorem parse_pointsAt_brokenText :
    (parse brokenText none : Except Failure (Document Float)) = .error (.syntaxError brokenError) ∧
    ∃ t ∈ Source.tokens brokenText false, brokenError.PointsAt brokenText none t := by
  have h : (parse brokenText none : Except Failure (Document Float)) =
      .error (.syntaxError brokenError) := rfl
  exact ⟨h, parse_pointsAt h⟩

example : LocatedError.text ⟨"Expected target node", some ⟨2, 6, none, some "[a]\na ->\n[b]"⟩⟩ =
    "<input>:2:6\n   1 | [a]\n   2 | a ->\n            ^^^\n   3 | [b]\nExpected target node" := by
  decide +kernel

end Grammar
end ComponentDiagram
