import ComponentDiagram.Proofs.Grammar.Sources
import ComponentDiagram.Proofs.Source.LineFeed

/-! The wrapper around a diagram is optional. What stands at the end of a text sees a line end and a
brace behind it instead of the end of input, and reads the same. -/
namespace ComponentDiagram

open Source in
/-- The tokens of two texts with a line feed between them. -/
theorem Source.solidTokens_append_line (a b : String) : solidTokens (a ++ "\n" ++ b) =
    solidTokens a ++ ⟨.newline, "\n", .behind a.toList⟩ ::
      (solidTokens b).map (Token.moved (Position.lowered (a.toList.count '\n' + 1))) := by
  obtain ⟨front, hfront, happend⟩ := scan_lines a.toList b.toList
  have hsolid (ts : List Token) (f : Position → Position) :
      (ts.map (Token.moved f)).filter isSubstantial =
        (ts.filter isSubstantial).map (Token.moved f) :=
    List.filter_map
  rw [solidTokens, solidTokens, solidTokens, toList_append_line, happend, hfront, List.filter_append,
    List.filter_append, List.filter_cons_of_pos (by rfl), hsolid]
  simp [isSubstantial]

namespace Grammar
open Source

/-! ## Tokens with more behind them -/

/-- The tokens stand elsewhere, with others behind them that start with a line end. -/
def LedBy (f : Position → Position) (tail ts us : List Token) : Prop :=
  us = ts.map (Token.moved f) ++ tail

variable {f : Position → Position} {tail : List Token}

private theorem ledBy_run (htail : headKind tail = .newline) {p : Token → Bool} (hp : IsRun p)
    (ts : List Token) :
    (ts.map (Token.moved f) ++ tail).takeWhile p = (ts.takeWhile p).map (Token.moved f) ∧
      (ts.map (Token.moved f) ++ tail).dropWhile p =
        (ts.dropWhile p).map (Token.moved f) ++ tail := by
  induction ts with
  | nil =>
    cases tail with
    | nil => cases htail
    | cons u tail =>
      have hu : p u = false := hp.newline u htail
      simp [hu]
  | cons t ts ih =>
    have ht : p (t.moved f) = p t := hp.kind _ _ rfl
    rw [List.map_cons, List.cons_append]
    cases hpt : p t with
    | false => simp [ht, hpt]
    | true =>
      rw [List.takeWhile_cons_of_pos (ht.trans hpt), List.dropWhile_cons_of_pos (ht.trans hpt),
        List.takeWhile_cons_of_pos hpt, List.dropWhile_cons_of_pos hpt, ih.1, ih.2, List.map_cons]
      exact ⟨rfl, rfl⟩

private theorem joined_moved (ts : List Token) :
    Reader.joined (ts.map (Token.moved f)) = Reader.joined ts := by
  rw [Reader.joined, Reader.joined, List.map_map]
  rfl

theorem similarity_ledBy (htail : headKind tail = .newline) : Similarity (LedBy f tail) where
  forth {t ts us} h _ := ⟨t.moved f, _, h, rfl, rfl, rfl⟩
  back {ts u us} h hu := by
    cases ts with
    | nil =>
      have hnewline : u.kind = .newline := by
        have he : u :: us = tail := h
        rw [← he] at htail
        exact htail
      rw [hnewline] at hu
      cases hu
    | cons t ts =>
      obtain ⟨rfl, rfl⟩ := List.cons.inj h
      exact ⟨t, ts, rfl, rfl, rfl, rfl⟩
  run {p ts us} hp h := by
    subst h
    obtain ⟨htake, hdrop⟩ := ledBy_run (f := f) htail hp ts
    rw [htake, joined_moved]
    exact ⟨rfl, hdrop⟩

variable {α : Type} [Scalar α]

/-! ## Clauses with more behind them -/

omit [Scalar α] in
private theorem moved_moved (f g : Position → Position) (c : Clause α) :
    (c.moved f).moved g = c.moved (g ∘ f) := by
  cases c <;> rfl

/-- A clause notes where its first token stands, and nothing else. -/
theorem Reads.moved_self {t : Token} {ts rest : List Token} {c : Clause α}
    (h : Reads (t :: ts) c rest) : c.moved (fun _ => t.position) = c := by
  cases h <;> rfl

/-- Clauses at one place that differ in where their tokens stand only are the same. -/
theorem Reads.eq_moved {t : Token} {ts us rest rest' : List Token} {c c' : Clause α}
    (h : Reads (t :: ts) c rest) (h' : Reads (t.moved f :: us) c' rest')
    (hc : c'.unplaced = c.unplaced) : c' = c.moved f := by
  have hplaced := congrArg (Clause.moved fun _ => f t.position) hc
  rw [Clause.unplaced_eq, Clause.unplaced_eq, moved_moved, moved_moved] at hplaced
  calc c' = c'.moved (fun _ => f t.position) := h'.moved_self.symm
    _ = c.moved (fun _ => f t.position) := hplaced
    _ = (c.moved fun _ => t.position).moved f := (moved_moved ..).symm
    _ = c.moved f := by rw [h.moved_self]

/-- The clause at the front of some tokens is there too where they stand elsewhere, with a line end
behind them. -/
theorem Reads.ledBy (htail : headKind tail = .newline) {ts rest : List Token} {c : Clause α}
    (h : Reads ts c rest) : Reads (ts.map (Token.moved f) ++ tail) (c.moved f)
      (rest.map (Token.moved f) ++ tail) := by
  obtain ⟨t, ts, rfl, -⟩ := h.suffix
  suffices hsuffices : ∃ c' rest', Reads ((t :: ts).map (Token.moved f) ++ tail) c' rest' ∧
      c'.unplaced = c.unplaced ∧ LedBy f tail rest rest' by
    obtain ⟨c', rest', hr, hc, rfl⟩ := hsuffices
    rw [← h.eq_moved hr hc]
    exact hr
  cases hs : c.isStatement with
  | true => exact (similarity_ledBy htail).reads h hs rfl
  | false =>
    cases h with
    | newline hk => exact ⟨.newline, _, .newline hk, rfl, rfl⟩
    | skipped hk =>
      exact ⟨.skipped (t.moved f), _, .skipped hk, rfl, (ledBy_run htail isRun_inLine ts).2⟩
    | _ => cases hs

theorem ReadsAll.ledBy (htail : headKind tail = .newline) {ts rest : List Token}
    {cs : List (Clause α)} (h : ReadsAll ts cs rest) :
    ReadsAll (ts.map (Token.moved f) ++ tail) (cs.map (Clause.moved f))
      (rest.map (Token.moved f) ++ tail) := by
  induction h with
  | nil => exact .nil
  | cons hr _ ih => exact .cons (hr.ledBy htail) ih

/-- Line ends in front of clauses are clauses that do nothing. -/
theorem ReadsAll.of_afterLines {ts rest : List Token} {cs : List (Clause α)}
    (h : ReadsAll (afterLines ts) cs rest) : ∃ cs', ReadsAll ts cs' rest ∧
      ∀ (limit : Option Nat) s, actAll limit cs' s = actAll limit cs s := by
  induction ts with
  | nil => exact ⟨cs, h, fun _ _ => rfl⟩
  | cons t ts ih =>
    by_cases ht : t.kind = .newline
    · rw [afterLines_newline ht] at h
      obtain ⟨cs', hr, hact⟩ := ih h
      exact ⟨.newline :: cs', .cons (.newline ht) hr, hact⟩
    · have hself : afterLines (t :: ts) = t :: ts := afterLines_self ht
      rw [hself] at h
      exact ⟨cs, h, fun _ _ => rfl⟩

/-! ## The wrapper -/

/-- A text between the braces of a wrapper, on lines of its own. -/
def wrapped (text : String) : String := "[uml2.5-component] \x7b\n" ++ text ++ "\n\x7d"

private theorem wrapped_eq (text : String) :
    wrapped text = "[uml2.5-component] \x7b" ++ "\n" ++ (text ++ "\n" ++ "\x7d") := by
  have hopening : "[uml2.5-component] \x7b\n" = "[uml2.5-component] \x7b" ++ "\n" := by
    decide +kernel
  have hclosing : "\n\x7d" = "\n" ++ "\x7d" := by decide +kernel
  have hassoc (a b c d e : String) : a ++ b ++ c ++ (d ++ e) = a ++ b ++ (c ++ d ++ e) := by
    simp only [String.append_assoc]
  exact (congrArg₂ (fun a b : String => a ++ text ++ b) hopening hclosing).trans (hassoc ..)

/-- A diagnostic on the next line. -/
def nextLine (d : Diagnostic) : Diagnostic := { d with line := d.line + 1 }

private theorem solid_opening : ∃ o n c b, solidTokens "[uml2.5-component] \x7b" = [o, n, c, b] ∧
    o.kind = .leftBracket ∧ n.kind = .identifier ∧ n.text = "uml2.5-component" ∧
    c.kind = .rightBracket ∧ b.kind = .leftBrace :=
  ⟨⟨.leftBracket, "[", ⟨1, 1⟩⟩, ⟨.identifier, "uml2.5-component", ⟨1, 2⟩⟩,
    ⟨.rightBracket, "]", ⟨1, 18⟩⟩, ⟨.leftBrace, "\x7b", ⟨1, 20⟩⟩, by decide +kernel, rfl, rfl, rfl,
    rfl, rfl⟩

private theorem solid_closing : ∃ r, solidTokens "\x7d" = [r] ∧ r.kind = .rightBrace :=
  ⟨⟨.rightBrace, "\x7d", ⟨1, 1⟩⟩, by decide +kernel, rfl⟩

/-- The tokens of a wrapped text: those of the text, one line further down, between the braces. -/
private theorem solid_wrapped (text : String) : ∃ o n c b l m r,
    solidTokens (wrapped text) = o :: n :: c :: b :: l ::
      ((solidTokens text).map (Token.moved (Position.lowered 1)) ++ [m, r]) ∧
    wrapperType? [o, n] = some .component ∧ o.kind = .leftBracket ∧ c.kind = .rightBracket ∧
    b.kind = .leftBrace ∧ l.kind = .newline ∧ m.kind = .newline ∧ r.kind = .rightBrace := by
  obtain ⟨o, n, c, b, hopening, ho, hn, htext, hc, hb⟩ := solid_opening
  obtain ⟨r, hclosing, hr⟩ := solid_closing
  have htype : wrapperType? [o, n] = some .component := by
    rw [wrapperType?, ho, hn, htext]
    decide
  have hcount : "[uml2.5-component] \x7b".toList.count '\n' = 0 := by decide +kernel
  have htokens := solidTokens_append_line "[uml2.5-component] \x7b" (text ++ "\n" ++ "\x7d")
  rw [← wrapped_eq, solidTokens_append_line text, hopening, hclosing, hcount, List.map_append,
    List.map_cons, List.map_cons, List.map_nil] at htokens
  exact ⟨o, n, c, b, _, _, _, htokens, htype, ho, hc, hb, rfl, rfl, hr⟩

/-- What a text makes, the wrapped text makes one line further down. -/
theorem accepts_wrapped {text : String} {limit : Option Nat} {s : State α}
    (ht : wrapperType? (afterLines (solidTokens text)) = none) {type : DiagramType}
    (h : Accepts limit (solidTokens text) type s) : type = .component ∧
      Accepts limit (solidTokens (wrapped text)) .component (s.moved (Position.lowered 1)) := by
  cases h with
  | wrapped he ht' =>
    rw [← he, ht] at ht'
    cases ht'
  | plain _ hr ha hd =>
    refine ⟨rfl, ?_⟩
    obtain ⟨o, n, c, b, l, m, r, htokens, htype, ho, hc, hb, hl, hm, hrk⟩ := solid_wrapped text
    obtain ⟨cs', hr', hact⟩ := hr.of_afterLines
    have htail : headKind [m, r] = .newline := hm
    have hinner : ReadsAll ((solidTokens text).map (Token.moved (Position.lowered 1)) ++ [m, r])
        (cs'.map (Clause.moved (Position.lowered 1))) [m, r] := hr'.ledBy htail
    have hread := ReadsAll.cons (.newline hl) (hinner.append (.single (.newline hm)))
    have hself {t : Token} (ts : List Token) (hk : t.kind ≠ .newline) :
        afterLines (t :: ts) = t :: ts := afterLines_self hk
    have hmap : actAll limit (cs'.map (Clause.moved (Position.lowered 1))) {} =
        some (s.moved (Position.lowered 1)) := by
      have hmoved := actAll_moved (Position.lowered 1) limit cs' {}
      rw [hact, ha] at hmoved
      exact hmoved.symm
    have hmoved : actAll limit (.newline :: (cs'.map (Clause.moved (Position.lowered 1)) ++
        [.newline])) {} = some (s.moved (Position.lowered 1)) := by
      rw [actAll_cons, Clause.act, Option.bind_some, actAll_append, hmap]
      rfl
    rw [htokens]
    exact .wrapped (hself _ (by simp [ho])) htype hc (hself _ (by simp [hb])) hb hread hrk rfl
      hmoved hd

/-- The end of input does not matter to whether a wrapper starts. -/
private theorem wrapperType?_tokens (text : String) :
    wrapperType? (afterLines (tokens text false)) =
      wrapperType? (afterLines (solidTokens text)) := by
  obtain ⟨p, hp⟩ := tokens_ended text
  have hlines (ts : List Token) : afterLines (ts ++ [⟨.endOfInput, "", p⟩]) =
      afterLines ts ++ [⟨.endOfInput, "", p⟩] := by
    induction ts with
    | nil => rfl
    | cons t ts ih =>
      by_cases ht : t.kind = .newline
      · rw [List.cons_append, afterLines_newline ht, afterLines_newline ht, ih]
      · have hself (ts : List Token) : afterLines (t :: ts) = t :: ts := afterLines_self ht
        rw [List.cons_append, hself, hself, List.cons_append]
  rw [hp, hlines]
  generalize afterLines (solidTokens text) = ts
  rcases ts with _ | ⟨o, _ | ⟨n, ts⟩⟩
  · rfl
  · simp [wrapperType?]
  · rfl

/-- A text that is read without a wrapper is read in a wrapper as well, and makes the same, with
each diagnostic on the next line. -/
theorem parse_wrapped {text : String} {file : Option Path} {doc : Document α}
    (h : parse text file = .ok doc)
    (hfree : wrapperType? (afterLines (tokens text false)) = none) (file' : Option Path) :
    parse (wrapped text) file' = .ok { doc with diagnostics := doc.diagnostics.map nextLine } := by
  obtain ⟨type, s, hs, rfl⟩ := parse_ok.mp h
  rw [wrapperType?_tokens] at hfree
  obtain ⟨rfl, hwrapped⟩ := accepts_wrapped hfree hs
  exact parse_ok.mpr ⟨.component, _, hwrapped, rfl⟩

/-- A skipped line, and a label that the end of the text ends. -/
def openText : String := "? lost\n[a] one \x7b\nport [p] on [a] left\n\x7d\na -> a : way  back"

theorem parse_wrapped_open : ∃ doc : Document Rat, parse openText none = .ok doc ∧
    wrapperType? (afterLines (tokens openText false)) = none ∧
    doc.diagnostics.map (·.line) = [1] ∧
    parse (wrapped openText) none =
      .ok { doc with diagnostics := doc.diagnostics.map nextLine } := by
  have hlines : ((parse openText none : Except Failure (Document Rat)).toOption.map
      fun doc => doc.diagnostics.map (·.line)) = some [1] := by decide +kernel
  have hfree : wrapperType? (afterLines (tokens openText false)) = none := by decide +kernel
  obtain ⟨doc, hdoc, hd⟩ := Option.map_eq_some_iff.mp hlines
  have hread := ok_of_toOption hdoc
  exact ⟨doc, hread, hfree, hd, parse_wrapped hread hfree none⟩

end Grammar
end ComponentDiagram
