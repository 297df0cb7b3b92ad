import ComponentDiagram.Proofs.Grammar.Abreast
import ComponentDiagram.Proofs.Grammar.Sources

/-! Blanks and blank lines. A diagram says the same, and fails in the same way, however much space
stands between its tokens and between its lines. -/
namespace ComponentDiagram
namespace Grammar

/-- The tokens with one line end for each run of them. -/
def oneLineEnd : List Token → List Token
  | [] => []
  | t :: ts =>
    if t.kind = .newline ∧ headKind ts = .newline then oneLineEnd ts else t :: oneLineEnd ts

theorem oneLineEnd_newlines {t : Token} {ts : List Token} (ht : t.kind = .newline)
    (hts : headKind ts = .newline) : oneLineEnd (t :: ts) = oneLineEnd ts := by
  rw [oneLineEnd, if_pos ⟨ht, hts⟩]

theorem oneLineEnd_cons {t : Token} (ht : t.kind ≠ .newline) (ts : List Token) :
    oneLineEnd (t :: ts) = t :: oneLineEnd ts := by
  rw [oneLineEnd, if_neg fun hk => ht hk.1]

theorem oneLineEnd_lineEnd (t : Token) {ts : List Token} (hts : headKind ts ≠ .newline) :
    oneLineEnd (t :: ts) = t :: oneLineEnd ts := by
  rw [oneLineEnd, if_neg fun hk => hts hk.2]

private theorem head?_kind (ts : List Token) :
    (oneLineEnd ts).head?.map Token.kind = ts.head?.map Token.kind := by
  induction ts with
  | nil => rfl
  | cons t ts ih =>
    rw [oneLineEnd]
    split
    · rename_i hk
      rw [ih]
      cases ts with
      | nil => cases hk.2
      | cons u ts => exact congrArg some (hk.2.trans hk.1.symm)
    · rfl

private theorem headKind_oneLineEnd (ts : List Token) : headKind (oneLineEnd ts) = headKind ts := by
  have h := head?_kind ts
  cases ts with
  | nil => rfl
  | cons t ts =>
    cases ho : oneLineEnd (t :: ts) with
    | nil => rw [ho] at h; cases h
    | cons u us => rw [ho] at h; exact Option.some.inj h

private theorem afterLines_oneLineEnd (ts : List Token) :
    afterLines (oneLineEnd ts) = oneLineEnd (afterLines ts) := by
  induction ts with
  | nil => rfl
  | cons t ts ih =>
    by_cases ht : t.kind = .newline
    · rw [afterLines_newline ht, ← ih]
      by_cases hts : headKind ts = .newline
      · rw [oneLineEnd_newlines ht hts]
      · rw [oneLineEnd_lineEnd t hts, afterLines_newline ht]
    · have hself : afterLines (t :: ts) = t :: ts := afterLines_self ht
      rw [hself]
      exact afterLines_self (by rw [headKind_oneLineEnd]; exact ht)

private theorem oneLineEnd_concat {e : Token} (he : e.kind ≠ .newline) (ts : List Token) :
    oneLineEnd (ts ++ [e]) = oneLineEnd ts ++ [e] := by
  induction ts with
  | nil => exact oneLineEnd_cons he []
  | cons t ts ih =>
    have hhead : headKind (ts ++ [e]) = .newline ↔ headKind ts = .newline := by
      cases ts with
      | nil => exact ⟨fun h => absurd h he, fun h => nomatch h⟩
      | cons => rfl
    rw [List.cons_append, oneLineEnd, oneLineEnd, ih]
    simp only [hhead]
    split <;> rfl

/-- Tokens of the same kinds and texts, but for the number of line ends at one place. -/
def AlikeLines (ts us : List Token) : Prop := Alike (oneLineEnd ts) (oneLineEnd us)

private theorem alike_head {ts us : List Token} (h : Alike ts us) :
    ts.head?.map Token.kind = us.head?.map Token.kind := by
  have hkinds := congrArg (fun ts : List Token => ts.head?.map Token.kind) h
  simpa [List.head?_map, Function.comp_def] using hkinds

/-- The number of line ends at one place does not matter to what is taken in step. -/
theorem inStep_alikeLines : InStep AlikeLines where
  head {ts us} h := by
    rw [← head?_kind ts, ← head?_kind us]
    exact alike_head h
  tail {t ts u us} h ht := by
    have hhead := alike_head h
    rw [head?_kind, head?_kind] at hhead
    have hk : t.kind = u.kind := Option.some.inj hhead
    rw [AlikeLines, oneLineEnd_cons ht, oneLineEnd_cons (hk ▸ ht)] at h
    obtain ⟨u', us', he, -, htext, hrest⟩ := h.cons_left
    obtain ⟨rfl, rfl⟩ := List.cons.inj he
    exact ⟨htext, hrest⟩
  lines {ts us} h := by
    rw [AlikeLines, ← afterLines_oneLineEnd, ← afterLines_oneLineEnd]
    exact h.afterLines

end Grammar

/-- A failure that is about nowhere in particular. -/
def Grammar.Failure.unplaced : Grammar.Failure → Grammar.Failure
  | .syntaxError error => .syntaxError { error with context := none }
  | e => e

/-- What a reading answers, wherever its tokens stand. -/
def Grammar.unplacedAnswer {α : Type} :
    Except Grammar.Failure (Document α) → Except Grammar.Failure (Document α)
  | .ok doc => .ok doc.unplaced
  | .error e => .error e.unplaced

/-- The kinds and texts of the tokens of a text, without blanks and with one line end for each run
of them. -/
def Source.gist (text : String) : List (TokenKind × String) :=
  (Grammar.oneLineEnd ((tokens text true).filter (·.kind != .blank))).map fun t => (t.kind, t.text)

namespace Grammar

open Source in
/-- Texts of one gist have tokens that are alike but for the number of line ends. -/
theorem alikeLines_of_gist {text text' : String} (h : gist text = gist text') :
    AlikeLines (solidTokens text) (solidTokens text') := by
  obtain ⟨p, hp⟩ := tokens_ended text
  obtain ⟨q, hq⟩ := tokens_ended text'
  rw [gist, gist, ← tokens_false, ← tokens_false, hp, hq, oneLineEnd_concat (by simp),
    oneLineEnd_concat (by simp), List.map_append, List.map_append] at h
  have hpairs := (List.append_inj' h rfl).1
  have htokens := congrArg
    (List.map fun pair : TokenKind × String => (⟨pair.1, pair.2, {}⟩ : Token)) hpairs
  rw [List.map_map, List.map_map] at htokens
  exact htokens

variable {α : Type}

private theorem abreast_alikeLines (A B : Tape)
    (hlimit : A.input.depthLimit = B.input.depthLimit) :
    Abreast A B AlikeLines (fun s s' : State α => s'.unplaced = s.unplaced)
      (fun e e' => e'.unplaced = e.unplaced) where
  step := inStep_alikeLines
  missing _ _ := rfl
  same _ := rfl
  depth hs := (congrArg (fun s : State α => s.scope.length) hs).symm
  act {s s'} c c' hs hc := by
    have hact := act_unplaced A.input.depthLimit c s
    have hact' := act_unplaced B.input.depthLimit c' s'
    rw [hs, hc, ← hlimit, ← hact] at hact'
    cases ha : c.act A.input.depthLimit s with
    | none =>
      rw [ha, Option.map_none, Option.map_eq_none_iff] at hact'
      rw [← hlimit, hact']
      exact .none
    | some t =>
      rw [ha, Option.map_some] at hact'
      obtain ⟨t', ha', ht'⟩ := Option.map_eq_some_iff.mp hact'
      rw [← hlimit, ha']
      exact .some ht'

variable [Scalar α]

/-- Texts that differ in blanks and in the number of line ends at one place say the same, or fail in
the same way. -/
theorem parse_respaced {text text' : String} (h : Source.gist text = Source.gist text')
    (file file' : Option Path) :
    unplacedAnswer (parse text file : Except Failure (Document α)) =
      unplacedAnswer (parse text' file') := by
  obtain ⟨last, hin⟩ := ofText_holds text file
  obtain ⟨last', hin'⟩ := ofText_holds text' file'
  have htogether := document_together
    (abreast_alikeLines (α := α) ⟨_, _, last, hin⟩ ⟨_, _, last', hin'⟩ rfl)
    (inStep_alikeLines.lines (alikeLines_of_gist h)) rfl
  rw [parse, parse, readInput, readInput]
  generalize Reader.document (α := α) (Input.ofText text file) {} = r at htogether
  generalize Reader.document (α := α) (Input.ofText text' file') {} = r' at htogether
  cases htogether with
  | error he => exact congrArg Except.error he.symm
  | ok hdocs =>
    obtain ⟨type, s, s', hs, -, rfl, rfl⟩ := hdocs
    exact congrArg (fun s : State α => Except.ok (s.document type)) hs.symm

/-- A component with a port and a line that nothing starts with, as tight as can be. -/
def tightText : String := "\n[a]One part@10,20\x7b\nport[p]on[a]left\n\x7d\n?? no\n"

def looseText : String :=
  "\n\n [a] One\tpart  @ 10 , 20 \x7b\n\n\n  port [p] on [a] left\n\x7d\r\n\n ? ? no\n \n"

theorem parse_respaced_tight : Source.gist tightText = Source.gist looseText ∧
    unplacedAnswer (parse tightText none : Except Failure (Document Rat)) =
      unplacedAnswer (parse looseText none) := by
  have h : Source.gist tightText = Source.gist looseText := by decide +kernel
  exact ⟨h, parse_respaced h none none⟩

end Grammar
end ComponentDiagram
