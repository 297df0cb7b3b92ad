import ComponentDiagram.Proofs.Grammar.Unplaced

/-! From the text of a diagram to its tokens, and back: whether a text is read, and what it says, is
decided by its cut. -/
namespace ComponentDiagram

/-- A document whose diagnostics are about nowhere in particular. -/
def Document.unplaced {α : Type} (doc : Document α) : Document α :=
  { doc with diagnostics := doc.diagnostics.map Diagnostic.unplaced }

theorem Document.unplaced_of_clean {α : Type} {doc : Document α} (h : doc.diagnostics = []) :
    doc.unplaced = doc := by
  obtain ⟨type, roots, connectors, diagnostics⟩ := doc
  cases h
  rfl

namespace Grammar

variable {α : Type} [Scalar α]

theorem Accepts.alike {limit : Option Nat} {ts us : List Token} {type : DiagramType} {s : State α}
    (h : Accepts limit ts type s) (he : Alike ts us) :
    ∃ s', Accepts limit us type s' ∧ s'.unplaced = s.unplaced := by
  have hact {cs cs' : List (Clause α)} {s : State α}
      (hcs : cs'.map Clause.unplaced = cs.map Clause.unplaced)
      (ha : actAll limit cs {} = some s) :
      ∃ s', actAll limit cs' {} = some s' ∧ s'.unplaced = s.unplaced := by
    have h₁ := actAll_unplaced limit cs {}
    have h₂ := actAll_unplaced limit cs' {}
    rw [hcs, ← h₁, ha, Option.map_some] at h₂
    exact Option.map_eq_some_iff.mp h₂
  have hscope {s s' : State α} (hs : s'.unplaced = s.unplaced) : s'.scope = s.scope := by
    have h := congrArg State.scope hs
    exact h
  have hlines := he.afterLines
  cases h with
  | plain ht hr ha hd =>
    obtain ⟨cs', rest, hr', hcs, hrest⟩ := hr.alike hlines
    obtain ⟨s', ha', hs'⟩ := hact hcs ha
    rw [hrest.nil_left] at hr'
    exact ⟨s', .plain (hlines.wrapperType? ▸ ht) hr' ha' ((hscope hs').trans hd), hs'⟩
  | wrapped hts ht hc hb hbk hr hrk hafter ha hd =>
    rw [hts] at hlines
    have htype := hlines.wrapperType?
    obtain ⟨o, us₁, hus, -, -, hl⟩ := hlines.cons_left
    obtain ⟨n, us₂, rfl, -, -, hl⟩ := hl.cons_left
    obtain ⟨c, us₃, rfl, hck, -, hl⟩ := hl.cons_left
    have hinner := hl.afterLines
    rw [hb] at hinner
    obtain ⟨b, us₄, hb', hbk', -, hinner⟩ := hinner.cons_left
    obtain ⟨cs', rest, hr', hcs, hrest⟩ := hr.alike hinner
    obtain ⟨r, after, rfl, hrk', -, hrest⟩ := hrest.cons_left
    obtain ⟨s', ha', hs'⟩ := hact hcs ha
    have hend := hrest.afterLines
    rw [hafter] at hend
    rw [hus] at htype
    exact ⟨s', .wrapped hus (htype ▸ ht) (hck.trans hc) hb' (hbk'.trans hbk) hr'
      (hrk'.trans hrk) hend.nil_left ha' ((hscope hs').trans hd), hs'⟩

end Grammar

namespace Source

/-- The tokens of a text, without blanks and without the end of input. -/
def solidTokens (text : String) : List Token :=
  (scan true {} 0 text.toList).filter isSubstantial

/-- The end of input comes once, and last. -/
theorem scan_end (cs : List Char) (p : Position) (n : Nat) :
    ∃ front q, scan true p n cs = front ++ [⟨.endOfInput, "", q⟩] ∧
      ∀ t ∈ front, t.kind ≠ .endOfInput := by
  induction cs generalizing p n with
  | nil => exact ⟨[], p, by cases n <;> rfl, by simp⟩
  | cons c rest ih =>
    cases n with
    | succ n => exact ih _ _
    | zero =>
      obtain ⟨front, q, he, hf⟩ := ih (p.step c) ((lexeme c rest).2.length - 1)
      refine ⟨⟨(lexeme c rest).1, String.ofList (lexeme c rest).2, p⟩ :: front, q, ?_, ?_⟩
      · rw [List.cons_append, ← he]
        rfl
      · intro t ht
        rcases List.mem_cons.mp ht with rfl | ht
        · cases hc : isBlank c with
          | true =>
            rw [lexeme_of_blank hc]
            simp
          | false =>
            have hs := isSubstantial_lexeme hc (t := ⟨(lexeme c rest).1,
              String.ofList (lexeme c rest).2, p⟩) rfl rfl
            simp only [isSubstantial, Bool.and_eq_true, bne_iff_ne] at hs
            exact hs.2
        · exact hf t ht

/-- The tokens without blanks are the solid ones and the end of input. -/
theorem tokens_ended (text : String) :
    ∃ p, tokens text false = solidTokens text ++ [⟨.endOfInput, "", p⟩] := by
  obtain ⟨front, p, he, hf⟩ := scan_end text.toList {} 0
  have hfront : front.filter (fun t => t.kind != .blank) = front.filter isSubstantial := by
    refine List.filter_congr fun t ht => ?_
    simp [isSubstantial, hf t ht]
  refine ⟨p, ?_⟩
  rw [tokens_false, show tokens text true = _ from he, solidTokens, he,
    List.filter_append, List.filter_append, hfront]
  simp [isSubstantial]

end Source

namespace Grammar

open Source in
/-- The tokens of a text are already free of blanks and ended. -/
theorem ofText_tokens (text : String) (file : Option Path) :
    (Input.ofText text file).tokens = (tokens text false).toArray := by
  obtain ⟨q, htokens⟩ := tokens_ended text
  have hkept : (tokens text false).filter (fun t => t.kind != .blank) = tokens text false := by
    rw [tokens_false, List.filter_filter]
    simp
  rw [Input.ofText, Input.ofTokens]
  simp only [Input.closed, hkept]
  simp [htokens]

open Source in
theorem ofText_holds (text : String) (file : Option Path) :
    ∃ last, (Input.ofText text file).Holds (solidTokens text) last := by
  obtain ⟨q, htokens⟩ := tokens_ended text
  refine ⟨⟨.endOfInput, "", q⟩, ?_, rfl, ?_⟩
  · rw [ofText_tokens, htokens]
  · intro t ht
    rw [solidTokens] at ht
    have hsubstantial := (List.mem_filter.mp ht).2
    simp only [isSubstantial, Bool.and_eq_true, bne_iff_ne] at hsubstantial
    exact hsubstantial.2

variable {α : Type} [Scalar α]

theorem parse_ok {text : String} {file : Option Path} {doc : Document α} :
    parse text file = .ok doc ↔
      ∃ type s, Accepts (some 50) (Source.solidTokens text) type s ∧ doc = s.document type := by
  obtain ⟨last, hin⟩ := ofText_holds text file
  refine Iff.trans ?_ (document_ok hin)
  rw [parse, readInput]
  cases Reader.document (α := α) (Input.ofText text file) {} with
  | error e s => simp
  | ok doc' s =>
    constructor
    · intro h
      cases h
      exact ⟨s, rfl⟩
    · rintro ⟨_, h⟩
      cases h
      rfl

omit [Scalar α] in
theorem ok_of_toOption {ε β : Type} {x : Except ε β} {b : β} (h : x.toOption = some b) :
    x = .ok b := by
  cases x with
  | ok => cases h; rfl
  | error => cases h

/-- What the cut of a text makes without a diagnostic, the text makes. -/
theorem parse_of_accepts {text : String} {type : DiagramType} {s : State α}
    (h : Accepts (some 50) (Source.cut text.toList) type s) (hd : s.diagnostics = [])
    (file : Option Path) : parse text file = .ok (s.document type) := by
  have hsolid : Alike (Source.cut text.toList) (Source.solidTokens text) :=
    (alike_unplaced (Source.solidTokens text)).symm
  obtain ⟨s', h', hs⟩ := h.alike hsolid
  refine parse_ok.mpr ⟨type, s', h', ?_⟩
  obtain ⟨_, scope, roots, connectors, diagnostics⟩ := s
  obtain ⟨_, scope', roots', connectors', diagnostics'⟩ := s'
  cases hd
  simp only [State.unplaced, List.map_nil, State.mk.injEq, List.map_eq_nil_iff] at hs
  obtain ⟨-, rfl, rfl, rfl, rfl⟩ := hs
  rfl

theorem accepts_of_parse {text : String} {file : Option Path} {doc : Document α}
    (h : parse text file = .ok doc) :
    ∃ type s, Accepts (some 50) (Source.cut text.toList) type s ∧
      (s.document type).unplaced = doc.unplaced := by
  obtain ⟨type, s, ha, rfl⟩ := parse_ok.mp h
  obtain ⟨s', ha', hs⟩ := ha.alike (alike_unplaced _)
  refine ⟨type, s', ha', ?_⟩
  obtain ⟨_, scope, roots, connectors, diagnostics⟩ := s
  obtain ⟨_, scope', roots', connectors', diagnostics'⟩ := s'
  simp only [State.unplaced, State.mk.injEq] at hs
  obtain ⟨-, rfl, rfl, rfl, hdiag⟩ := hs
  simp [State.document, Document.unplaced, State.forest, hdiag]

theorem Accepts.scope {limit : Option Nat} {ts : List Token} {type : DiagramType} {s : State α}
    (h : Accepts limit ts type s) : s.scope = [] := by
  cases h with
  | plain _ _ _ hd => exact hd
  | wrapped _ _ _ _ _ _ _ _ _ hd => exact hd

/-- What a text makes without a diagnostic, its cut makes. -/
theorem accepts_of_clean {text : String} {file : Option Path} {doc : Document α}
    (h : parse text file = .ok doc) (hd : doc.diagnostics = []) :
    ∃ s, Accepts (some 50) (Source.cut text.toList) doc.type s ∧ s.scope = [] ∧
      s.roots = doc.roots ∧ s.connectors = doc.connectors ∧ s.diagnostics = [] := by
  obtain ⟨type, s, ha, he⟩ := accepts_of_parse h
  rw [Document.unplaced_of_clean hd] at he
  subst he
  refine ⟨s, ha, ha.scope, ?_, rfl, ?_⟩
  · simp [Document.unplaced, State.document, State.forest, ha.scope, openRoot]
  · simpa [Document.unplaced, State.document] using hd

end Grammar
end ComponentDiagram
