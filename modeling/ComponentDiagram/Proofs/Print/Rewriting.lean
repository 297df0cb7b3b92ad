import ComponentDiagram.Proofs.Print.LoneHeads
import ComponentDiagram.Proofs.Print.Repositioning
import ComponentDiagram.Proofs.Text.Lines

/-! Positions that are written back into a source change positions and nothing else, if they are
written on the lines of lone heads. -/
namespace ComponentDiagram
namespace Print
open Grammar Source

/-- Each line that is rewritten holds a lone head, and it is not the line that opens the diagram. -/
structure HasLoneHeads {α : Type} [Scalar α] (text : String) (d : Diagram α) : Prop where
  line : ∀ line ∈ Text.lines text.toList, (nodeOnLine? d line).isSome = true →
    isLoneHead (cut line) = true
  opening : ∀ type ∈ wrapperType? (afterLines (cut text.toList)), d.node? type.name = none

/-- A text is cut line by line. -/
theorem cut_unlines (line : List Char) (lines : List (List Char)) :
    cut (Text.unlines (line :: lines)) = cut line ++ moreLines (lines.map cut) := by
  induction lines generalizing line with
  | nil => simp [Text.unlines, moreLines]
  | cons next lines ih =>
    have hlines : Text.unlines (line :: next :: lines) =
        line ++ '\n' :: Text.unlines (next :: lines) := by
      simp [Text.unlines, List.intercalate]
    rw [hlines, cut_append_line, ih, List.map_cons, moreLines]

section

variable {α : Type} [Scalar α]

/-- A text is rewritten line by line. -/
theorem updatePositions_starts {text : String} {d : Diagram α} (hl : HasLoneHeads text d)
    (hw : ∀ n ∈ d.nodes, IsWritable n.x ∧ IsWritable n.y) : ∃ text',
      updatePositions text d = .ok text' ∧
        Starts α (Knows d) (cut text.toList) (cut text'.toList) := by
  have hline : ∀ line ∈ Text.lines text.toList, ∃ line', patchLine d line = .ok line' ∧
      Rewrites α (Knows d) (cut line) (cut line') := by
    intro line hline
    refine rewrites_line (Text.newline_not_mem_lines _ line hline) (fun found hfound => ?_) hw
    exact hl.line line hline (by rw [hfound]; rfl)
  have hcut := congrArg cut (Text.unlines_lines text.toList)
  have hne := Text.lines_ne_nil text.toList
  generalize hls : Text.lines text.toList = ls at hline hcut hne
  obtain ⟨ls', hls'⟩ : ∃ ls', List.Forall₂ (fun line line' => patchLine d line = .ok line' ∧
      Rewrites α (Knows d) (cut line) (cut line')) ls ls' := by
    clear hls hcut hne
    induction ls with
    | nil => exact ⟨[], .nil⟩
    | cons line ls ih =>
      obtain ⟨hfirst, hothers⟩ := List.forall_mem_cons.mp hline
      obtain ⟨line', hline'⟩ := hfirst
      obtain ⟨ls', hls'⟩ := ih hothers
      exact ⟨line' :: ls', .cons hline' hls'⟩
  refine ⟨String.ofList (Text.unlines ls'), ?_, ?_⟩
  · rw [updatePositions, hls, mapM_ok (hls'.imp fun _ _ h => h.1)]
    rfl
  · cases hls' with
    | nil => exact absurd rfl hne
    | cons hfirst hothers =>
      rw [← hcut, String.toList_ofList, cut_unlines, cut_unlines]
      refine .intro hfirst.2 ?_
      rw [List.forall₂_map_left_iff, List.forall₂_map_right_iff]
      exact hothers.imp fun _ _ h => h.2

/-- Where positions are written on the lines of lone heads, the text says the same but for them. -/
theorem updatePositions_placeless {text : String} {file : Option Path} {doc : Document α}
    (h : parse text file = .ok doc) (hd : doc.diagnostics = []) {d : Diagram α}
    (hl : HasLoneHeads text d) (hw : ∀ n ∈ d.nodes, IsWritable n.x ∧ IsWritable n.y) :
    ∃ text' doc', updatePositions text d = .ok text' ∧ parse text' file = .ok doc' ∧
      doc'.diagnostics = [] ∧ doc'.placeless = doc.placeless := by
  obtain ⟨text', hupdate, hstarts⟩ := updatePositions_starts hl hw
  obtain ⟨s, haccepts, hscope, hroots, hconnectors, hclean⟩ := accepts_of_clean h hd
  obtain ⟨s', haccepts', hs'⟩ := accepts_moved haccepts hclean hstarts fun type htype hknown => by
    obtain ⟨n, hn⟩ := hknown
    rw [hl.opening type htype] at hn
    cases hn
  have hdiagnostics : s'.diagnostics = [] := by
    have h := congrArg State.diagnostics hs'
    have hmap : s'.diagnostics.map Diagnostic.unplaced = s.diagnostics.map Diagnostic.unplaced := h
    rw [hclean] at hmap
    exact List.map_eq_nil_iff.mp hmap
  have hconnectors' : s'.connectors = s.connectors := by
    have h := congrArg State.connectors hs'
    exact h
  have hroots' : s'.placeless.roots = s.placeless.roots := by
    have h := congrArg State.roots hs'
    exact h
  refine ⟨text', s'.document doc.type, hupdate, parse_of_accepts haccepts' hdiagnostics file,
    hdiagnostics, ?_⟩
  rw [placeless_document _ _ haccepts'.scope, hroots', hconnectors', hdiagnostics, ← hd,
    hconnectors, State.placeless, hroots]
  rfl

end

end Print

open Print Grammar

theorem IsFinite.isWritable {x : Float} (h : IsFinite x) : IsWritable x := h.coordinate

/-- Positions that are written back into a source that is read without a diagnostic change positions
only, if they are written on the lines of lone heads. -/
theorem updatePositions_clean {text : String} {file : Option Path} {doc : Document Float}
    (h : parse text file = .ok doc) (hclean : doc.diagnostics = []) {d : Diagram Float}
    (hd : (Build.diagram doc).IsMoved IsFinite d) (hl : HasLoneHeads text d) :
    ∃ text' doc', updatePositions text d = .ok text' ∧ parse text' file = .ok doc' ∧
      doc'.diagnostics = [] ∧ doc'.placeless = doc.placeless := by
  refine updatePositions_placeless h hclean hl fun n hn => ?_
  obtain ⟨hx, hy⟩ := hd.finite n hn
  exact ⟨hx.isWritable, hy.isWritable⟩

/-- The document that a source is read as; it is empty if the source is refused. -/
def documentOf (text : String) : Document Float :=
  ((parse text none : Except Failure (Document Float)).toOption).getD {}

theorem parse_documentOf {text : String}
    (h : ((parse text none : Except Failure (Document Float)).toOption).isSome = true) :
    parse text none = .ok (documentOf text) := by
  obtain ⟨doc, hdoc⟩ := Option.isSome_iff_exists.mp h
  rw [documentOf, hdoc]
  exact ok_of_toOption hdoc

theorem isMoved_self {d : Diagram Float} (h : ∀ n ∈ d.nodes, IsFinite n.x ∧ IsFinite n.y) :
    d.IsMoved IsFinite d :=
  ⟨rfl, rfl, rfl, List.forall₂_same.mpr fun n hn => ⟨rfl, h n hn⟩⟩

/-- A component with another one inside it and a port behind them, all on their own lines. -/
def sparseText : String := "[a] one @ 1,2 \x7b [b]\n\n  \x7d\nport [p] on [a] left\na -> b\n"

theorem updatePositions_clean_sparse : (documentOf sparseText).diagnostics = [] ∧
    (Build.diagram (documentOf sparseText)).IsMoved IsFinite
      (Build.diagram (documentOf sparseText)) ∧
    HasLoneHeads sparseText (Build.diagram (documentOf sparseText)) ∧
    ∃ text' doc', updatePositions sparseText (Build.diagram (documentOf sparseText)) = .ok text' ∧
      parse text' none = .ok doc' ∧ doc'.diagnostics = [] ∧
      doc'.placeless = (documentOf sparseText).placeless := by
  have hread : parse sparseText none = .ok (documentOf sparseText) :=
    parse_documentOf (by decide +kernel)
  have hclean : (documentOf sparseText).diagnostics = [] := by decide +kernel
  have hmoved : (Build.diagram (documentOf sparseText)).IsMoved IsFinite
      (Build.diagram (documentOf sparseText)) := isMoved_self (by decide +kernel)
  have halone : HasLoneHeads sparseText (Build.diagram (documentOf sparseText)) :=
    ⟨by decide +kernel, by decide +kernel⟩
  exact ⟨hclean, hmoved, halone, updatePositions_clean hread hclean hmoved halone⟩

/-- Behind a position a line may go on. When the position is moved to its end, what stood there
becomes a label: a component is lost. -/
theorem updatePositions_loses : ∃ (doc doc' : Document Float) (text' : String),
    parse "[a] @ 1,2 [b]\n" none = .ok doc ∧ doc.diagnostics = [] ∧
      (Build.diagram doc).IsMoved IsFinite (Build.diagram doc) ∧
      updatePositions "[a] @ 1,2 [b]\n" (Build.diagram doc) = .ok text' ∧
      parse text' none = .ok doc' ∧ doc'.placeless ≠ doc.placeless := by
  have hread : parse "[a] @ 1,2 [b]\n" none = .ok (documentOf "[a] @ 1,2 [b]\n") :=
    parse_documentOf (by decide +kernel)
  have hupdate : (updatePositions "[a] @ 1,2 [b]\n"
      (Build.diagram (documentOf "[a] @ 1,2 [b]\n"))).toOption = some "[a] [b] @ 1,2\n" := by
    decide +kernel
  have hreread : parse "[a] [b] @ 1,2\n" none = .ok (documentOf "[a] [b] @ 1,2\n") :=
    parse_documentOf (by decide +kernel)
  refine ⟨_, _, _, hread, by decide +kernel, isMoved_self (by decide +kernel),
    ok_of_toOption hupdate, hreread, fun he => ?_⟩
  have hroots := congrArg (fun doc => doc.roots.length) he
  have hone : (documentOf "[a] [b] @ 1,2\n").placeless.roots.length = 1 := by decide +kernel
  have htwo : (documentOf "[a] @ 1,2 [b]\n").placeless.roots.length = 2 := by decide +kernel
  simp only [hone, htwo] at hroots
  cases hroots

end ComponentDiagram
