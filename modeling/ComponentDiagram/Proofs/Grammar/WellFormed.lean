import ComponentDiagram.Proofs.Grammar.Proper
import ComponentDiagram.Proofs.Numeric.Read
import ComponentDiagram.Proofs.Print.Rewriting
import ComponentDiagram.Proofs.Source.Coverage

/-! All that is read of a text is well formed, and its diagnostics follow the order of the text. -/
namespace ComponentDiagram
open Source

/-- The values of the tokens of a text. -/
def Source.words (text : String) : List String :=
  ((tokens text false).filter (·.kind != .endOfInput)).map (·.text)

def Diagnostic.position (d : Diagnostic) : Position := ⟨d.line, d.column⟩

/-- The labels of the components, of their ports and of the connectors. -/
def Document.labels {α : Type} (doc : Document α) : List String :=
  doc.components.flatMap (fun c => c.label :: c.ports.filterMap (·.label)) ++
    doc.connectors.filterMap (·.label)

/-- A document that a text can be read as. -/
structure Document.IsWellFormed (text : String) (doc : Document Float) : Prop where
  components : Tree.ForestAllBelow 50 (Component.IsWellFormed IsWhole) 0 doc.roots
  connectors : ∀ p ∈ doc.connectors.zipIdx, p.1.IsRead p.2
  labels : ∀ label ∈ doc.labels, " ".intercalate (words label) = label
  /-- Each diagnostic is about a token of the text. -/
  placed : ∀ d ∈ doc.diagnostics, ∃ t ∈ tokens text false,
    t.kind ≠ .endOfInput ∧ d.position = t.position
  ordered : doc.diagnostics.Pairwise fun d e => d.position.Before e.position

theorem Source.tokens_solid (text : String) :
    (tokens text false).filter (·.kind != .endOfInput) = solidTokens text := by
  rw [tokens_false, List.filter_filter, solidTokens]
  refine List.filter_congr fun t _ => ?_
  rw [isSubstantial, Bool.and_comm]

theorem Source.words_eq (text : String) : words text = (cut text.toList).map (·.text) := by
  rw [words, tokens_solid, solidTokens, cut, List.map_map]
  rfl

/-- The tokens of a text stand one behind the other. -/
theorem Source.solidTokens_ordered (text : String) :
    ((solidTokens text).map (·.position)).Pairwise Position.Before :=
  (scan_ordered {} text.toList).sublist (List.filter_sublist.map _)

namespace Grammar

variable {α : Type} [Scalar α]

/-! ## Diagnostics -/

/-- A clause notes nothing, or one problem at its first token. -/
theorem Reads.noted {limit : Option Nat} {ts rest : List Token} {c : Clause α}
    (hr : Reads ts c rest) {s s' : State α} (h : c.act limit s = some s') :
    s'.diagnostics = s.diagnostics ∨
      ∃ t tail m, ts = t :: tail ∧ s'.diagnostics = (s.warned m t).diagnostics := by
  cases hr with
  | newline => cases h; exact .inl rfl
  | closing =>
    simp only [Clause.act] at h
    split at h <;> cases h
    exact .inl (close_diagnostics s)
  | skipped => cases h; exact .inr ⟨_, _, _, rfl, rfl⟩
  | edge => cases h; exact .inl rfl
  | namedEdge => cases h; exact .inl rfl
  | component =>
    simp only [Clause.act, Option.some.injEq] at h
    subst h
    cases withinLimit limit s.scope.length with
    | true =>
      refine .inl ?_
      split
      · rfl
      · exact attach_diagnostics ..
    | false =>
      simp only [Bool.false_eq_true, if_false]
      split <;> exact .inr ⟨_, _, _, rfl, rfl⟩
  | @port _ _ _ _ _ _ _ _ _ _ target side =>
    cases target with
    | inside connector =>
      simp only [Clause.act] at h
      split at h <;> cases h
      exact .inl (addInner_diagnostics ..)
    | on node =>
      simp only [Clause.act, Option.some.injEq] at h
      subst h
      cases ha : s.addPort? node _ with
      | none => exact .inr ⟨_, _, _, rfl, rfl⟩
      | some added => exact .inl (addPort?_diagnostics ha)

/-- Clauses note problems at some of their tokens, in the order of the tokens. -/
theorem ReadsAll.noted {limit : Option Nat} {ts rest : List Token} {cs : List (Clause α)}
    (hr : ReadsAll ts cs rest) {s s' : State α} (h : actAll limit cs s = some s') :
    ∃ places, s'.diagnostics.map (·.position) = s.diagnostics.map (·.position) ++ places ∧
      places.Sublist (ts.map (·.position)) := by
  induction hr generalizing s with
  | nil => cases h; exact ⟨[], by simp, List.nil_sublist _⟩
  | @cons ts c ts' cs rest hfirst hothers ih =>
    obtain ⟨s₁, h₁, h₂⟩ := Option.bind_eq_some_iff.mp h
    obtain ⟨places, hplaces, hsub⟩ := ih h₂
    obtain ⟨t, tail, rfl, hsuffix⟩ := hfirst.suffix
    have htail : places.Sublist (tail.map (·.position)) := hsub.trans (hsuffix.sublist.map _)
    rcases hfirst.noted h₁ with hnone | ⟨u, tail', m, he, hone⟩
    · exact ⟨places, hnone ▸ hplaces, htail.cons _⟩
    · cases he
      refine ⟨t.position :: places, ?_, htail.cons_cons _⟩
      rw [hplaces, hone]
      simp [State.warned, Diagnostic.position]

theorem Accepts.noted {limit : Option Nat} {ts : List Token} {type : DiagramType} {s : State α}
    (h : Accepts limit ts type s) :
    (s.diagnostics.map (·.position)).Sublist (ts.map (·.position)) := by
  have hlines (us : List Token) : afterLines us <:+ us := List.dropWhile_suffix _
  have hrun {us rest : List Token} {cs : List (Clause α)} (hr : ReadsAll us cs rest)
      (ha : actAll limit cs {} = some s) :
      (s.diagnostics.map (·.position)).Sublist (us.map (·.position)) := by
    obtain ⟨places, he, hsub⟩ := hr.noted ha
    rwa [he]
  cases h with
  | plain _ hr ha _ => exact (hrun hr ha).trans ((hlines _).sublist.map _)
  | wrapped he _ _ hb _ hr _ _ ha _ =>
    have hinner := (List.suffix_cons _ _).trans (hb ▸ hlines _)
    have hrest := (List.suffix_append [_, _, _] _).trans (he ▸ hlines ts)
    exact (hrun hr ha).trans ((hinner.trans hrest).sublist.map _)

end Grammar

open Grammar

/-! ## Labels -/

theorem IsLabel.intercalate_words {label : String} (h : IsLabel label) :
    " ".intercalate (words label) = label := by
  rw [words_eq, h.intercalate_cut]

theorem Document.IsRead.isLabel {α : Type} [Scalar α] {doc : Document α} (h : doc.IsRead) :
    ∀ label ∈ doc.labels, IsLabel label := by
  intro label hl
  rcases List.mem_append.mp hl with hl | hl
  · obtain ⟨c, hc, hl⟩ := List.mem_flatMap.mp hl
    have hwritten := h.roots.values c hc
    rcases List.mem_cons.mp hl with rfl | hl
    · exact hwritten.label.toIsLabel
    · obtain ⟨port, hport, hlabel⟩ := List.mem_filterMap.mp hl
      exact (hwritten.ports port hport).label label hlabel
  · obtain ⟨c, hc, hlabel⟩ := List.mem_filterMap.mp hl
    obtain ⟨place, hplace, rfl⟩ := List.getElem_of_mem hc
    exact (h.connectors (_, place) (by simp [List.mem_zipIdx_iff_getElem?, hplace])).label label
      hlabel

/-- What is read of a text is well formed, with diagnostics in the order of the text. -/
theorem parse_wellFormed {text : String} {file : Option Path} {doc : Document Float}
    (h : parse text file = .ok doc) : doc.IsWellFormed text := by
  have hread := parse_isRead h
  obtain ⟨type, s, ha, rfl⟩ := parse_ok.mp h
  have hsub : ((s.document type).diagnostics.map (·.position)).Sublist
      ((solidTokens text).map (·.position)) := ha.noted
  refine ⟨hread.roots.mono fun c hc => hc.mono fun x hx => ?_, hread.connectors,
    fun label hl => (hread.isLabel label hl).intercalate_words, fun d hd => ?_, ?_⟩
  · obtain ⟨digits, hdigits⟩ := hx
    exact (whole_of_coordinate hdigits).1
  · obtain ⟨t, ht, hplace⟩ := List.mem_map.mp (hsub.subset (List.mem_map_of_mem hd))
    rw [← tokens_solid] at ht
    obtain ⟨hmem, hkind⟩ := List.mem_filter.mp ht
    exact ⟨t, hmem, by simpa using hkind, hplace.symm⟩
  · exact List.pairwise_map.mp ((solidTokens_ordered text).sublist hsub)

/-- Two components, one in the other, with a port and a connector between lines that are dropped. -/
def gappedText : String :=
  ", lost\n[a] one  two @ 1,-2 \x7b\n[b] : three\nport [p] with [e] left : in  out\n\x7d\n" ++
    "port [q] on [c] left\n[e] a -> b : four\n: gone\n"

theorem parse_wellFormed_gapped : parse gappedText none = .ok (documentOf gappedText) ∧
    (documentOf gappedText).diagnostics.map (·.position) = [⟨1, 1⟩, ⟨6, 1⟩, ⟨8, 1⟩] ∧
    (documentOf gappedText).IsWellFormed gappedText := by
  have hread : parse gappedText none = .ok (documentOf gappedText) :=
    parse_documentOf (by decide +kernel)
  exact ⟨hread, by decide +kernel, parse_wellFormed hread⟩

end ComponentDiagram
