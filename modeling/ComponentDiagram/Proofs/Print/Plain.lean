import ComponentDiagram.Proofs.Print.Formatting
import ComponentDiagram.Proofs.Print.Patching
import ComponentDiagram.Proofs.Text.Sequences

/-! A printed document holds no escape sequence: an escape is a token of its own, so in a label a
space follows it, and nothing else that is printed holds one. -/
namespace ComponentDiagram
open Source Text Print

theorem Source.Spells.isCalm {k : TokenKind} {cs : List Char} (h : Spells k cs) : IsCalm cs := by
  by_cases hmem : '\x1b' ∈ cs
  · rw [h.eq_singleton hmem (by decide)]
    exact List.isChain_singleton _
  · exact isCalm_of_not_mem hmem

/-- Only a token of no special kind is an escape. -/
theorem Source.Spells.no_escape {k : TokenKind} {cs : List Char} (h : Spells k cs)
    (hk : k ≠ .other) : '\x1b' ∉ cs := by
  intro hmem
  have hother : Spells .other ['\x1b'] := ⟨_, _, rfl, by decide, by decide⟩
  rw [h.eq_singleton hmem (by decide)] at h
  exact hk (h.kind_unique hother)

theorem IsIdentifier.no_escape {name : String} (h : IsIdentifier name) : '\x1b' ∉ name.toList :=
  (h.spells (by decide) (by decide)).no_escape (by decide)

theorem IsLabel.isCalm {label : String} (h : IsLabel label) : IsCalm label.toList := by
  obtain ⟨values, rfl, hv⟩ := h.joined
  rw [String.toList_intercalate]
  refine isCalm_intercalate (by decide) fun w hw => ?_
  obtain ⟨v, hmem, rfl⟩ := List.mem_map.mp hw
  obtain ⟨k, hb, -, hend, hk⟩ := hv v hmem
  exact (hk.spells hb hend).isCalm

theorem isCalm_labelText {label : Option String} (h : ∀ l ∈ label, IsLabel l) :
    IsCalm (labelText label).toList := by
  cases label with
  | none => exact .nil
  | some l =>
    rw [toList_labelText (h l rfl)]
    split
    · exact isCalm_of_not_mem (by decide)
    · exact isCalm_append (a := [' ', ':', ' ']) (isCalm_of_not_mem (by decide)) (h l rfl).isCalm
        (.inl (by decide))

variable {α : Type} [Scalar α]

/-- A position that follows a label. -/
theorem Print.IsPlaceText.isCalm {place : List Char} (h : IsPlaceText place) :
    IsCalm place ∧ place.head? ≠ some '[' := by
  cases h with
  | absent => exact ⟨.nil, by simp⟩
  | present x y =>
    have hx := (spells_toString x).no_escape (by decide)
    have hy := (spells_toString y).no_escape (by decide)
    rw [toList_placeText]
    refine ⟨isCalm_of_not_mem ?_, by simp⟩
    simp only [List.mem_cons, List.mem_append, not_or]
    exact ⟨by decide, by decide, by decide, hx, by decide, hy⟩

omit [Scalar α] in
theorem isCalm_portText {owner : String} (ho : IsIdentifier owner) {port : Port α}
    (h : port.IsCanonical) : IsCalm (portText owner port).toList := by
  have hside : '\x1b' ∉ port.side.name.toList := by
    cases port.side <;> decide
  rw [portText, nonempty?_of_identifier h.connectorRef, String.toList_append]
  refine isCalm_append (isCalm_of_not_mem ?_) (isCalm_labelText h.label) (.inl ?_) <;>
    cases hr : port.connectorRef with
    | none => simp [toString, h.id.no_escape, ho.no_escape, hside]
    | some r => simp [toString, h.id.no_escape, (h.connectorRef r hr).no_escape, hside]

theorem isCalm_connectorText {c : Connector} {place : Nat} (h : c.IsRead place) :
    IsCalm (connectorText c).toList := by
  have hends {e : Endpoint} (he : e.IsRead) : '\x1b' ∉ (endpointText e).toList := by
    intro hmem
    obtain ⟨text, htext, hc⟩ := he.mem_text hmem
    exact htext.no_escape hc
  have hdrawn : '\x1b' ∉ c.kind.text.toList :=
    (spells_drawn h.symbol).no_escape (by cases c.kind <;> simp [drawnKind])
  rw [connectorText, nonempty?_of_identifier h.name, nonempty?_of_identifier h.interfaceName,
    String.toList_append]
  have hfront : ∀ w ∈ (c.name.toList.map fun name => s!"[{name}]") ++ c.interfaceName.toList ++
      [endpointText c.source, c.kind.text, endpointText c.target], '\x1b' ∉ w.toList := by
    simp only [List.mem_append, List.mem_map, Option.mem_toList, List.mem_cons, List.not_mem_nil,
      or_false]
    rintro w ((⟨n, hn, rfl⟩ | hn) | rfl | rfl | rfl)
    · simp [toString, (h.name n hn).no_escape]
    · exact (h.interfaceName w hn).no_escape
    · exact hends h.source
    · exact hdrawn
    · exact hends h.target
  have hclean : '\x1b' ∉ (" ".intercalate ((c.name.toList.map fun name => s!"[{name}]") ++
      c.interfaceName.toList ++
      [endpointText c.source, c.kind.text, endpointText c.target])).toList := by
    rw [String.toList_intercalate]
    intro hmem
    rcases Text.mem_join hmem with he | ⟨w, hw, hc⟩
    · cases he
    · obtain ⟨v, hv, rfl⟩ := List.mem_map.mp hw
      exact hfront v hv hc
  exact isCalm_append (isCalm_of_not_mem hclean) (isCalm_labelText h.label) (.inl hclean)

theorem isCalm_headText {c : Component α} (h : c.IsWellFormed IsWritable) {head : String}
    (hh : headText c = .ok head) : IsCalm head.toList ∧ IsCalm (head ++ " \x7b").toList := by
  obtain ⟨_, place, hhead, hplace, htext⟩ := headText_eq h
  rw [hh] at hhead
  cases hhead
  have hlabel : IsCalm (labelPart c).toList := by
    rw [labelPart]
    split
    · exact .nil
    · rw [String.toList_append]
      exact isCalm_append (isCalm_of_not_mem (by decide)) h.label.isCalm (.inl (by decide))
  have hid : '\x1b' ∉ '[' :: (c.id.toList ++ [']']) := by simp [h.id.no_escape]
  have hline (tail : List Char) (ht : IsCalm tail) (hne : tail.head? ≠ some '[') :
      IsCalm (head.toList ++ tail) := by
    have hrest := isCalm_append (isCalm_append hlabel hplace.isCalm.1 (.inr hplace.isCalm.2)) ht
      (.inr hne)
    have hall := isCalm_append (isCalm_of_not_mem hid) hrest (.inl hid)
    rw [htext]
    simpa using hall
  refine ⟨?_, ?_⟩
  · simpa using hline [] .nil (by simp)
  · rw [String.toList_append]
    exact hline _ (isCalm_of_not_mem (by decide)) (by decide)

theorem isCalm_indented {depth : Nat} {line : String} (h : IsCalm line.toList) :
    IsCalm (indent depth ++ line).toList := by
  have hindent : '\x1b' ∉ (indent depth).toList := by
    rw [indent, String.toList_ofList]
    simp
  rw [String.toList_append]
  exact isCalm_append (isCalm_of_not_mem hindent) h (.inl hindent)

/-- A document that was read is printed without escape sequences. -/
theorem Document.IsRead.holds_no_sequence {doc : Document α} (h : doc.IsRead) (hα : ReadsBack α)
    {text : String} (ht : Print.document doc = .ok text) : ¬ HoldsSequence text.toList := by
  have hlines : HoldsOfLines (IsWritable : α → Prop) (fun line => IsCalm line.toList)
      (fun line => IsCalm line.toList) :=
    ⟨isCalm_headText, isCalm_portText, isCalm_of_not_mem (by decide), fun _ _ => isCalm_indented⟩
  obtain ⟨inside, hinside, -⟩ := forestLines_tokens 1 doc.roots (h.isWellFormed hα)
  have hinner := hlines.forest Nat.one_pos (h.isWellFormed hα) hinside
  rw [document_of_lines hinside] at ht
  cases ht
  refine IsCalm.not_holds ?_
  rw [sourceOf, String.toList_append, String.toList_intercalate]
  refine isCalm_append (isCalm_intercalate (by decide) fun w hw => ?_)
    (isCalm_of_not_mem (by decide)) (.inr (by decide))
  obtain ⟨line, hline, rfl⟩ := List.mem_map.mp hw
  simp only [List.mem_append, List.mem_singleton] at hline
  rcases hline with (rfl | (hline | hline) | hline) | rfl
  · cases doc.type <;> exact isCalm_of_not_mem (by decide)
  · exact hinner line hline
  · split at hline
    · cases hline
    · rw [List.mem_singleton.mp hline]
      exact .nil
  · obtain ⟨c, hc, rfl⟩ := List.mem_map.mp hline
    obtain ⟨place, hplace⟩ := h.connector hc
    exact isCalm_indented (isCalm_connectorText hplace)
  · exact isCalm_of_not_mem (by decide)

end ComponentDiagram
