import ComponentDiagram.Proofs.Grammar.Clause
import ComponentDiagram.Proofs.Model.Forest
import ComponentDiagram.Proofs.Source.Label

/-! Canonical documents: those that can be written in the source language. -/
namespace ComponentDiagram
open Source

/-- The value of one identifier. -/
def IsIdentifier (value : String) : Prop := IsValue .identifier value

/-- Tokens of one line, joined by spaces, without white space at the ends and without a brace that
would close a block. -/
structure IsLabel (label : String) : Prop where
  joined : ∃ values : List String, label = " ".intercalate values ∧
    ∀ v ∈ values, ∃ k, k ≠ .blank ∧ k ≠ .newline ∧ k ≠ .endOfInput ∧ IsValue k v
  trimmed : Text.trim label.toList = label.toList
  line : '\n' ∉ label.toList
  brace : '\x7d' ∉ label.toList

/-- A label that stands between a component's id and its position or block. -/
structure IsHeadLabel (label : String) : Prop extends IsLabel label where
  sign : '@' ∉ label.toList
  opening : '\x7b' ∉ label.toList

/-- An end as it is written, with the dot that a port needs. -/
def Endpoint.written (e : Endpoint) : String :=
  match e.port with
  | some port => s!"{e.node}.{port}"
  | none => e.node

/-- An end is written as one identifier, whose first dot divides it. -/
structure Endpoint.IsCanonical (e : Endpoint) : Prop where
  written : IsIdentifier e.written
  dot : '.' ∉ e.node.toList
  port : e.port ≠ some ""

/-- A connector that is written with what it is named, drawn and labelled. -/
structure Connector.IsWellFormed (c : Connector) : Prop where
  name : ∀ n ∈ c.name, IsIdentifier n
  interfaceName : ∀ n ∈ c.interfaceName, IsIdentifier n
  symbol : ∀ mark, c.kind = .interface mark → IsValue .interfaceConnector mark.text
  label : ∀ l ∈ c.label, IsLabel l

/-- A connector as it is read at a place in the order of all connectors. -/
structure Connector.IsCanonical (place : Nat) (c : Connector) : Prop extends c.IsWellFormed where
  id : c.id = s!"edge-{place}"
  origin : c.origin = .declared
  source : c.source.IsCanonical
  target : c.target.IsCanonical

variable {α : Type}

structure Port.IsCanonical (p : Port α) : Prop where
  id : IsIdentifier p.id
  label : ∀ l ∈ p.label, IsLabel l
  offset : p.offset = none
  connectorRef : ∀ r ∈ p.connectorRef, IsIdentifier r

/-- The coordinates are missing, or they pass. -/
def HasPlace (whole : α → Prop) (x y : Option α) : Prop :=
  (x = none ∧ y = none) ∨ ∃ x' y', x = some x' ∧ y = some y' ∧ whole x' ∧ whole y'

/-- A component that is written with its label and its ports, and with a position whose coordinates
pass, or with none. -/
structure Component.IsWellFormed (whole : α → Prop) (c : Component α) : Prop where
  id : IsIdentifier c.id
  label : IsHeadLabel c.label
  place : HasPlace whole c.x c.y
  width : c.width = none
  height : c.height = none
  ports : ∀ p ∈ c.ports, p.IsCanonical

theorem Component.IsWellFormed.mono {whole whole' : α → Prop} {c : Component α}
    (h : c.IsWellFormed whole) (hw : ∀ x, whole x → whole' x) : c.IsWellFormed whole' := by
  refine ⟨h.id, h.label, ?_, h.width, h.height, h.ports⟩
  rcases h.place with hnone | ⟨x, y, hx, hy, hwx, hwy⟩
  · exact .inl hnone
  · exact .inr ⟨x, y, hx, hy, hw x hwx, hw y hwy⟩

/-- A component that is no edge when it is written. -/
structure Component.IsCanonical (whole : α → Prop) (c : Component α) : Prop
    extends c.IsWellFormed whole where
  edge : Grammar.startsEdge (cut c.label.toList) = false

theorem Component.IsCanonical.mono {whole whole' : α → Prop} {c : Component α}
    (h : c.IsCanonical whole) (hw : ∀ x, whole x → whole' x) : c.IsCanonical whole' :=
  ⟨h.toIsWellFormed.mono hw, h.edge⟩

/-- A document that can be written in the source language and read back, where coordinates that pass
can. -/
structure Document.IsCanonical (whole : α → Prop) (doc : Document α) : Prop where
  roots : Tree.ForestAllBelow 50 (Component.IsCanonical whole) 0 doc.roots
  connectors : ∀ p ∈ doc.connectors.zipIdx, p.1.IsCanonical p.2
  diagnostics : doc.diagnostics = []

theorem IsIdentifier.ne_empty {name : String} (h : IsIdentifier name) : name ≠ "" := by
  rintro rfl
  exact (h.spells (by decide) (by decide)).ne_nil rfl

/-! ## Labels -/

namespace IsLabel

variable {label : String}

/-- A label is its tokens, joined by spaces. -/
theorem tokens (h : IsLabel label) : ∃ ts : List Token, (∀ t ∈ ts, IsToken t) ∧
    label = " ".intercalate (ts.map (·.text)) := by
  obtain ⟨values, rfl, hv⟩ := h.joined
  clear h
  suffices hts : ∃ ts : List Token, (∀ t ∈ ts, IsToken t) ∧ ts.map (·.text) = values by
    obtain ⟨ts, ht, rfl⟩ := hts
    exact ⟨ts, ht, rfl⟩
  induction values with
  | nil => exact ⟨[], by simp, rfl⟩
  | cons v values ih =>
    obtain ⟨ts, hts, rfl⟩ := ih fun w hw => hv w (List.mem_cons_of_mem v hw)
    obtain ⟨k, hb, -, hend, hk⟩ := hv v (List.mem_cons_self ..)
    have htoken := (hk.spells hb hend).isToken
    refine ⟨lexemeToken k v.toList :: ts, List.forall_mem_cons.mpr ⟨htoken, hts⟩, ?_⟩
    simp [lexemeToken]

/-- A label is cut into what it was joined from. -/
theorem intercalate_cut (h : IsLabel label) :
    " ".intercalate ((cut label.toList).map (·.text)) = label := by
  obtain ⟨ts, hts, he⟩ := h.tokens
  have hspace : (" " : String).toList = [' '] := rfl
  have hcut : cut label.toList = ts := by
    rw [he, String.toList_intercalate, hspace, List.map_map]
    exact cut_intercalate ts hts
  rw [hcut, he]

/-- A label that is cut and joined again is the same. -/
theorem joined_cut (h : IsLabel label) : Grammar.Reader.joined (cut label.toList) = label := by
  rw [Grammar.Reader.joined, h.intercalate_cut, h.trimmed, String.ofList_toList]

/-- What is gathered up to the end of a line is a label. -/
theorem of_joined {ts : List Token} (h : ∀ t ∈ ts, IsToken t)
    (hl : ∀ t ∈ ts, Grammar.inLine t = true) : IsLabel (Grammar.Reader.joined ts) := by
  have hkind : ∀ t ∈ ts, t.kind ≠ .newline ∧ t.kind ≠ .rightBrace := by
    intro t ht
    simpa [Grammar.inLine] using hl t ht
  refine ⟨⟨(strip isBlankToken ts).map (·.text), ?_, ?_⟩, ?_, ?_, ?_⟩
  · have hspace : (" " : String).toList = [' '] := rfl
    rw [← String.toList_inj, toList_joined h, String.toList_intercalate, hspace, List.map_map]
    rfl
  · intro v hv
    obtain ⟨t, ht, rfl⟩ := List.mem_map.mp hv
    have ht := mem_of_mem_strip ht
    have hsolid := (h t ht).isSubstantial
    simp only [isSubstantial, Bool.and_eq_true, bne_iff_ne] at hsolid
    exact ⟨t.kind, hsolid.1, (hkind t ht).1, hsolid.2, (h t ht).isValue⟩
  · rw [Grammar.Reader.joined, String.toList_ofList, Text.trim_trim]
  · intro hc
    rcases mem_joined h hc with hc | ⟨t, ht, hc⟩
    · cases hc
    · exact (hkind t ht).1 ((h t ht).spells.newline_of_mem hc)
  · exact not_mem_joined h rfl fun t ht => (hkind t ht).2

theorem inLine (h : IsLabel label) : ∀ t ∈ cut label.toList, Grammar.inLine t = true := by
  intro t ht
  have hline := kind_ne_newline h.line t ht
  have hbrace := kind_ne_of_not_mem (k := .rightBrace) rfl h.brace t ht
  simp [Grammar.inLine, hline, hbrace]

end IsLabel

theorem IsHeadLabel.inHead {label : String} (h : IsHeadLabel label) :
    ∀ t ∈ cut label.toList, Grammar.inHead t = true := by
  intro t ht
  have hline := kind_ne_newline h.line t ht
  have hbrace := kind_ne_of_not_mem (k := .rightBrace) rfl h.brace t ht
  have hsign := kind_ne_of_not_mem (k := .atSign) rfl h.sign t ht
  have hopening := kind_ne_of_not_mem (k := .leftBrace) rfl h.opening t ht
  simp [Grammar.inHead, hline, hbrace, hsign, hopening]

/-! ## Deciding what is canonical -/

instance : DecidablePred IsIdentifier := fun value =>
  decidable_of_iff (cut value.toList = [⟨.identifier, value, {}⟩])
    (isValue_iff (by decide) (by decide)).symm

/-- A label is what its tokens are joined to. -/
theorem isLabel_iff {label : String} : IsLabel label ↔
    Grammar.Reader.joined (cut label.toList) = label ∧ '\n' ∉ label.toList ∧
      '\x7d' ∉ label.toList := by
  constructor
  · exact fun h => ⟨h.joined_cut, h.line, h.brace⟩
  · rintro ⟨hj, hl, hb⟩
    rw [← hj]
    refine IsLabel.of_joined (fun t ht => isToken_of_mem_cut ht) fun t ht => ?_
    have hline := kind_ne_newline hl t ht
    have hbrace := kind_ne_of_not_mem (k := .rightBrace) rfl hb t ht
    simp [Grammar.inLine, hline, hbrace]

instance : DecidablePred IsLabel := fun _ => decidable_of_iff _ isLabel_iff.symm

instance : DecidablePred IsHeadLabel := fun label =>
  decidable_of_iff (IsLabel label ∧ '@' ∉ label.toList ∧ '\x7b' ∉ label.toList)
    ⟨fun h => ⟨h.1, h.2.1, h.2.2⟩, fun h => ⟨h.toIsLabel, h.sign, h.opening⟩⟩

instance : DecidablePred Endpoint.IsCanonical := fun e =>
  decidable_of_iff (IsIdentifier e.written ∧ '.' ∉ e.node.toList ∧ e.port ≠ some "")
    ⟨fun h => ⟨h.1, h.2.1, h.2.2⟩, fun h => ⟨h.written, h.dot, h.port⟩⟩

instance : DecidablePred Connector.IsWellFormed := fun c =>
  decidable_of_iff ((∀ n ∈ c.name, IsIdentifier n) ∧ (∀ n ∈ c.interfaceName, IsIdentifier n) ∧
      (∀ mark ∈ c.symbol?, cut mark.text.toList = [⟨.interfaceConnector, mark.text, {}⟩]) ∧
      ∀ l ∈ c.label, IsLabel l) <| by
    have hsymbol : (∀ mark ∈ c.symbol?, cut mark.text.toList =
        [⟨.interfaceConnector, mark.text, {}⟩]) ↔
        ∀ mark, c.kind = .interface mark → IsValue .interfaceConnector mark.text := by
      refine forall_congr' fun mark => ?_
      have hmark : mark ∈ c.symbol? ↔ c.kind = .interface mark := by
        rw [Connector.symbol?]
        cases c.kind <;> simp
      rw [hmark, isValue_iff (by decide) (by decide)]
    rw [hsymbol]
    exact ⟨fun h => ⟨h.1, h.2.1, h.2.2.1, h.2.2.2⟩, fun h => ⟨h.name, h.interfaceName, h.symbol,
      h.label⟩⟩

instance (place : Nat) : DecidablePred (Connector.IsCanonical place) := fun c =>
  decidable_of_iff (c.IsWellFormed ∧ c.id = s!"edge-{place}" ∧ c.origin = .declared ∧
      c.source.IsCanonical ∧ c.target.IsCanonical)
    ⟨fun h => ⟨h.1, h.2.1, h.2.2.1, h.2.2.2.1, h.2.2.2.2⟩,
      fun h => ⟨h.toIsWellFormed, h.id, h.origin, h.source, h.target⟩⟩

instance : DecidablePred (Port.IsCanonical (α := α)) := fun p =>
  decidable_of_iff (IsIdentifier p.id ∧ (∀ l ∈ p.label, IsLabel l) ∧ p.offset.isNone ∧
      ∀ r ∈ p.connectorRef, IsIdentifier r)
    ⟨fun h => ⟨h.1, h.2.1, Option.isNone_iff_eq_none.mp h.2.2.1, h.2.2.2⟩,
      fun h => ⟨h.id, h.label, Option.isNone_iff_eq_none.mpr h.offset, h.connectorRef⟩⟩

section

variable {whole : α → Prop}

instance [DecidablePred whole] (x y : Option α) : Decidable (HasPlace whole x y) :=
  match x, y with
  | none, none => .isTrue (.inl ⟨rfl, rfl⟩)
  | some x, some y => decidable_of_iff (whole x ∧ whole y) (by simp [HasPlace])
  | none, some y => .isFalse (by simp [HasPlace])
  | some x, none => .isFalse (by simp [HasPlace])

instance [DecidablePred whole] : DecidablePred (Component.IsCanonical whole) := fun c =>
  decidable_of_iff ((IsIdentifier c.id ∧ IsHeadLabel c.label ∧ HasPlace whole c.x c.y ∧
      c.width.isNone ∧ c.height.isNone ∧ ∀ p ∈ c.ports, p.IsCanonical) ∧
      Grammar.startsEdge (cut c.label.toList) = false)
    ⟨fun ⟨⟨hi, hl, hp, hw, hh, hs⟩, he⟩ => ⟨⟨hi, hl, hp, Option.isNone_iff_eq_none.mp hw,
        Option.isNone_iff_eq_none.mp hh, hs⟩, he⟩,
      fun h => ⟨⟨h.id, h.label, h.place, Option.isNone_iff_eq_none.mpr h.width,
        Option.isNone_iff_eq_none.mpr h.height, h.ports⟩, h.edge⟩⟩

instance [DecidablePred whole] : DecidablePred (Document.IsCanonical whole) := fun doc =>
  decidable_of_iff (Tree.ForestAllBelow 50 (Component.IsCanonical whole) 0 doc.roots ∧
      (∀ p ∈ doc.connectors.zipIdx, p.1.IsCanonical p.2) ∧ doc.diagnostics = [])
    ⟨fun h => ⟨h.1, h.2.1, h.2.2⟩, fun h => ⟨h.roots, h.connectors, h.diagnostics⟩⟩

end

end ComponentDiagram
