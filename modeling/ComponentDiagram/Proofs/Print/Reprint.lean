import ComponentDiagram.Proofs.Grammar.Proper
import ComponentDiagram.Proofs.Numeric.Read
import ComponentDiagram.Proofs.Print.RoundTrip

/-! A document that was read is printed, and read back if it is legible. -/
namespace ComponentDiagram
open Source Grammar Print

/-! ## Ends -/

namespace Endpoint.IsRead

variable {e : Endpoint}

theorem node (h : e.IsRead) : '.' ∉ e.node.toList := by
  obtain ⟨text, -, rfl⟩ := h
  simp only [Endpoint.ofString, String.toList_ofList]
  intro hdot
  simpa using List.mem_takeWhile_imp hdot

theorem port (h : e.IsRead) : e.port ≠ some "" := by
  obtain ⟨text, -, rfl⟩ := h
  rw [Endpoint.ofString]
  simp only [ne_eq]
  split
  · simp
  · rename_i hne
    intro he
    have hnil := String.toList_eq_nil_iff.mpr (Option.some.inj he)
    rw [String.toList_ofList] at hnil
    exact hne (by rw [hnil]; rfl)

/-- An end is written as it was read, or without a dot that nothing follows. -/
private theorem written_ofString (text : String) : (Endpoint.ofString text).written = text ∨
    (Endpoint.ofString text).written = String.ofList (text.toList.takeWhile (· != '.')) := by
  have hsplit := List.takeWhile_append_dropWhile (p := (· != '.')) (l := text.toList)
  have hdot := List.head?_dropWhile_not (· != '.') text.toList
  rw [Endpoint.ofString]
  generalize text.toList.dropWhile (· != '.') = rest at hsplit hdot ⊢
  rcases rest with _ | ⟨d, _ | ⟨p, port⟩⟩
  · exact .inr rfl
  · exact .inr rfl
  · left
    have hd : d = '.' := by simpa using hdot
    rw [← String.toList_inj]
    refine Eq.trans ?_ hsplit
    simp [Endpoint.written, toString, hd]

/-- An end holds what it was read from. -/
theorem mem_text (h : e.IsRead) {c : Char} (hc : c ∈ (endpointText e).toList) :
    ∃ text, IsIdentifier text ∧ c ∈ text.toList := by
  rw [Endpoint.text_eq h.port] at hc
  obtain ⟨text, htext, rfl⟩ := h
  refine ⟨text, htext, ?_⟩
  rcases written_ofString text with hw | hw
  · rwa [hw] at hc
  · rw [hw, String.toList_ofList] at hc
    exact (List.takeWhile_sublist _).subset hc

/-- An end is cut to one word, or to nothing if it is empty. -/
theorem cut_text (h : e.IsRead) : endpointText e = "" ∨
    ∃ k, isWord k = true ∧ cut (endpointText e).toList = [token k (endpointText e)] := by
  rw [Endpoint.text_eq h.port]
  obtain ⟨text, htext, rfl⟩ := h
  have hspells := htext.spells (by decide) (by decide)
  rcases written_ofString text with hw | hw
  · rw [hw]
    exact .inr ⟨_, rfl, cut_of_spells hspells⟩
  · rw [hw]
    rcases hspells.before_dot with hnil | hword
    · exact .inl (by rw [hnil])
    · rw [← String.toList_ofList (l := text.toList.takeWhile (· != '.'))] at hword
      exact .inr ⟨_, isWord_wordKind _, cut_of_spells hword⟩

end Endpoint.IsRead

/-! ## Documents -/

variable {α : Type} [Scalar α]

/-- The coordinates that are read are written, and read again. -/
def ReadsBack (α : Type) [Scalar α] : Prop :=
  ∀ x : α, IsCoordinate x → IsWritable x ∧ reread x = x

theorem readsBack_float : ReadsBack Float := by
  rintro x ⟨text, hx⟩
  obtain ⟨hw, hz⟩ := whole_of_coordinate hx
  exact ⟨hw.isWritable, hw.reread.trans hz⟩

/-- The document without its diagnostics. -/
def Document.clean (doc : Document α) : Document α := { doc with diagnostics := [] }

theorem Connector.IsRead.reread {place : Nat} {c : Connector} (h : c.IsRead place) :
    c.reread place = c := by
  rw [Connector.reread, Endpoint.ofString_text h.source.node h.source.port,
    Endpoint.ofString_text h.target.node h.target.port, ← h.id, ← h.origin]

namespace Document.IsRead

variable {doc : Document α} (h : doc.IsRead) (hα : ReadsBack α)

include h hα

theorem isWellFormed :
    Tree.ForestAllBelow 50 (Component.IsWellFormed IsWritable) 0 doc.roots :=
  h.roots.mono fun _ hc => hc.mono fun x hx => (hα x hx).1

/-- A document that was read is itself when it is read again. -/
theorem reread : doc.reread = doc.clean := by
  have hroots : Tree.forestMap Component.reread doc.roots = doc.roots := by
    refine (Tree.forestMap_congr h.roots fun c hc => ?_).trans (Tree.forestMap_id doc.roots)
    obtain ⟨id, label, x, y, width, height, ports⟩ := c
    rw [Component.reread]
    rcases hc.place with ⟨hx, hy⟩ | ⟨x, y, hx, hy, hcx, hcy⟩ <;> cases hx <;> cases hy
    · rfl
    · simp only [Option.map_some, (hα x hcx).2, (hα y hcy).2]
      rfl
  have hconnectors : doc.connectors.zipIdx.map (fun p => p.1.reread p.2) = doc.connectors :=
    (List.map_congr_left fun p hp => (h.connectors p hp).reread).trans
      (List.zipIdx_map_fst 0 doc.connectors)
  rw [Document.reread, hroots, hconnectors, Document.clean]

omit hα in
theorem connector {c : Connector} (hc : c ∈ doc.connectors) : ∃ place, c.IsRead place := by
  obtain ⟨place, hplace⟩ := List.mem_iff_getElem?.mp hc
  exact ⟨place, h.connectors (c, place) (List.mk_mem_zipIdx_iff_getElem?.mpr hplace)⟩

/-- A document that was read is printed. -/
theorem printed : ∃ text, Print.document doc = .ok text ∧ cut text.toList = documentTokens doc := by
  refine cut_document (h.isWellFormed hα) fun c hc => ?_
  obtain ⟨place, hplace⟩ := h.connector hc
  exact cut_connectorText hplace.toIsWellFormed

end Document.IsRead

end ComponentDiagram
